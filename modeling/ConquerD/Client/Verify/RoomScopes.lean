import ConquerD.Client.Verify.RoomKeys
import ConquerD.Client.Verify.RoomSteering
import Mathlib.Algebra.BigOperators.Group.Finset.Basic

/-!
# Rooms in the tables of the client

The client files by supernode and room under one text, and finds what is filed for a room
by how that text ends. What belongs to the room is read and taken, all of it and nothing
else, exactly when no text of another room ends that way; then each answer takes one from
the counts of its room, as long as there is something to take. A room id comes as the
supernode wrote it.
-/

namespace ConquerD.Client

open Std (ExtTreeMap ExtTreeSet)
open Lib.Rosters Lib.Run Wire

/-- What an entry is filed under. -/
structure RoomScope where
  supernodeId : String
  roomId : String

def RoomScope.key (e : RoomScope) : String :=
  roomScopeKey e.supernodeId e.roomId

/-- Every key of a table is that of one of the scopes. -/
def FiledUnder {γ : Type} [Membership String γ] (scopes : List RoomScope) (table : γ) : Prop :=
  ∀ k ∈ table, ∃ e ∈ scopes, e.key = k

/-- Nothing is pending zero times. -/
def Counted (m : ExtTreeMap String Nat) : Prop :=
  ∀ (k : String) (n : Nat), m[k]? = some n → 0 < n

/-- The one table is the other with one less under the key. -/
def OneLess (key : String) (m m' : ExtTreeMap String Nat) : Prop :=
  ∃ n, m[key]? = some n ∧ m'[key]? = (if n > 1 then some (n - 1) else none) ∧
    ∀ k ≠ key, m'[k]? = m[k]?

def roomKeys (scopes : List RoomScope) (roomId : String) : Finset String :=
  ((scopes.filter fun e => e.roomId == roomId).map RoomScope.key).toFinset

/-- How many creates of a room are pending, whoever was asked. -/
def pendingOf (scopes : List RoomScope) (roomId : String) (m : ExtTreeMap String Nat) : Nat :=
  ∑ k ∈ roomKeys scopes roomId, (m[k]?).getD 0

/-- Answers about a room as they come, each with where the visit of the keys begins and who
answers: how many are matched, and the table they leave. -/
def answerAll (roomId : String) :
    ExtTreeMap String Nat → List (Nat × String) → Nat × ExtTreeMap String Nat
  | m, [] => (0, m)
  | m, (visit, host) :: rest =>
    match takePendingMaterialize m visit host roomId with
    | none => answerAll roomId m rest
    | some m' =>
      let r := answerAll roomId m' rest
      (r.1 + 1, r.2)

/-! ## One answer -/

theorem getElem?_isSome_of_mem {m : ExtTreeMap String Nat} {k : String} (hk : k ∈ m) :
    ∃ n, m[k]? = some n :=
  ⟨m[k], ExtTreeMap.getElem?_eq_some_getElem hk⟩

theorem getElem?_eq_none_iff_notMem {m : ExtTreeMap String Nat} {k : String} :
    m[k]? = none ↔ k ∉ m := by
  rw [ExtTreeMap.mem_iff_isSome_getElem?, Bool.not_eq_true, Option.isSome_eq_false_iff,
    Option.isNone_iff_eq_none]

theorem decrementPending_eq_none_iff {m : ExtTreeMap String Nat} {key : String} :
    decrementPending m key = none ↔ key ∉ m := by
  unfold decrementPending
  rw [Option.map_eq_none_iff, getElem?_eq_none_iff_notMem]

theorem oneLess_of_decrementPending {m m' : ExtTreeMap String Nat} {key : String}
    (h : decrementPending m key = some m') : OneLess key m m' := by
  unfold decrementPending at h
  obtain ⟨n, hn, rfl⟩ := Option.map_eq_some_iff.mp h
  refine ⟨n, hn, ?_, fun k hk => ?_⟩
  · split
    · exact ExtTreeMap.getElem?_insert_self
    · exact ExtTreeMap.getElem?_erase_self
  · have hcmp : ¬ compare key k = .eq := fun heq => hk (compare_eq_iff_eq.mp heq).symm
    split
    · rw [ExtTreeMap.getElem?_insert, if_neg hcmp]
    · rw [ExtTreeMap.getElem?_erase, if_neg hcmp]

theorem oneLess_of_takePendingMaterialize {m m' : ExtTreeMap String Nat} {visit : Nat}
    {host roomId : String} (h : takePendingMaterialize m visit host roomId = some m') :
    ∃ key, endsWithRoom key roomId = true ∧ OneLess key m m' := by
  unfold takePendingMaterialize at h
  rcases Option.or_eq_some_iff.mp h with hhost | ⟨-, hany⟩
  · rcases Option.or_eq_some_iff.mp hhost with hexact | ⟨-, hbare⟩
    · exact ⟨_, endsWithRoom_roomScopeKey host roomId, oneLess_of_decrementPending hexact⟩
    · split at hbare
      · exact ⟨_, endsWithRoom_roomScopeKey (bare host) roomId, oneLess_of_decrementPending hbare⟩
      · cases hbare
  · obtain ⟨key, hkey, hless⟩ := Option.bind_eq_some_iff.mp hany
    exact ⟨key, (List.mem_filter.mp (List.mem_of_getElem? hkey)).2,
      oneLess_of_decrementPending hless⟩

theorem takePendingMaterialize_eq_none_iff {m : ExtTreeMap String Nat} {visit : Nat}
    {host roomId : String} :
    takePendingMaterialize m visit host roomId = none ↔
      ∀ k ∈ m, endsWithRoom k roomId = false := by
  constructor
  · intro h k hk
    unfold takePendingMaterialize at h
    rw [Option.or_eq_none_iff] at h
    by_contra hends
    have hmem : k ∈ m.keys.filter fun k => endsWithRoom k roomId :=
      List.mem_filter.mpr ⟨ExtTreeMap.mem_keys.mpr hk, by simpa using hends⟩
    have hlt := Nat.mod_lt visit (List.length_pos_of_mem hmem)
    rw [List.getElem?_eq_getElem hlt, Option.bind_some, decrementPending_eq_none_iff] at h
    exact h.2 (ExtTreeMap.mem_keys.mp (List.mem_filter.mp (List.getElem_mem hlt)).1)
  · intro h
    cases htake : takePendingMaterialize m visit host roomId with
    | none => rfl
    | some m' =>
      obtain ⟨key, hends, n, hn, -⟩ := oneLess_of_takePendingMaterialize htake
      rw [h key (ExtTreeMap.mem_iff_isSome_getElem?.mpr (by rw [hn]; rfl))] at hends
      cases hends

namespace OneLess

variable {key : String} {m m' : ExtTreeMap String Nat}

theorem mem (h : OneLess key m m') : key ∈ m := by
  obtain ⟨n, hn, -⟩ := h
  exact ExtTreeMap.mem_iff_isSome_getElem?.mpr (by rw [hn]; rfl)

theorem counted (h : OneLess key m m') (hm : Counted m) : Counted m' := by
  obtain ⟨n, hn, hkey, hother⟩ := h
  intro k c hc
  by_cases hk : k = key
  · subst hk
    rw [hkey] at hc
    split at hc
    · cases hc
      omega
    · cases hc
  · rw [hother k hk] at hc
    exact hm k c hc

theorem filed {scopes : List RoomScope} (h : OneLess key m m') (hm : FiledUnder scopes m) :
    FiledUnder scopes m' := by
  intro k hk
  by_cases heq : k = key
  · exact heq ▸ hm key h.mem
  · obtain ⟨n, -, -, hother⟩ := h
    obtain ⟨c, hc⟩ := getElem?_isSome_of_mem hk
    rw [hother k heq] at hc
    exact hm k (ExtTreeMap.mem_iff_isSome_getElem?.mpr (by rw [hc]; rfl))

theorem pendingOf {scopes : List RoomScope} {roomId : String} (h : OneLess key m m')
    (hm : Counted m) (hkey : key ∈ roomKeys scopes roomId) :
    pendingOf scopes roomId m' + 1 = pendingOf scopes roomId m := by
  obtain ⟨n, hn, hless, hother⟩ := h
  have hpos := hm key n hn
  have hrest : ∑ k ∈ (roomKeys scopes roomId).erase key, (m'[k]?).getD 0 =
      ∑ k ∈ (roomKeys scopes roomId).erase key, (m[k]?).getD 0 :=
    Finset.sum_congr rfl fun k hk => by rw [hother k (Finset.ne_of_mem_erase hk)]
  have hone : (m'[key]?).getD 0 + 1 = (m[key]?).getD 0 := by
    rw [hless, hn]
    split
    · simp only [Option.getD_some]
      omega
    · simp only [Option.getD_none, Option.getD_some]
      omega
  unfold Client.pendingOf
  rw [← Finset.add_sum_erase _ (fun k => (m'[k]?).getD 0) hkey,
    ← Finset.add_sum_erase _ (fun k => (m[k]?).getD 0) hkey, hrest]
  omega

end OneLess

/-! ## Rooms apart -/

/-- Whatever is filed under the scopes, the room's entries are read and taken, and no
other: members come from its snapshots, an answer clears its pending joins, and each of
its pending creates is taken by one answer. -/
structure RoomsApart (scopes : List RoomScope) (roomId : String) : Prop where
  union : ∀ snapshots : Roster String String, FiledUnder scopes snapshots → ∀ m,
    m ∈ unionMembersForRoom snapshots roomId ↔
      ∃ e ∈ scopes, e.roomId = roomId ∧ m ∈ members snapshots e.key
  joins : ∀ set : ExtTreeSet String, FiledUnder scopes set → ∀ host,
    ((takePendingScopedKey set host roomId).1 = true ↔
      ∃ e ∈ scopes, e.roomId = roomId ∧ e.key ∈ set) ∧
    ∀ e ∈ scopes, e.key ∈ set →
      (e.key ∈ (takePendingScopedKey set host roomId).2 ↔ e.roomId ≠ roomId)
  creates : ∀ m : ExtTreeMap String Nat, FiledUnder scopes m → ∀ visit host,
    match takePendingMaterialize m visit host roomId with
    | none => ∀ e ∈ scopes, e.roomId = roomId → e.key ∉ m
    | some m' => (∃ e ∈ scopes, e.roomId = roomId ∧ OneLess e.key m m') ∧
        ∀ e ∈ scopes, e.roomId ≠ roomId → m'[e.key]? = m[e.key]?
  answers : ∀ m : ExtTreeMap String Nat, FiledUnder scopes m → Counted m →
    ∀ answers : List (Nat × String),
      (answerAll roomId m answers).1 = min answers.length (pendingOf scopes roomId m) ∧
        pendingOf scopes roomId (answerAll roomId m answers).2 +
          (answerAll roomId m answers).1 = pendingOf scopes roomId m ∧
        ∀ e ∈ scopes, e.roomId ≠ roomId → (answerAll roomId m answers).2[e.key]? = m[e.key]?

/-- No text of another room ends the way the texts of this one do. -/
def NoOtherEnds (scopes : List RoomScope) (roomId : String) : Prop :=
  ∀ e ∈ scopes, e.roomId ≠ roomId → endsWithRoom e.key roomId = false

theorem RoomScope.endsWithRoom_key (e : RoomScope) : endsWithRoom e.key e.roomId = true :=
  endsWithRoom_roomScopeKey e.supernodeId e.roomId

theorem mem_roomKeys {scopes : List RoomScope} {roomId k : String} :
    k ∈ roomKeys scopes roomId ↔ ∃ e ∈ scopes, e.roomId = roomId ∧ e.key = k := by
  simp [roomKeys, and_assoc]

namespace NoOtherEnds

variable {scopes : List RoomScope} {roomId : String} (h : NoOtherEnds scopes roomId)
include h

theorem room_of_ends {e : RoomScope} (he : e ∈ scopes)
    (hends : endsWithRoom e.key roomId = true) : e.roomId = roomId := by
  by_contra hne
  rw [h e he hne] at hends
  cases hends

theorem ends_iff {e : RoomScope} (he : e ∈ scopes) :
    endsWithRoom e.key roomId = true ↔ e.roomId = roomId :=
  ⟨h.room_of_ends he, fun heq => heq ▸ e.endsWithRoom_key⟩

theorem union {snapshots : Roster String String} (hs : FiledUnder scopes snapshots)
    (m : String) : m ∈ unionMembersForRoom snapshots roomId ↔
      ∃ e ∈ scopes, e.roomId = roomId ∧ m ∈ members snapshots e.key := by
  rw [mem_unionMembersForRoom]
  constructor
  · rintro ⟨key, set, hset, hends, hmem⟩
    obtain ⟨e, he, rfl⟩ := hs key (ExtTreeMap.mem_iff_isSome_getElem?.mpr (by rw [hset]; rfl))
    refine ⟨e, he, h.room_of_ends he hends, ?_⟩
    rw [members, hset]
    exact hmem
  · rintro ⟨e, he, rfl, hmem⟩
    cases hset : snapshots[e.key]? with
    | none =>
      rw [members, hset] at hmem
      simp at hmem
    | some set =>
      rw [members, hset] at hmem
      exact ⟨e.key, set, hset, e.endsWithRoom_key, hmem⟩

theorem joins {set : ExtTreeSet String} (hs : FiledUnder scopes set) (host : String) :
    ((takePendingScopedKey set host roomId).1 = true ↔
      ∃ e ∈ scopes, e.roomId = roomId ∧ e.key ∈ set) ∧
    ∀ e ∈ scopes, e.key ∈ set →
      (e.key ∈ (takePendingScopedKey set host roomId).2 ↔ e.roomId ≠ roomId) := by
  refine ⟨?_, fun e he hmem => ?_⟩
  · rw [takePendingScopedKey_hit, List.any_eq_true]
    constructor
    · rintro ⟨k, hk, hends⟩
      rw [ExtTreeSet.mem_toList] at hk
      obtain ⟨e, he, rfl⟩ := hs k hk
      exact ⟨e, he, h.room_of_ends he hends, hk⟩
    · rintro ⟨e, he, rfl, hk⟩
      exact ⟨e.key, ExtTreeSet.mem_toList.mpr hk, e.endsWithRoom_key⟩
  · rw [mem_takePendingScopedKey, and_iff_right hmem, ← Bool.not_eq_true, h.ends_iff he]

theorem creates {m : ExtTreeMap String Nat} (hm : FiledUnder scopes m) (visit : Nat)
    (host : String) :
    (takePendingMaterialize m visit host roomId = none ∧
      ∀ e ∈ scopes, e.roomId = roomId → e.key ∉ m) ∨
    ∃ m', takePendingMaterialize m visit host roomId = some m' ∧
      ∃ e ∈ scopes, e.roomId = roomId ∧ OneLess e.key m m' := by
  cases htake : takePendingMaterialize m visit host roomId with
  | none =>
    refine .inl ⟨rfl, ?_⟩
    rintro e - rfl hmem
    have hends := takePendingMaterialize_eq_none_iff.mp htake e.key hmem
    rw [e.endsWithRoom_key] at hends
    cases hends
  | some m' =>
    obtain ⟨key, hends, hless⟩ := oneLess_of_takePendingMaterialize htake
    obtain ⟨e, he, rfl⟩ := hm key hless.mem
    exact .inr ⟨m', rfl, e, he, h.room_of_ends he hends, hless⟩

theorem others {e e' : RoomScope} {m m' : ExtTreeMap String Nat} (he : e ∈ scopes)
    (hroom : e.roomId = roomId) (hless : OneLess e.key m m') (he' : e' ∈ scopes)
    (hne : e'.roomId ≠ roomId) : m'[e'.key]? = m[e'.key]? := by
  obtain ⟨n, -, -, hother⟩ := hless
  refine hother e'.key fun heq => ?_
  have hends := h e' he' hne
  rw [heq, (h.ends_iff he).mpr hroom] at hends
  cases hends

theorem answers {m : ExtTreeMap String Nat} (hm : FiledUnder scopes m) (hc : Counted m)
    (answers : List (Nat × String)) :
    (answerAll roomId m answers).1 = min answers.length (pendingOf scopes roomId m) ∧
      pendingOf scopes roomId (answerAll roomId m answers).2 +
        (answerAll roomId m answers).1 = pendingOf scopes roomId m ∧
      ∀ e ∈ scopes, e.roomId ≠ roomId → (answerAll roomId m answers).2[e.key]? = m[e.key]? := by
  induction answers generalizing m with
  | nil => exact ⟨(Nat.zero_min _).symm, rfl, fun _ _ _ => rfl⟩
  | cons answer rest ih =>
    obtain ⟨visit, host⟩ := answer
    rw [answerAll]
    obtain ⟨htake, hnone⟩ | ⟨m', htake, e, he, hroom, hless⟩ := h.creates hm visit host
    · rw [htake]
      have hzero : pendingOf scopes roomId m = 0 := by
        refine Finset.sum_eq_zero fun k hk => ?_
        obtain ⟨e, he, hroom, rfl⟩ := mem_roomKeys.mp hk
        rw [getElem?_eq_none_iff_notMem.mpr (hnone e he hroom), Option.getD_none]
      obtain ⟨hcount, hleft⟩ := ih hm hc
      refine ⟨?_, hleft⟩
      rw [hcount, hzero, Nat.min_zero, Nat.min_zero]
    · rw [htake]
      have htotal := hless.pendingOf hc (mem_roomKeys.mpr ⟨e, he, hroom, rfl⟩)
      obtain ⟨hcount, hleft, hother⟩ := ih (hless.filed hm) (hless.counted hc)
      refine ⟨?_, ?_, fun e' he' hne => ?_⟩
      · simp only [List.length_cons]
        omega
      · simp only
        omega
      · exact (hother e' he' hne).trans (h.others he hroom hless he' hne)

end NoOtherEnds

/-- The room's entries are told from the others exactly when no text of another room ends
as its own do. -/
theorem roomsApart_iff (scopes : List RoomScope) (roomId : String) :
    RoomsApart scopes roomId ↔ NoOtherEnds scopes roomId := by
  constructor
  · intro h e he hne
    have hfiled : FiledUnder scopes ((∅ : ExtTreeSet String).insert e.key) := by
      intro k hk
      rw [ExtTreeSet.mem_insert] at hk
      obtain hkey | hempty := hk
      · exact ⟨e, he, compare_eq_iff_eq.mp hkey⟩
      · exact absurd hempty ExtTreeSet.not_mem_empty
    have hleft := ((h.joins _ hfiled e.supernodeId).2 e he ExtTreeSet.mem_insert_self).mpr hne
    exact (mem_takePendingScopedKey.mp hleft).2
  · intro h
    refine ⟨fun _ hs m => h.union hs m, fun _ hs host => h.joins hs host,
      fun m hm visit host => ?_, fun _ hm hc answers => h.answers hm hc answers⟩
    obtain ⟨htake, hnone⟩ | ⟨m', htake, e, he, hroom, hless⟩ := h.creates hm visit host
    · rw [htake]
      exact hnone
    · rw [htake]
      exact ⟨⟨e, he, hroom, hless⟩, fun e' he' hne => h.others he hroom hless he' hne⟩

/-- A room whose id ends in a colon and the id of another. -/
def nestedScopes : List RoomScope :=
  [⟨"hub", "den"⟩, ⟨"hub", "a:den"⟩]

/-- What is pending for the one room is taken for the other. -/
theorem nested_mixed : ¬ RoomsApart nestedScopes "den" := by
  rw [roomsApart_iff]
  intro h
  have hends := h ⟨"hub", "a:den"⟩ (by simp [nestedScopes]) (by decide)
  exact absurd hends (by decide)

/-! ## The pending tables of a client -/

/-- What files creates and takes them back. -/
inductive CreateStep where
  | sendRoomCreate (env : Env) (supernodeId : String) (roomId : Option String)
    (materializeOnly : Bool)
  | roomCreated (env : Env) (r : RoomReply) (visit : Nat)

namespace RoomClient

def createStep (c : RoomClient) : CreateStep → RoomClient
  | .sendRoomCreate env supernodeId roomId materializeOnly =>
    c.sendRoomCreate env supernodeId roomId materializeOnly
  | .roomCreated env r visit => c.handleRoomCreated env r visit

/-- The scope a step files a create under. -/
def asked : CreateStep → List RoomScope
  | .sendRoomCreate env supernodeId roomId _ =>
    roomId.toList.map fun rid => ⟨env.liveRoomRoute supernodeId, rid⟩
  | .roomCreated .. => []

theorem pendingMaterialize_sendRoomCreate (env : Env) (c : RoomClient) (supernodeId : String)
    (roomId : Option String) (materializeOnly : Bool) :
    (c.sendRoomCreate env supernodeId roomId materializeOnly).pendingMaterialize =
        c.pendingMaterialize ∨
      ∃ rid, roomId = some rid ∧
        (c.sendRoomCreate env supernodeId roomId materializeOnly).pendingMaterialize =
          c.pendingMaterialize.insert (roomScopeKey (env.liveRoomRoute supernodeId) rid)
            ((c.pendingMaterialize[roomScopeKey (env.liveRoomRoute supernodeId) rid]?).getD 0 +
              1) := by
  unfold sendRoomCreate
  cases hroom : roomId.filter (· ≠ "") with
  | none => exact .inl rfl
  | some rid =>
    cases materializeOnly with
    | false => exact .inl rfl
    | true => exact .inr ⟨rid, Option.eq_some_of_filter_eq_some hroom, rfl⟩

theorem pendingMaterialize_handleRoomCreated (env : Env) (c : RoomClient) (r : RoomReply)
    (visit : Nat) :
    (c.handleRoomCreated env r visit).pendingMaterialize = c.pendingMaterialize ∨
      ∃ key, OneLess key c.pendingMaterialize
        (c.handleRoomCreated env r visit).pendingMaterialize := by
  unfold handleRoomCreated
  split
  · exact .inl rfl
  · cases htake : takePendingMaterialize c.pendingMaterialize visit r.sender.text r.roomId with
    | none => exact .inl rfl
    | some m' =>
      obtain ⟨key, -, hless⟩ := oneLess_of_takePendingMaterialize htake
      exact .inr ⟨key, hless⟩

theorem counted_createStep {c : RoomClient} {scopes : List RoomScope}
    (hc : Counted c.pendingMaterialize) (hf : FiledUnder scopes c.pendingMaterialize)
    (s : CreateStep) :
    Counted (c.createStep s).pendingMaterialize ∧
      FiledUnder (scopes ++ asked s) (c.createStep s).pendingMaterialize := by
  have hmore : ∀ k ∈ c.pendingMaterialize, ∃ e ∈ scopes ++ asked s, e.key = k := by
    intro k hk
    obtain ⟨e, he, hkey⟩ := hf k hk
    exact ⟨e, List.mem_append_left _ he, hkey⟩
  cases s with
  | sendRoomCreate env supernodeId roomId materializeOnly =>
    obtain hsame | ⟨rid, rfl, hinsert⟩ :=
      pendingMaterialize_sendRoomCreate env c supernodeId roomId materializeOnly
    · rw [createStep, hsame]
      exact ⟨hc, hmore⟩
    · rw [createStep, hinsert]
      constructor
      · intro k n hn
        rw [ExtTreeMap.getElem?_insert] at hn
        split at hn
        · cases hn
          exact Nat.succ_pos _
        · exact hc k n hn
      · intro k hk
        obtain hkey | hold := ExtTreeMap.mem_insert.mp hk
        · exact ⟨⟨env.liveRoomRoute supernodeId, rid⟩,
            List.mem_append_right _ List.mem_cons_self, compare_eq_iff_eq.mp hkey⟩
        · exact hmore k hold
  | roomCreated env r visit =>
    obtain hsame | ⟨key, hless⟩ := pendingMaterialize_handleRoomCreated env c r visit
    · rw [createStep, hsame]
      exact ⟨hc, hmore⟩
    · exact ⟨hless.counted hc, hless.filed hmore⟩

theorem counted_run {c : RoomClient} {scopes : List RoomScope}
    (hc : Counted c.pendingMaterialize) (hf : FiledUnder scopes c.pendingMaterialize)
    (steps : List CreateStep) :
    Counted (run createStep c steps).pendingMaterialize ∧
      FiledUnder (scopes ++ steps.flatMap asked) (run createStep c steps).pendingMaterialize := by
  induction steps generalizing c scopes with
  | nil =>
    rw [List.flatMap_nil, List.append_nil]
    exact ⟨hc, hf⟩
  | cons s steps ih =>
    obtain ⟨hc', hf'⟩ := counted_createStep hc hf s
    rw [List.flatMap_cons, ← List.append_assoc]
    exact ih hc' hf'

/-- In every run the pending creates are counted, under scopes that were asked for. -/
theorem creates_counted (publicId : String) (peerStore : PeerStore) (steps : List CreateStep) :
    Counted (run createStep (start publicId peerStore) steps).pendingMaterialize ∧
      FiledUnder (steps.flatMap asked)
        (run createStep (start publicId peerStore) steps).pendingMaterialize := by
  have hnone : ∀ k : String, k ∉ (start publicId peerStore).pendingMaterialize :=
    fun _ => ExtTreeMap.not_mem_empty
  refine @counted_run (start publicId peerStore) [] (fun k n hn => ?_)
    (fun k hk => absurd hk (hnone k)) steps
  rw [getElem?_eq_none_iff_notMem.mpr (hnone k)] at hn
  cases hn

end RoomClient

end ConquerD.Client
