import ConquerD.Client.Verify.IdentityKeying
import ConquerD.Client.Verify.Keying
import ConquerD.Lib.Trace
import ConquerD.Wire.Space
import Mathlib.Data.List.Find
import Mathlib.Data.List.Nodup

/-!
# Keying and the spelling of members

The client elects on ids without their padding, but keeps members and outstanding keys under
the texts they came as. As long as each identity of a room is written one way, our own as we
write it, and is confirmed under that text, the client keys its rooms by identities: then
two runs that differ in spellings only are alike. A snapshot that has our own id in the
other spelling gives us a second member, and we mint a key alone.
-/

namespace ConquerD.Client

open Std (ExtTreeMap ExtTreeSet)
open Lib.Rosters Lib.Run Lib.Trace Wire

/-- A key derives for an id with its pad exactly when it does without. -/
def Env.SealsAlike (env : Env) : Prop :=
  ∀ id, bare id = id → env.canSealTo (id.push '=') = env.canSealTo id

theorem Env.SealsAlike.identityOf {env : Env} (h : env.SealsAlike) (id : String) :
    env.canSealTo (identityOf id) = env.canSealTo id := by
  unfold Client.identityOf
  split
  · next hid =>
    rw [hid, bare_push, bare_bare]
    exact (h (bare id) (bare_bare id)).symm
  · rfl

/-- Each identity is written one way among the texts. -/
def OneSpelling (S : String → Prop) : Prop :=
  ∀ a b, S a → S b → bare a = bare b → a = b

theorem OneSpelling.mono {S T : String → Prop} (h : OneSpelling S) (hTS : ∀ a, T a → S a) :
    OneSpelling T :=
  fun a b ha hb hab => h a b (hTS a ha) (hTS b hb) hab

theorem OneSpelling.eq {S : String → Prop} (h : OneSpelling S) {a b : String} (ha : S a)
    (hb : S b) (hab : identityOf a = identityOf b) : a = b :=
  h a b ha hb (bare_eq_of_identityOf hab)

theorem OneSpelling.mem_image {S : String → Prop} (h : OneSpelling S) {T : Set String} {a : String}
    (ha : S a) (hT : ∀ b ∈ T, S b) : identityOf a ∈ identityOf '' T ↔ a ∈ T := by
  constructor
  · rintro ⟨b, hb, hab⟩
    rwa [← h.eq (hT b hb) ha hab]
  · exact Set.mem_image_of_mem identityOf

/-- The messages by whom they go to. -/
def sentTo (out : List Outgoing) : Set Outgoing :=
  Outgoing.identity '' {o | o ∈ out}

@[simp] theorem sentTo_nil : sentTo [] = ∅ := by
  simp [sentTo]

theorem sentTo_singleton (o : Outgoing) : sentTo [o] = {o.identity} := by
  unfold sentTo
  rw [← Set.image_singleton]
  congr 1
  ext x
  simp

theorem sentTo_append (out out' : List Outgoing) : sentTo (out ++ out') = sentTo out ∪ sentTo out' := by
  unfold sentTo
  rw [← Set.image_union]
  congr 1
  ext o
  simp

/-! ## Outstanding keys by identity -/

/-- Keys sent and not confirmed. -/
abbrev Pendings := List ((String × String) × PendingGroupKeyAck)

def entryFor (l : Pendings) (roomId id : String) : Option PendingGroupKeyAck :=
  (l.find? fun e => e.1.1 == roomId && identityOf e.1.2 == id).map Prod.snd

theorem entryFor_filter_of_true {l : Pendings} {f : (String × String) × PendingGroupKeyAck → Bool}
    {roomId id : String}
    (h : ∀ e ∈ l, e.1.1 = roomId → identityOf e.1.2 = id → f e = true) :
    entryFor (l.filter f) roomId id = entryFor l roomId id := by
  unfold entryFor
  rw [List.find?_filter]
  refine congrArg _ (List.find?_congr fun e he => ?_)
  rw [Bool.eq_iff_iff]
  simp only [Bool.and_eq_true, beq_iff_eq, decide_eq_true_eq]
  exact ⟨And.right, fun hmatch => ⟨h e he hmatch.1 hmatch.2, hmatch⟩⟩

theorem entryFor_eq_none {l : Pendings} {roomId id : String}
    (h : ∀ e ∈ l, e.1.1 = roomId → identityOf e.1.2 ≠ id) : entryFor l roomId id = none := by
  unfold entryFor
  rw [Option.map_eq_none_iff, List.find?_eq_none]
  intro e he hmatch
  rw [Bool.and_eq_true, beq_iff_eq, beq_iff_eq] at hmatch
  exact h e he hmatch.1 hmatch.2

theorem entryFor_filter_of_false {l : Pendings} {f : (String × String) × PendingGroupKeyAck → Bool}
    {roomId id : String}
    (h : ∀ e ∈ l, e.1.1 = roomId → identityOf e.1.2 = id → f e = false) :
    entryFor (l.filter f) roomId id = none := by
  refine entryFor_eq_none fun e he hroom hid => ?_
  obtain ⟨hmem, hf⟩ := List.mem_filter.mp he
  rw [h e hmem hroom hid] at hf
  cases hf

theorem entryFor_of_mem {l : Pendings} (hnd : (l.map Prod.fst).Nodup)
    {e : (String × String) × PendingGroupKeyAck} (he : e ∈ l)
    (h : ∀ e' ∈ l, e'.1.1 = e.1.1 → identityOf e'.1.2 = identityOf e.1.2 → e'.1.2 = e.1.2) :
    entryFor l e.1.1 (identityOf e.1.2) = some e.2 := by
  unfold entryFor
  cases hfind : l.find? fun e' => e'.1.1 == e.1.1 && identityOf e'.1.2 == identityOf e.1.2 with
  | none =>
    have hno := List.find?_eq_none.mp hfind e he
    simp at hno
  | some e' =>
    have hmatch := List.find?_some hfind
    have hmem := List.mem_of_find?_eq_some hfind
    rw [Bool.and_eq_true, beq_iff_eq, beq_iff_eq] at hmatch
    have hkey : e'.1 = e.1 := Prod.ext hmatch.1 (h e' hmem hmatch.1 hmatch.2)
    rw [List.inj_on_of_nodup_map hnd hmem he hkey]
    rfl

theorem mem_of_entryFor {l : Pendings} {roomId id : String} {p : PendingGroupKeyAck}
    (h : entryFor l roomId id = some p) :
    ∃ e ∈ l, e.1.1 = roomId ∧ identityOf e.1.2 = id ∧ e.2 = p := by
  obtain ⟨e, hfind, hp⟩ := Option.map_eq_some_iff.mp h
  have hmatch := List.find?_some hfind
  rw [Bool.and_eq_true, beq_iff_eq, beq_iff_eq] at hmatch
  exact ⟨e, List.mem_of_find?_eq_some hfind, hmatch.1, hmatch.2, hp⟩

theorem entryFor_append (l l' : Pendings) (roomId id : String) :
    entryFor (l ++ l') roomId id = (entryFor l roomId id).or (entryFor l' roomId id) := by
  unfold entryFor
  rw [List.find?_append, Option.map_or]

/-- The entry filed under a text is that of its identity, where no other text of the room
stands for it. -/
theorem lookup_eq_entryFor {l : Pendings} {roomId m : String}
    (h : ∀ e ∈ l, e.1.1 = roomId → identityOf e.1.2 = identityOf m → e.1.2 = m) :
    l.lookup (roomId, m) = entryFor l roomId (identityOf m) := by
  induction l with
  | nil => rfl
  | cons e l ih =>
    have ih := ih fun e' he' => h e' (List.mem_cons_of_mem e he')
    obtain ⟨⟨r, a⟩, p⟩ := e
    unfold entryFor at ih ⊢
    rw [List.lookup_cons, List.find?_cons]
    by_cases hkey : (roomId, m) = (r, a)
    · cases hkey
      simp
    · have hno : (r == roomId && identityOf a == identityOf m) = false := by
        rw [Bool.eq_false_iff]
        intro hmatch
        rw [Bool.and_eq_true, beq_iff_eq, beq_iff_eq] at hmatch
        obtain rfl : a = m := h ((r, a), p) List.mem_cons_self hmatch.1 hmatch.2
        exact hkey (by rw [hmatch.1])
      rw [beq_false_of_ne hkey, hno]
      exact ih

/-! ## One function after another -/

theorem Outcome.andThen_nothing (o : Outcome) : (o.andThen fun c => (c, [])) = o := by
  rw [Outcome.andThen, List.append_nil]

theorem foldl_andThen {α : Type} {f : Outcome → α → Outcome}
    (hf : ∀ o a, f o a = o.andThen fun c => f (c, []) a) (l : List α) (o : Outcome) :
    l.foldl f o = o.andThen fun c => l.foldl f (c, []) := by
  induction l generalizing o with
  | nil => exact o.andThen_nothing.symm
  | cons a l ih =>
    rw [List.foldl_cons, ih (f o a), hf o a]
    simp only [List.foldl_cons, Outcome.andThen]
    rw [ih (f (o.1, []) a)]
    simp only [Outcome.andThen, List.append_assoc]

namespace ConnectionManager

variable {P : Platform} {env : Env} {c : ConnectionManager} {roomId : String}

/-! ## The state by identities -/

/-- The state by identities. -/
def identities (c : ConnectionManager) : IdentityKeying where
  me := identityOf c.publicId
  snapshots key := identityOf '' {m | m ∈ members c.roomGroupMembers key}
  keys := c.groupKeys
  outstanding := entryFor c.pendingGroupKeyAcks

/-- The texts that stand for someone in the room. -/
def Names (c : ConnectionManager) (roomId m : String) : Prop :=
  m ∈ unionMembersForRoom c.roomGroupMembers roomId ∨
    (roomId, m) ∈ c.pendingGroupKeyAcks.map Prod.fst

/-- Each identity of a room is written one way, and no key is outstanding twice. -/
structure OneName (c : ConnectionManager) : Prop where
  spelled : ∀ roomId, OneSpelling (c.Names roomId)
  once : (c.pendingGroupKeyAcks.map Prod.fst).Nodup

theorem inRoom_identities :
    c.identities.inRoom roomId =
      identityOf '' {m | m ∈ unionMembersForRoom c.roomGroupMembers roomId} := by
  ext id
  constructor
  · rintro ⟨key, hends, m, hm, rfl⟩
    refine ⟨m, mem_unionMembersForRoom.mpr ?_, rfl⟩
    cases hset : c.roomGroupMembers[key]? with
    | none =>
      rw [Set.mem_ofPred_eq, members, hset] at hm
      simp at hm
    | some set =>
      rw [Set.mem_ofPred_eq, members, hset] at hm
      exact ⟨key, set, hset, hends, hm⟩
  · rintro ⟨m, hm, rfl⟩
    obtain ⟨key, set, hset, hends, hmem⟩ := mem_unionMembersForRoom.mp hm
    refine ⟨key, hends, m, ?_, rfl⟩
    rw [Set.mem_ofPred_eq, members, hset]
    exact hmem

theorem names_of_union {m : String} (h : m ∈ unionMembersForRoom c.roomGroupMembers roomId) :
    c.Names roomId m :=
  .inl h

theorem names_of_entry {e : (String × String) × PendingGroupKeyAck}
    (h : e ∈ c.pendingGroupKeyAcks) (hroom : e.1.1 = roomId) : c.Names roomId e.1.2 := by
  subst hroom
  exact .inr (List.mem_map_of_mem (f := Prod.fst) h)

theorem isElectedKeyer_iff (keyer : String) {present : List String} (hin : keyer ∈ present)
    (hpresent : ∀ m ∈ present, m ∈ c.unionList roomId ∨ m = c.publicId ∨ m = keyer)
    (hall : ∀ m, m ∈ c.unionList roomId ∨ m = c.publicId → m ∈ present) :
    isElectedKeyer present keyer = true ↔
      c.identities.Elects roomId (identityOf keyer) ∧ ¬ bare c.publicId < bare keyer := by
  have hbefore : isElectedKeyer present keyer = true ↔ ∀ m ∈ present, ¬ bare m < bare keyer := by
    have hany : present.any (fun m => bare m == bare keyer) = true :=
      List.any_eq_true.mpr ⟨keyer, hin, by simp⟩
    unfold isElectedKeyer
    rw [hany, Bool.true_and, Bool.not_eq_true', List.any_eq_false]
    simp
  rw [hbefore, IdentityKeying.Elects, inRoom_identities, bare_identityOf]
  constructor
  · intro h
    refine ⟨?_, h c.publicId (hall _ (.inr rfl))⟩
    rintro _ ⟨m, hm, rfl⟩
    rw [bare_identityOf]
    exact h m (hall m (.inl (mem_unionList.mpr hm)))
  · rintro ⟨hroom, hme⟩ m hm
    obtain hm | rfl | rfl := hpresent m hm
    · have hlt := hroom (identityOf m) ⟨m, mem_unionList.mp hm, rfl⟩
      rwa [bare_identityOf] at hlt
    · exact hme
    · exact lt_irrefl _

theorem keysRoom_iff :
    c.keysRoom roomId = true ↔ c.identities.Elects roomId c.identities.me := by
  have hiff := @isElectedKeyer_iff c roomId c.publicId (c.unionList roomId ++ [c.publicId])
    (by simp) (by simp) (by simp)
  exact hiff.trans (and_iff_left (lt_irrefl _))

theorem acceptGroupKeyFrom_iff {sender : String} {epoch : Nat} :
    c.acceptGroupKeyFrom sender roomId epoch = true ↔
      c.identities.Accepts (identityOf sender) roomId epoch := by
  have helected : isElectedKeyer (if sender ∈ c.unionList roomId ++ [c.publicId] then
      c.unionList roomId ++ [c.publicId] else c.unionList roomId ++ [c.publicId] ++ [sender])
        sender = true ↔
      c.identities.Elects roomId (identityOf sender) ∧ ¬ bare c.publicId < bare sender := by
    split
    · next hin =>
      refine isElectedKeyer_iff sender hin (fun m hm => ?_) (by simp)
      rw [List.mem_append, List.mem_singleton] at hm
      exact hm.imp_right .inl
    · exact isElectedKeyer_iff sender (by simp) (by simp) (by simp +contextual [or_imp])
  unfold acceptGroupKeyFrom IdentityKeying.Accepts
  dsimp only
  rw [Bool.and_eq_true, helected, and_assoc]
  simp only [identities, bare_identityOf]

/-! ## What is awaited -/

theorem identities_dropPendingOfRoom :
    (c.dropPendingOfRoom roomId).identities = c.identities.settle roomId Set.univ := by
  refine IdentityKeying.ext rfl rfl rfl ?_
  funext r id
  simp only [IdentityKeying.settle, Set.mem_univ, and_true]
  split
  · next hr => exact entryFor_filter_of_false fun e _ hroom _ => by simp [hroom, hr]
  · next hr => exact entryFor_filter_of_true fun e _ hroom _ => by simp [hroom, hr]

theorem entryFor_dropPending {m : String}
    (h : ∀ e ∈ c.pendingGroupKeyAcks, e.1.1 = roomId → identityOf e.1.2 = identityOf m →
      e.1.2 = m) (r id : String) :
    entryFor (c.dropPending roomId m).pendingGroupKeyAcks r id =
      if r = roomId ∧ id = identityOf m then none else entryFor c.pendingGroupKeyAcks r id := by
  unfold dropPending
  split
  · next heq =>
    obtain ⟨rfl, rfl⟩ := heq
    refine entryFor_filter_of_false fun e he hroom hid => ?_
    have hm := h e he hroom hid
    simp [Prod.ext_iff, hroom, hm]
  · next hne =>
    refine entryFor_filter_of_true fun e he hroom hid => ?_
    rw [decide_eq_true_eq]
    rintro heq
    refine hne ⟨?_, ?_⟩
    · rw [← hroom, heq]
    · rw [← hid, heq]

theorem entryFor_notePending {m : String} {epoch : Nat}
    (h : ∀ e ∈ c.pendingGroupKeyAcks, e.1.1 = roomId → identityOf e.1.2 = identityOf m →
      e.1.2 = m) (r id : String) :
    entryFor (c.notePending env roomId m epoch).pendingGroupKeyAcks r id =
      if r = roomId ∧ id = identityOf m then
        some (IdentityKeying.noted env epoch (entryFor c.pendingGroupKeyAcks roomId (identityOf m)))
      else entryFor c.pendingGroupKeyAcks r id := by
  have hlast : ∀ p, entryFor [((roomId, m), p)] r id =
      if r = roomId ∧ id = identityOf m then some p else none := by
    intro p
    by_cases heq : r = roomId ∧ id = identityOf m
    · obtain ⟨rfl, rfl⟩ := heq
      simp [entryFor]
    · rw [if_neg heq]
      refine entryFor_eq_none fun e he hroom hid => heq ?_
      rw [List.mem_singleton.mp he] at hroom hid
      exact ⟨hroom.symm, hid.symm⟩
  unfold notePending
  dsimp only
  rw [entryFor_append, entryFor_dropPending h, hlast, lookup_eq_entryFor h]
  split
  · rw [Option.none_or]
    cases entryFor c.pendingGroupKeyAcks roomId (identityOf m) with
    | none => rfl
    | some p => rfl
  · rw [Option.or_none]

/-! ## Distribution -/

theorem distributeGroupKey_one (epoch : Nat) (key : EpochKey) (m : String) :
    c.distributeGroupKey env roomId epoch key [m] =
      if env.canSealTo m = true then
        (c.notePending env roomId m epoch, [.groupKey m roomId epoch key])
      else (c, []) :=
  rfl

theorem distributeGroupKey_cons (epoch : Nat) (key : EpochKey) (m : String) (ms : List String) :
    c.distributeGroupKey env roomId epoch key (m :: ms) =
      (c.distributeGroupKey env roomId epoch key [m]).andThen fun c =>
        c.distributeGroupKey env roomId epoch key ms := by
  unfold distributeGroupKey
  rw [List.foldl_cons, foldl_andThen]
  · rfl
  · intro o m
    split
    · rfl
    · exact (Outcome.andThen_nothing o).symm

theorem distributeGroupKey_state (epoch : Nat) (key : EpochKey) (ms : List String) :
    ∃ acks, (c.distributeGroupKey env roomId epoch key ms).1 =
      { c with pendingGroupKeyAcks := acks } := by
  induction ms generalizing c with
  | nil => exact ⟨c.pendingGroupKeyAcks, rfl⟩
  | cons m ms ih =>
    rw [distributeGroupKey_cons, Outcome.andThen_fst, distributeGroupKey_one]
    split
    · obtain ⟨acks, hacks⟩ := @ih (c.notePending env roomId m epoch)
      exact ⟨acks, hacks⟩
    · exact ih

theorem keys_notePending {m : String} {epoch : Nat} {k : String × String} :
    k ∈ (c.notePending env roomId m epoch).pendingGroupKeyAcks.map Prod.fst ↔
      k ∈ c.pendingGroupKeyAcks.map Prod.fst ∨ k = (roomId, m) := by
  have hkept : k ∈ (c.dropPending roomId m).pendingGroupKeyAcks.map Prod.fst ↔
      k ∈ c.pendingGroupKeyAcks.map Prod.fst ∧ k ≠ (roomId, m) := by
    simp only [dropPending, List.mem_map, List.mem_filter, decide_eq_true_eq]
    constructor
    · rintro ⟨e, ⟨he, hne⟩, rfl⟩
      exact ⟨⟨e, he, rfl⟩, hne⟩
    · rintro ⟨⟨e, he, rfl⟩, hne⟩
      exact ⟨e, ⟨he, hne⟩, rfl⟩
  unfold notePending
  simp only [List.map_append, List.mem_append, hkept, List.map_cons, List.map_nil,
    List.mem_singleton]
  constructor
  · rintro (⟨hold, -⟩ | hnew)
    · exact .inl hold
    · exact .inr hnew
  · rintro (hold | hnew)
    · by_cases hk : k = (roomId, m)
      · exact .inr hk
      · exact .inl ⟨hold, hk⟩
    · exact .inr hnew

theorem nodup_keys_filter {l : Pendings} (h : (l.map Prod.fst).Nodup)
    (f : (String × String) × PendingGroupKeyAck → Bool) : ((l.filter f).map Prod.fst).Nodup :=
  h.sublist (List.filter_sublist.map Prod.fst)

theorem nodup_keys_notePending {m : String} {epoch : Nat}
    (h : (c.pendingGroupKeyAcks.map Prod.fst).Nodup) :
    ((c.notePending env roomId m epoch).pendingGroupKeyAcks.map Prod.fst).Nodup := by
  unfold notePending
  dsimp only
  rw [List.map_append, List.nodup_append]
  refine ⟨nodup_keys_filter h _, by simp, ?_⟩
  rintro k hk _ hlast rfl
  obtain ⟨e, he, rfl⟩ := List.mem_map.mp hk
  have hne := (List.mem_filter.mp he).2
  rw [decide_eq_true_eq] at hne
  exact hne (List.mem_singleton.mp hlast)

theorem keys_distributeGroupKey (epoch : Nat) (key : EpochKey) (ms : List String)
    (h : (c.pendingGroupKeyAcks.map Prod.fst).Nodup) :
    ((c.distributeGroupKey env roomId epoch key ms).1.pendingGroupKeyAcks.map Prod.fst).Nodup ∧
    ∀ k ∈ (c.distributeGroupKey env roomId epoch key ms).1.pendingGroupKeyAcks.map Prod.fst,
      k ∈ c.pendingGroupKeyAcks.map Prod.fst ∨ ∃ m ∈ ms, k = (roomId, m) := by
  induction ms generalizing c with
  | nil => exact ⟨h, fun k hk => .inl hk⟩
  | cons m ms ih =>
    rw [distributeGroupKey_cons, Outcome.andThen_fst, distributeGroupKey_one]
    split
    · obtain ⟨hnodup, hkeys⟩ := ih (nodup_keys_notePending h)
      refine ⟨hnodup, fun k hk => ?_⟩
      obtain hold | ⟨m', hm', rfl⟩ := hkeys k hk
      · obtain hold | rfl := keys_notePending.mp hold
        · exact .inl hold
        · exact .inr ⟨m, List.mem_cons_self, rfl⟩
      · exact .inr ⟨m', List.mem_cons_of_mem m hm', rfl⟩
    · obtain ⟨hnodup, hkeys⟩ := ih h
      refine ⟨hnodup, fun k hk => (hkeys k hk).imp_right ?_⟩
      rintro ⟨m', hm', rfl⟩
      exact ⟨m', List.mem_cons_of_mem m hm', rfl⟩

theorem identities_one (hseal : env.SealsAlike) (epoch : Nat) (key : EpochKey) {m : String}
    (h : ∀ e ∈ c.pendingGroupKeyAcks, e.1.1 = roomId → identityOf e.1.2 = identityOf m →
      e.1.2 = m) :
    ((c.distributeGroupKey env roomId epoch key [m]).1.identities,
      sentTo (c.distributeGroupKey env roomId epoch key [m]).2) =
    c.identities.distribute env roomId epoch key {identityOf m} := by
  have hcan := hseal.identityOf m
  rw [distributeGroupKey_one]
  split
  · next hyes =>
    rw [IdentityKeying.distribute_singleton (hcan.trans hyes)]
    refine Prod.ext (IdentityKeying.ext rfl rfl rfl ?_) ?_
    · funext r id
      exact entryFor_notePending h r id
    · exact sentTo_singleton _
  · next hno =>
    rw [IdentityKeying.distribute_unsealable (hcan.trans (Bool.eq_false_iff.mpr hno))]
    exact Prod.ext rfl sentTo_nil

/-- A distribution to members written one way is one to their identities. -/
theorem identities_distributeGroupKey (hseal : env.SealsAlike) (epoch : Nat) (key : EpochKey)
    {ms : List String} (hms : ms.Nodup)
    (hone : OneSpelling fun a => a ∈ ms ∨ (roomId, a) ∈ c.pendingGroupKeyAcks.map Prod.fst) :
    ((c.distributeGroupKey env roomId epoch key ms).1.identities,
      sentTo (c.distributeGroupKey env roomId epoch key ms).2) =
    c.identities.distribute env roomId epoch key (identityOf '' {m | m ∈ ms}) := by
  induction ms generalizing c with
  | nil =>
    rw [show {m | m ∈ ([] : List String)} = ∅ by ext; simp, Set.image_empty,
      IdentityKeying.distribute_empty]
    simp [distributeGroupKey]
  | cons m ms ih =>
    obtain ⟨hm, hms⟩ := List.nodup_cons.mp hms
    have hfirst : ∀ e ∈ c.pendingGroupKeyAcks, e.1.1 = roomId →
        identityOf e.1.2 = identityOf m → e.1.2 = m := by
      intro e he hroom hid
      refine hone.eq (.inr ?_) (.inl List.mem_cons_self) hid
      subst hroom
      exact List.mem_map_of_mem (f := Prod.fst) he
    have hnotin : identityOf m ∉ identityOf '' {m | m ∈ ms} := by
      rintro ⟨m', hm', hid⟩
      rw [hone.eq (.inl (List.mem_cons_of_mem m hm')) (.inl List.mem_cons_self) hid] at hm'
      exact hm hm'
    have hset : identityOf '' {m' | m' ∈ m :: ms} =
        insert (identityOf m) (identityOf '' {m | m ∈ ms}) := by
      rw [← Set.image_insert_eq]
      congr 1
      ext a
      simp
    have hone' := identities_one hseal epoch key hfirst
    rw [distributeGroupKey_cons, hset, IdentityKeying.distribute_insert hnotin, ← hone',
      Outcome.andThen_fst, Outcome.andThen_snd, sentTo_append]
    have hrest := @ih (c.distributeGroupKey env roomId epoch key [m]).1 hms (hone.mono ?_)
    · rw [← hrest]
    · rintro a (ha | ha)
      · exact .inl (List.mem_cons_of_mem m ha)
      · rw [distributeGroupKey_one] at ha
        split at ha
        · obtain hold | hnew := keys_notePending.mp ha
          · exact .inr hold
          · cases hnew
            exact .inl List.mem_cons_self
        · exact .inr ha

/-! ## The retry timer -/

theorem contains_unionList_iff (hone : OneSpelling (c.Names roomId)) {m : String}
    (hm : c.Names roomId m) :
    (c.unionList roomId).contains m = true ↔ identityOf m ∈ c.identities.inRoom roomId := by
  rw [List.contains_iff_mem, mem_unionList, inRoom_identities]
  exact (hone.mem_image (T := {m | m ∈ unionMembersForRoom c.roomGroupMembers roomId}) hm
    fun b hb => names_of_union hb).symm

theorem OneName.entries (h : c.OneName) {m : String} (hm : c.Names roomId m) :
    ∀ e ∈ c.pendingGroupKeyAcks, e.1.1 = roomId → identityOf e.1.2 = identityOf m → e.1.2 = m :=
  fun _ he hroom hid => (h.spelled roomId).eq (names_of_entry he hroom) hm hid

theorem identities_dropPending (h : c.OneName) {m : String} (hm : c.Names roomId m) :
    (c.dropPending roomId m).identities = c.identities.withEntry roomId (identityOf m) none := by
  refine IdentityKeying.ext rfl rfl rfl ?_
  funext r id
  exact entryFor_dropPending (h.entries hm) r id

theorem retryOne_eq (r m : String) (p : PendingGroupKeyAck) :
    retryOne P env (c, []) ((r, m), p) =
      if ¬ (c.unionList r).contains m = true ∨ ¬ c.keysRoom r = true ∨
          p.attempts ≥ groupKeyMaxAttempts then (c.dropPending r m, [])
      else if env.nowMs - p.lastSent ≥ groupKeyRetryIntervalMs then
        match c.groupKeys.epochKey r P p.epoch with
        | none => (c.dropPending r m, [])
        | some key => c.distributeGroupKey env r p.epoch key [m]
      else (c, []) := by
  simp only [retryOne]
  cases (c.unionList r).contains m with
  | false => simp
  | true =>
    cases c.keysRoom r with
    | false => simp
    | true =>
      by_cases hmany : p.attempts ≥ groupKeyMaxAttempts
      · simp [hmany]
      · simp only [Bool.not_true, Bool.false_eq_true, if_false, hmany, not_true, or_self]
        cases c.groupKeys.epochKey r P p.epoch with
        | none => rfl
        | some key =>
          split
          · exact Prod.ext rfl (List.nil_append _)
          · rfl

theorem retryOne_andThen (o : Outcome) (e : (String × String) × PendingGroupKeyAck) :
    retryOne P env o e = o.andThen fun c => retryOne P env (c, []) e := by
  obtain ⟨⟨r, m⟩, p⟩ := e
  simp only [retryOne, Outcome.andThen]
  cases (o.1.unionList r).contains m with
  | false => simp
  | true =>
    cases o.1.keysRoom r with
    | false => simp
    | true =>
      by_cases hmany : p.attempts ≥ groupKeyMaxAttempts
      · simp [hmany]
      · by_cases hdue : env.nowMs - p.lastSent ≥ groupKeyRetryIntervalMs
        · cases o.1.groupKeys.epochKey r P p.epoch with
          | none => simp [hmany, hdue]
          | some key => simp [hmany, hdue]
        · simp [hmany, hdue]

theorem identities_retryOne (hseal : env.SealsAlike) (h : c.OneName)
    {e : (String × String) × PendingGroupKeyAck} (he : e ∈ c.pendingGroupKeyAcks) :
    ((retryOne P env (c, []) e).1.identities, sentTo (retryOne P env (c, []) e).2) =
      c.identities.retryOne P env e.1.1 (identityOf e.1.2) e.2 := by
  obtain ⟨⟨r, m⟩, p⟩ := e
  have hm : c.Names r m := names_of_entry he rfl
  have hentry : c.identities.outstanding r (identityOf m) = some p :=
    entryFor_of_mem h.once he (h.entries hm)
  have hdrop : ((c.dropPending r m).identities, sentTo []) =
      (c.identities.withEntry r (identityOf m) none, {x | (none : Option Outgoing) = some x}) := by
    rw [identities_dropPending h hm]
    simp
  have hkeep : (c.identities, sentTo []) =
      (c.identities.withEntry r (identityOf m) (some p), {x | (none : Option Outgoing) = some x}) := by
    rw [← hentry, IdentityKeying.withEntry_self]
    simp
  have hin := not_congr (contains_unionList_iff (h.spelled r) hm)
  have hkeys := not_congr (@keysRoom_iff c r)
  unfold IdentityKeying.retryOne IdentityKeying.retryEntry
  rw [retryOne_eq]
  by_cases hgone : ¬ (c.unionList r).contains m = true ∨ ¬ c.keysRoom r = true ∨
      p.attempts ≥ groupKeyMaxAttempts
  · rw [if_pos hgone, if_pos (hgone.imp hin.mp (Or.imp_left hkeys.mp))]
    exact hdrop
  · rw [if_neg hgone, if_neg (mt (Or.imp hin.mpr (Or.imp_left hkeys.mpr)) hgone)]
    by_cases hdue : env.nowMs - p.lastSent ≥ groupKeyRetryIntervalMs
    · rw [if_pos hdue, if_pos hdue]
      have hepoch : c.identities.keys.epochKey r P p.epoch = c.groupKeys.epochKey r P p.epoch := rfl
      rw [hepoch]
      cases c.groupKeys.epochKey r P p.epoch with
      | none => exact hdrop
      | some key =>
        refine (identities_one hseal p.epoch key (h.entries hm)).trans ?_
        dsimp only
        cases hcan : env.canSealTo (identityOf m) with
        | true =>
          rw [IdentityKeying.distribute_singleton hcan, hentry, if_pos rfl]
          refine Prod.ext rfl (Set.ext fun x => ?_)
          exact ⟨fun hx => congrArg some hx.symm, fun hx => (Option.some.inj hx).symm⟩
        | false =>
          rw [IdentityKeying.distribute_unsealable hcan, ← sentTo_nil]
          exact hkeep
    · rw [if_neg hdue, if_neg hdue]
      exact hkeep

theorem retryOne_state (e : (String × String) × PendingGroupKeyAck) :
    ∃ acks, (retryOne P env (c, []) e).1 = { c with pendingGroupKeyAcks := acks } := by
  obtain ⟨⟨r, m⟩, p⟩ := e
  rw [retryOne_eq]
  split
  · exact ⟨_, rfl⟩
  · split
    · split
      · exact ⟨_, rfl⟩
      · exact distributeGroupKey_state _ _ _
    · exact ⟨c.pendingGroupKeyAcks, rfl⟩

theorem keys_retryOne {e : (String × String) × PendingGroupKeyAck}
    (he : e ∈ c.pendingGroupKeyAcks) (h : (c.pendingGroupKeyAcks.map Prod.fst).Nodup) :
    ((retryOne P env (c, []) e).1.pendingGroupKeyAcks.map Prod.fst).Nodup ∧
    (∀ k ∈ (retryOne P env (c, []) e).1.pendingGroupKeyAcks.map Prod.fst,
      k ∈ c.pendingGroupKeyAcks.map Prod.fst) ∧
    ∀ e' ∈ c.pendingGroupKeyAcks, e'.1 ≠ e.1 →
      e' ∈ (retryOne P env (c, []) e).1.pendingGroupKeyAcks := by
  obtain ⟨⟨r, m⟩, p⟩ := e
  have hdrop : ∀ e' ∈ c.pendingGroupKeyAcks, e'.1 ≠ (r, m) →
      e' ∈ (c.dropPending r m).pendingGroupKeyAcks :=
    fun e' he' hne => List.mem_filter.mpr ⟨he', decide_eq_true hne⟩
  have hfewer : ∀ k ∈ (c.dropPending r m).pendingGroupKeyAcks.map Prod.fst,
      k ∈ c.pendingGroupKeyAcks.map Prod.fst := by
    intro k hk
    exact (List.filter_sublist.map Prod.fst).subset hk
  rw [retryOne_eq]
  split
  · exact ⟨nodup_keys_filter h _, hfewer, hdrop⟩
  · split
    · split
      · exact ⟨nodup_keys_filter h _, hfewer, hdrop⟩
      · next key _ =>
        obtain ⟨hnd, hkeys⟩ := @keys_distributeGroupKey env c r p.epoch key [m] h
        refine ⟨hnd, fun k hk => ?_, fun e' he' hne => ?_⟩
        · obtain hold | ⟨m', hm', rfl⟩ := hkeys k hk
          · exact hold
          · rw [List.mem_singleton.mp hm']
            exact List.mem_map_of_mem (f := Prod.fst) he
        · rw [distributeGroupKey_one]
          split
          · exact List.mem_append_left _ (hdrop e' he' hne)
          · exact he'
    · exact ⟨h, fun _ hk => hk, fun _ he' _ => he'⟩

/-- What keeps the snapshots and awaits nobody else keeps each identity written one way. -/
theorem OneName.of_fewer {c' : ConnectionManager} (h : c.OneName)
    (hmembers : c'.roomGroupMembers = c.roomGroupMembers)
    (hkeys : ∀ k ∈ c'.pendingGroupKeyAcks.map Prod.fst, k ∈ c.pendingGroupKeyAcks.map Prod.fst)
    (hnd : (c'.pendingGroupKeyAcks.map Prod.fst).Nodup) : c'.OneName := by
  refine ⟨fun r => (h.spelled r).mono fun a ha => ?_, hnd⟩
  unfold Names at ha ⊢
  rw [hmembers] at ha
  exact ha.imp_right (hkeys _)

theorem oneName_keys (h : c.OneName) (keys : SenderKeysGroup) :
    ({ c with groupKeys := keys } : ConnectionManager).OneName :=
  h.of_fewer rfl (fun _ hk => hk) h.once

theorem oneName_filter (h : c.OneName) (f : (String × String) × PendingGroupKeyAck → Bool) :
    ({ c with pendingGroupKeyAcks := c.pendingGroupKeyAcks.filter f } :
      ConnectionManager).OneName :=
  h.of_fewer rfl (fun _ hk => (List.filter_sublist.map Prod.fst).subset hk)
    (nodup_keys_filter h.once _)

theorem oneName_dropPending (h : c.OneName) (r m : String) : (c.dropPending r m).OneName :=
  oneName_filter h _

theorem oneName_dropPendingOfRoom (h : c.OneName) (r : String) :
    (c.dropPendingOfRoom r).OneName :=
  oneName_filter h _

theorem oneName_retryOne (h : c.OneName) {e : (String × String) × PendingGroupKeyAck}
    (he : e ∈ c.pendingGroupKeyAcks) : (retryOne P env (c, []) e).1.OneName := by
  obtain ⟨hnd, hkeys, -⟩ := @keys_retryOne P env c e he h.once
  obtain ⟨acks, hacks⟩ := @retryOne_state P env c e
  refine h.of_fewer ?_ hkeys hnd
  rw [hacks]

/-- The timer does to the entries, one after another, what it does to their identities at
once: it looks at nothing that it changes for another entry. -/
theorem identities_retryAll (hseal : env.SealsAlike) (h : c.OneName) {es : Pendings}
    (hes : ∀ e ∈ es, e ∈ c.pendingGroupKeyAcks) (hnd : (es.map Prod.fst).Nodup) :
    let o := es.foldl (retryOne P env) (c, [])
    o.1.OneName ∧
    o.1.identities = { c.identities with
      outstanding := fun r id =>
        if ∃ e ∈ es, e.1.1 = r ∧ identityOf e.1.2 = id then
          (c.identities.outstanding r id).bind fun p =>
            (c.identities.retryEntry P env r id p).1
        else c.identities.outstanding r id } ∧
    sentTo o.2 = {x | ∃ e ∈ es,
      (c.identities.retryEntry P env e.1.1 (identityOf e.1.2) e.2).2 = some x} := by
  induction es generalizing c with
  | nil =>
    refine ⟨h, ?_, ?_⟩
    · simp
    · simp
  | cons e es ih =>
    obtain ⟨hnotin, hnd⟩ := List.nodup_cons.mp hnd
    have he := hes e List.mem_cons_self
    have hfresh : ∀ e' ∈ es, e'.1 ≠ e.1 := by
      intro e' he' heq
      exact hnotin (heq ▸ List.mem_map_of_mem (f := Prod.fst) he')
    have hstill : ∀ e' ∈ es, e' ∈ (retryOne P env (c, []) e).1.pendingGroupKeyAcks :=
      fun e' he' => (keys_retryOne he h.once).2.2 e' (hes e' (List.mem_cons_of_mem e he'))
        (hfresh e' he')
    obtain ⟨hone, hids, hsent⟩ := ih (oneName_retryOne h he) hstill hnd
    have hfirst := @identities_retryOne P env c hseal h e he
    have hfirstIds : (retryOne P env (c, []) e).1.identities =
        (c.identities.retryOne P env e.1.1 (identityOf e.1.2) e.2).1 := congrArg Prod.fst hfirst
    have hfirstSent : sentTo (retryOne P env (c, []) e).2 =
        (c.identities.retryOne P env e.1.1 (identityOf e.1.2) e.2).2 := congrArg Prod.snd hfirst
    have hsame : (retryOne P env (c, []) e).1.identities.retryEntry P env =
        c.identities.retryEntry P env := by
      obtain ⟨acks, hacks⟩ := @retryOne_state P env c e
      rw [hacks]
      rfl
    have hentry : c.identities.outstanding e.1.1 (identityOf e.1.2) = some e.2 :=
      entryFor_of_mem h.once he (h.entries (names_of_entry he rfl))
    have hothers : ¬ ∃ e' ∈ es, e'.1.1 = e.1.1 ∧ identityOf e'.1.2 = identityOf e.1.2 := by
      rintro ⟨e', he', hroom, hid⟩
      have hname := h.entries (names_of_entry he rfl) e' (hes e' (List.mem_cons_of_mem e he'))
        hroom hid
      exact hfresh e' he' (Prod.ext hroom hname)
    rw [List.foldl_cons, foldl_andThen retryOne_andThen]
    refine ⟨hone, ?_, ?_⟩
    · rw [Outcome.andThen_fst, hids, hsame, hfirstIds]
      refine IdentityKeying.ext rfl rfl rfl ?_
      funext r id
      simp only [IdentityKeying.retryOne, IdentityKeying.withEntry, List.mem_cons, exists_eq_or_imp]
      by_cases hown : r = e.1.1 ∧ id = identityOf e.1.2
      · obtain ⟨rfl, rfl⟩ := hown
        simp [hothers, hentry]
      · have hnot : ¬ (e.1.1 = r ∧ identityOf e.1.2 = id) :=
          fun heq => hown ⟨heq.1.symm, heq.2.symm⟩
        simp only [if_neg hown, hnot, false_or]
    · rw [Outcome.andThen_snd, sentTo_append, hfirstSent, hsent, hsame]
      ext x
      simp [IdentityKeying.retryOne]

theorem identities_retryPendingGroupKeys (hseal : env.SealsAlike) (h : c.OneName) :
    (c.retryPendingGroupKeys P env).1.OneName ∧
    ((c.retryPendingGroupKeys P env).1.identities, sentTo (c.retryPendingGroupKeys P env).2) =
      c.identities.retry P env := by
  obtain ⟨hone, hids, hsent⟩ := identities_retryAll (P := P) hseal h (fun _ he => he) h.once
  refine ⟨hone, Prod.ext (hids.trans (IdentityKeying.ext rfl rfl rfl ?_)) (hsent.trans ?_)⟩
  · funext r id
    dsimp only
    split
    · rfl
    · next hno =>
      have hnone : c.identities.outstanding r id = none :=
        entryFor_eq_none fun e he hroom hid => hno ⟨e, he, hroom, hid⟩
      simp only [IdentityKeying.retry, hnone, Option.bind_none]
  · ext x
    constructor
    · rintro ⟨e, he, hx⟩
      exact ⟨_, _, e.2, entryFor_of_mem h.once he (h.entries (names_of_entry he rfl)), hx⟩
    · rintro ⟨r, id, p, hp, hx⟩
      obtain ⟨e, he, rfl, rfl, rfl⟩ := mem_of_entryFor hp
      exact ⟨e, he, hx⟩

/-! ## Offers and confirmations -/

section Messages

variable {msg : SignalingMessage}

/-- An offer is taken or refused for whom it comes from, however it is written. -/
theorem identities_handleSfuGroupKey (hseal : env.SealsAlike) :
    ((c.handleSfuGroupKey P env msg).1.identities, sentTo (c.handleSfuGroupKey P env msg).2) =
      c.identities.groupKey P env (identityOf msg.sender.text) msg.payload := by
  have hnothing : (c.identities, sentTo []) = (c.identities, ∅) := by rw [sentTo_nil]
  unfold handleSfuGroupKey IdentityKeying.groupKey
  dsimp only
  cases (msg.payload.get? "epoch").bind Json.asU64? with
  | none => exact hnothing
  | some epoch =>
    cases msg.payload.str? "key" with
    | none => exact hnothing
    | some keyB64 =>
      dsimp only
      have haccept := not_congr (@acceptGroupKeyFrom_iff c ((msg.payload.str? "room_id").getD "")
        msg.sender.text (epoch % 256))
      by_cases hroom : (msg.payload.str? "room_id").getD "" = ""
      · rw [if_pos hroom, if_pos (.inl hroom)]
        exact hnothing
      · rw [if_neg hroom]
        by_cases hyes : c.acceptGroupKeyFrom msg.sender.text
            ((msg.payload.str? "room_id").getD "") (epoch % 256) = true
        · rw [if_neg (by simp [hyes]), if_neg (not_or.mpr ⟨hroom, fun hno => haccept.mpr hno hyes⟩)]
          cases b64urlDecode P keyB64 with
          | none => exact hnothing
          | some key =>
            by_cases hlen : key.length = 32
            · simp only [hlen, if_true, Option.filter_some, decide_true]
              refine Prod.ext rfl ?_
              unfold sendGroupKeyAck
              rw [hseal.identityOf]
              cases env.canSealTo msg.sender.text with
              | true =>
                refine (sentTo_singleton _).trans (Set.ext fun x => ?_)
                exact ⟨fun hx => ⟨rfl, hx⟩, And.right⟩
              | false =>
                refine sentTo_nil.trans (Set.ext fun x => ?_)
                exact ⟨fun hx => absurd hx (Set.notMem_empty x), fun hx => absurd hx.1 (by decide)⟩
            · simp only [hlen, if_false, Option.filter_some, decide_false, Bool.false_eq_true]
              exact hnothing
        · rw [if_pos (by simp [hyes]), if_pos (.inr (haccept.mp hyes))]
          exact hnothing

theorem oneName_handleSfuGroupKey (h : c.OneName) : (c.handleSfuGroupKey P env msg).1.OneName := by
  have hkeys : ∃ keys, (c.handleSfuGroupKey P env msg).1 = { c with groupKeys := keys } := by
    simp only [handleSfuGroupKey]
    split
    · split
      · exact ⟨c.groupKeys, rfl⟩
      · split
        · exact ⟨c.groupKeys, rfl⟩
        · split
          · split
            · exact ⟨_, rfl⟩
            · exact ⟨c.groupKeys, rfl⟩
          · exact ⟨c.groupKeys, rfl⟩
    · exact ⟨c.groupKeys, rfl⟩
  obtain ⟨keys, hkeys⟩ := hkeys
  rw [hkeys]
  exact oneName_keys h keys

/-- The room and the epoch a confirmation is about, if it is about any. -/
def confirmed (msg : SignalingMessage) : Option (String × Nat) :=
  (((msg.payload.get? "epoch").bind Json.asU64?).map fun epoch =>
    ((msg.payload.str? "room_id").getD "", epoch % 256)).filter (·.1 ≠ "")

/-- A confirmation that is awaited comes under the text it is awaited under. -/
def ConfirmsAsFiled (c : ConnectionManager) (msg : SignalingMessage) : Prop :=
  ∀ about ∈ confirmed msg, ∀ e ∈ c.pendingGroupKeyAcks, e.1.1 = about.1 → e.2.epoch = about.2 →
    bare e.1.2 = bare msg.sender.text → e.1.2 = msg.sender.text

theorem identities_handleSfuGroupKeyAck (h : c.OneName) (hfiled : c.ConfirmsAsFiled msg) :
    (c.handleSfuGroupKeyAck msg).identities =
      c.identities.groupKeyAck (identityOf msg.sender.text) msg.payload := by
  unfold ConfirmsAsFiled confirmed at hfiled
  unfold handleSfuGroupKeyAck IdentityKeying.groupKeyAck
  dsimp only
  cases hepoch : (msg.payload.get? "epoch").bind Json.asU64? with
  | none => rfl
  | some epoch =>
    rw [hepoch] at hfiled
    dsimp only
    generalize (msg.payload.str? "room_id").getD "" = room at hfiled ⊢
    by_cases hroom : room = ""
    · rw [if_pos hroom, if_neg fun hno => hno.1 hroom]
    · rw [if_neg hroom]
      have hfiled := hfiled (room, epoch % 256) (by simp [hroom])
      by_cases hawaited : ∃ e ∈ c.pendingGroupKeyAcks, e.1 = (room, msg.sender.text)
      · obtain ⟨e, he, hkey⟩ := hawaited
        have hname : c.Names room msg.sender.text :=
          .inr (hkey ▸ List.mem_map_of_mem (f := Prod.fst) he)
        rw [lookup_eq_entryFor (h.entries hname)]
        by_cases hany : (entryFor c.pendingGroupKeyAcks room (identityOf msg.sender.text)).any
            (·.epoch == epoch % 256) = true
        · rw [if_pos hany, if_pos ⟨hroom, hany⟩, IdentityKeying.settle_singleton]
          exact identities_dropPending h hname
        · rw [if_neg hany, if_neg fun hall => hany hall.2]
      · -- nothing is filed under the text, and what is awaited of the identity is another epoch
        have hnone : c.pendingGroupKeyAcks.lookup (room, msg.sender.text) = none := by
          rw [Option.eq_none_iff_forall_ne_some]
          intro p hp
          obtain ⟨front, back, hsplit, -⟩ := List.lookup_eq_some_iff.mp hp
          exact hawaited ⟨_, hsplit ▸ List.mem_append_right _ List.mem_cons_self, rfl⟩
        rw [hnone, if_neg (by simp), if_neg]
        rintro ⟨-, hany⟩
        cases hp : c.identities.outstanding room (identityOf msg.sender.text) with
        | none =>
          rw [hp] at hany
          cases hany
        | some p =>
          rw [hp, Option.any_some, beq_iff_eq] at hany
          obtain ⟨e, he, hroomOf, hid, rfl⟩ := mem_of_entryFor hp
          refine hawaited ⟨e, he, Prod.ext hroomOf ?_⟩
          exact hfiled e he hroomOf hany (bare_eq_of_identityOf hid)

theorem oneName_handleSfuGroupKeyAck (h : c.OneName) : (c.handleSfuGroupKeyAck msg).OneName := by
  simp only [handleSfuGroupKeyAck]
  split
  · exact h
  · split
    · exact h
    · split
      · exact oneName_dropPending h _ _
      · exact h

end Messages

/-! ## Lagging members -/

theorem oneName_distributeGroupKey (h : c.OneName) {epoch : Nat} {key : EpochKey}
    {ms : List String} (hms : ∀ m ∈ ms, c.Names roomId m) :
    (c.distributeGroupKey env roomId epoch key ms).1.OneName := by
  obtain ⟨hnd, hkeys⟩ := @keys_distributeGroupKey env c roomId epoch key ms h.once
  obtain ⟨acks, hacks⟩ := @distributeGroupKey_state env c roomId epoch key ms
  have hmembers : (c.distributeGroupKey env roomId epoch key ms).1.roomGroupMembers =
      c.roomGroupMembers := by rw [hacks]
  refine ⟨fun r => (h.spelled r).mono fun a ha => ?_, hnd⟩
  obtain ha | ha := ha
  · rw [hmembers] at ha
    exact .inl ha
  · obtain hold | ⟨m, hm, heq⟩ := hkeys _ ha
    · exact .inr hold
    · obtain ⟨rfl, rfl⟩ := Prod.mk.inj heq
      exact hms a hm

theorem lagging_identities (h : c.OneName) {sender : String} {epoch : Nat} {member : String}
    (hfind : (c.unionList roomId).find? (fun m => bare m == bare sender) = some member) :
    {id ∈ c.identities.inRoom roomId | bare id = bare sender ∧
      (c.identities.outstanding roomId id).any (·.epoch == epoch) = false} =
    if (c.pendingGroupKeyAcks.lookup (roomId, member)).any (·.epoch == epoch) = true then ∅
    else {identityOf member} := by
  have hmem : member ∈ unionMembersForRoom c.roomGroupMembers roomId :=
    mem_unionList.mp (List.mem_of_find?_eq_some hfind)
  have hmatch := List.find?_some hfind
  have hbare : bare member = bare sender := beq_iff_eq.mp hmatch
  have hlookup : c.pendingGroupKeyAcks.lookup (roomId, member) =
      c.identities.outstanding roomId (identityOf member) :=
    lookup_eq_entryFor (h.entries (names_of_union hmem))
  have honly : ∀ id, id ∈ c.identities.inRoom roomId ∧ bare id = bare sender ↔
      id = identityOf member := by
    intro id
    rw [inRoom_identities]
    constructor
    · rintro ⟨⟨m, hm, rfl⟩, hid⟩
      rw [bare_identityOf] at hid
      rw [h.spelled roomId m member (names_of_union hm) (names_of_union hmem)
        (hid.trans hbare.symm)]
    · rintro rfl
      exact ⟨⟨member, hmem, rfl⟩, by rw [bare_identityOf, hbare]⟩
  rw [hlookup]
  ext id
  rw [Set.mem_ofPred_eq, ← and_assoc, honly]
  split
  · next hyes =>
    refine iff_of_false ?_ (Set.notMem_empty id)
    rintro ⟨rfl, hno⟩
    rw [hyes] at hno
    cases hno
  · next hno =>
    rw [Set.mem_singleton_iff]
    refine and_iff_left_of_imp ?_
    rintro rfl
    exact Bool.eq_false_iff.mpr hno

/-- The current key goes to the member that goes by the sender's id, if it is not on its way. -/
def resealKey (env : Env) (c : ConnectionManager) (roomId sender : String) (epoch : Nat)
    (key : EpochKey) : Outcome :=
  match (c.unionList roomId).find? fun m => bare m == bare sender with
  | none => (c, [])
  | some member =>
    if (c.pendingGroupKeyAcks.lookup (roomId, member)).any (·.epoch == epoch) then (c, [])
    else (c.dropPending roomId member).distributeGroupKey env roomId epoch key [member]

theorem resealToLaggingMember_eq (sender : String) (senderEpoch : Nat) :
    c.resealToLaggingMember P env roomId sender senderEpoch =
      match c.groupKeys.currentEpochAge roomId env.nowMs with
      | none => (c, [])
      | some age =>
        let epoch := c.groupKeys.currentEpoch roomId
        if shouldResealToLaggingMember senderEpoch epoch age = true ∧ c.keysRoom roomId = true then
          match c.groupKeys.epochKey roomId P epoch with
          | none => (c, [])
          | some key => c.resealKey env roomId sender epoch key
        else (c, []) := by
  unfold resealToLaggingMember resealKey
  cases c.groupKeys.currentEpochAge roomId env.nowMs with
  | none => rfl
  | some age =>
    dsimp only
    cases shouldResealToLaggingMember senderEpoch (c.groupKeys.currentEpoch roomId) age with
    | false => simp
    | true =>
      cases (c.unionList roomId).find? fun m => bare m == bare sender with
      | none =>
        cases c.groupKeys.epochKey roomId P (c.groupKeys.currentEpoch roomId) with
        | none => simp
        | some key => simp
      | some member =>
        cases c.keysRoom roomId with
        | false => simp
        | true =>
          cases c.groupKeys.epochKey roomId P (c.groupKeys.currentEpoch roomId) with
          | none => simp
          | some key => simp

theorem identities_resealKey (hseal : env.SealsAlike) (h : c.OneName) (sender : String)
    (epoch : Nat) (key : EpochKey) :
    let ids := {id ∈ c.identities.inRoom roomId | bare id = bare sender ∧
      (c.identities.outstanding roomId id).any (·.epoch == epoch) = false}
    let o := c.resealKey env roomId sender epoch key
    o.1.OneName ∧ (o.1.identities, sentTo o.2) =
      (c.identities.settle roomId ids).distribute env roomId epoch key ids := by
  have hempty : (c.identities, sentTo []) =
      (c.identities.settle roomId ∅).distribute env roomId epoch key ∅ := by
    rw [IdentityKeying.settle_empty, IdentityKeying.distribute_empty, sentTo_nil]
  unfold resealKey
  cases hfind : (c.unionList roomId).find? fun m => bare m == bare sender with
  | none =>
    have hnone : {id ∈ c.identities.inRoom roomId | bare id = bare sender ∧
        (c.identities.outstanding roomId id).any (·.epoch == epoch) = false} = ∅ := by
      refine Set.eq_empty_iff_forall_notMem.mpr ?_
      rintro _ ⟨hin, hbare, -⟩
      rw [inRoom_identities] at hin
      obtain ⟨m, hm, rfl⟩ := hin
      rw [bare_identityOf] at hbare
      exact List.find?_eq_none.mp hfind m (mem_unionList.mpr hm) (beq_iff_eq.mpr hbare)
    dsimp only
    rw [hnone]
    exact ⟨h, hempty⟩
  | some member =>
    have hmem : member ∈ unionMembersForRoom c.roomGroupMembers roomId :=
      mem_unionList.mp (List.mem_of_find?_eq_some hfind)
    dsimp only
    rw [lagging_identities h hfind]
    split
    · exact ⟨h, hempty⟩
    · have hone := oneName_dropPending h roomId member
      have hsent := identities_one hseal epoch key (hone.entries (.inl hmem))
      rw [identities_dropPending h (names_of_union hmem), ← IdentityKeying.settle_singleton]
        at hsent
      refine ⟨oneName_distributeGroupKey hone fun m hm => ?_, hsent⟩
      rw [List.mem_singleton.mp hm]
      exact .inl hmem

theorem identities_resealToLaggingMember (hseal : env.SealsAlike) (h : c.OneName)
    {sender : String} {senderEpoch : Nat} :
    (c.resealToLaggingMember P env roomId sender senderEpoch).1.OneName ∧
    ((c.resealToLaggingMember P env roomId sender senderEpoch).1.identities,
      sentTo (c.resealToLaggingMember P env roomId sender senderEpoch).2) =
      c.identities.reseal P env roomId sender senderEpoch := by
  have hnothing : (c.identities, sentTo []) = (c.identities, ∅) := by rw [sentTo_nil]
  have hkeys := @keysRoom_iff c roomId
  have hage : c.identities.keys.currentEpochAge roomId env.nowMs =
    c.groupKeys.currentEpochAge roomId env.nowMs := rfl
  have hepoch : c.identities.keys.currentEpoch roomId = c.groupKeys.currentEpoch roomId := rfl
  have hepochKey : c.identities.keys.epochKey roomId P (c.groupKeys.currentEpoch roomId) =
    c.groupKeys.epochKey roomId P (c.groupKeys.currentEpoch roomId) := rfl
  rw [resealToLaggingMember_eq, IdentityKeying.reseal, hage]
  cases c.groupKeys.currentEpochAge roomId env.nowMs with
  | none => exact ⟨h, hnothing⟩
  | some age =>
    dsimp only
    rw [hepoch, hepochKey]
    by_cases hlag : shouldResealToLaggingMember senderEpoch (c.groupKeys.currentEpoch roomId) age =
        true ∧ c.keysRoom roomId = true
    · rw [if_pos hlag, if_pos (hlag.imp_right hkeys.mp)]
      cases c.groupKeys.epochKey roomId P (c.groupKeys.currentEpoch roomId) with
      | none => exact ⟨h, hnothing⟩
      | some key => exact identities_resealKey hseal h sender _ key
    · rw [if_neg hlag, if_neg (mt (And.imp_right hkeys.mpr) hlag)]
      exact ⟨h, hnothing⟩

/-! ## Snapshots -/

/-- The state with a snapshot taken in. -/
def told (c : ConnectionManager) (supernodeId roomId : String) (members : List String) :
    ConnectionManager :=
  { c with
    roomGroupMembers := c.roomGroupMembers.insert (roomScopeKey supernodeId roomId)
      (ExtTreeSet.ofList (members.filter (· ≠ c.publicId))) }

/-- A snapshot writes us as we do, and leaves each identity written one way: among the members
of the room, and where we key the room, among those who were members of it too while there
was a key for them. -/
structure SpellsAlike (c : ConnectionManager) (supernodeId roomId : String)
    (members : List String) : Prop where
  us : ∀ m ∈ members, bare m = bare c.publicId → m = c.publicId
  room : OneSpelling fun a =>
    a ∈ unionMembersForRoom (c.told supernodeId roomId members).roomGroupMembers roomId
  keyed : (c.told supernodeId roomId members).keysRoom roomId = true →
    OneSpelling fun a => (c.told supernodeId roomId members).Names roomId a ∨
      c.groupKeys.hasRealKey roomId = true ∧ a ∈ unionMembersForRoom c.roomGroupMembers roomId
  /-- Other rooms that the snapshot is read for. -/
  nested : ∀ r, r ≠ roomId → endsWithRoom (roomScopeKey supernodeId roomId) r = true →
    OneSpelling ((c.told supernodeId roomId members).Names r)

section Sync

variable {supernodeId : String} {ms : List String}

theorem identities_told (h : c.SpellsAlike supernodeId roomId ms) :
    (c.told supernodeId roomId ms).identities =
      { c.identities with
        snapshots := Function.update c.identities.snapshots (roomScopeKey supernodeId roomId)
          (identityOf '' {m | m ∈ ms} \ {c.identities.me}) } := by
  refine IdentityKeying.ext rfl ?_ rfl rfl
  funext key
  change identityOf '' {m | m ∈ members (c.roomGroupMembers.insert _ _) key} =
    Function.update c.identities.snapshots (roomScopeKey supernodeId roomId)
      (identityOf '' {m | m ∈ ms} \ {c.identities.me}) key
  rw [members_insert]
  by_cases hkey : roomScopeKey supernodeId roomId = key
  · subst hkey
    rw [if_pos rfl, Function.update_self]
    ext id
    constructor
    · rintro ⟨m, hm, rfl⟩
      rw [Set.mem_ofPred_eq, ExtTreeSet.mem_ofList, List.contains_iff_mem, List.mem_filter,
        decide_eq_true_eq] at hm
      refine ⟨⟨m, hm.1, rfl⟩, fun hme => hm.2 (h.us m hm.1 (bare_eq_of_identityOf ?_))⟩
      exact hme
    · rintro ⟨⟨m, hm, rfl⟩, hother⟩
      refine ⟨m, ?_, rfl⟩
      rw [Set.mem_ofPred_eq, ExtTreeSet.mem_ofList, List.contains_iff_mem, List.mem_filter,
        decide_eq_true_eq]
      refine ⟨hm, ?_⟩
      rintro rfl
      exact hother rfl
  · rw [if_neg hkey, Function.update_of_ne (Ne.symm hkey)]
    rfl

/-- A room that the snapshot is not read for goes by the texts it went by. -/
theorem names_told {r a : String} (hother : endsWithRoom (roomScopeKey supernodeId roomId) r ≠ true)
    (ha : (c.told supernodeId roomId ms).Names r a) : c.Names r a := by
  refine ha.imp_left fun hmember => ?_
  obtain ⟨key, set, hset, hends, hmem⟩ := mem_unionMembersForRoom.mp hmember
  have hheld : (c.roomGroupMembers.insert (roomScopeKey supernodeId roomId)
    (ExtTreeSet.ofList (ms.filter (· ≠ c.publicId))))[key]? = some set := hset
  have hne : compare (roomScopeKey supernodeId roomId) key ≠ .eq := by
    rw [Ne, Std.compare_eq_iff_eq]
    rintro rfl
    exact hother hends
  rw [ExtTreeMap.getElem?_insert, if_neg hne] at hheld
  exact mem_unionMembersForRoom.mpr ⟨key, set, hheld, hends, hmem⟩

theorem oneSpelling_told (h : c.OneName) (halike : c.SpellsAlike supernodeId roomId ms) {r : String}
    (hr : r ≠ roomId) : OneSpelling ((c.told supernodeId roomId ms).Names r) := by
  by_cases hends : endsWithRoom (roomScopeKey supernodeId roomId) r = true
  · exact halike.nested r hr hends
  · exact (h.spelled r).mono fun a ha => names_told hends ha

theorem oneName_told (h : c.OneName) (halike : c.SpellsAlike supernodeId roomId ms)
    (helected : (c.told supernodeId roomId ms).keysRoom roomId = true) :
    (c.told supernodeId roomId ms).OneName := by
  refine ⟨fun r => ?_, h.once⟩
  by_cases hr : r = roomId
  · subst hr
    exact (halike.keyed helected).mono fun a ha => .inl ha
  · exact oneSpelling_told h halike hr

theorem oneName_passed (h : c.OneName) (halike : c.SpellsAlike supernodeId roomId ms) :
    ((c.told supernodeId roomId ms).dropPendingOfRoom roomId).OneName := by
  refine ⟨fun r => ?_, nodup_keys_filter h.once _⟩
  by_cases hr : r = roomId
  · subst hr
    refine halike.room.mono fun a ha => ha.resolve_right fun hentry => ?_
    obtain ⟨e, he, hkey⟩ := List.mem_map.mp hentry
    have hne := (List.mem_filter.mp he).2
    rw [hkey] at hne
    simp at hne
  · refine (oneSpelling_told h halike hr).mono fun a ha => ha.imp_right fun hentry => ?_
    exact (List.filter_sublist.map Prod.fst).subset hentry

theorem identities_settleGone (h : c.OneName) :
    ({ c with
      pendingGroupKeyAcks := c.pendingGroupKeyAcks.filter fun p =>
        p.1.1 ≠ roomId ∨ p.1.2 ∈ unionMembersForRoom c.roomGroupMembers roomId } :
        ConnectionManager).identities =
      c.identities.settle roomId (c.identities.inRoom roomId)ᶜ := by
  have hin : ∀ id, id ∈ c.identities.inRoom roomId ↔
      ∃ m, m ∈ unionMembersForRoom c.roomGroupMembers roomId ∧ identityOf m = id := by
    intro id
    rw [inRoom_identities]
    rfl
  refine IdentityKeying.ext rfl rfl rfl ?_
  funext r id
  simp only [IdentityKeying.settle, Set.mem_compl_iff]
  split
  · next hgone =>
    refine entryFor_filter_of_false fun e _ hroom hid => ?_
    rw [decide_eq_false_iff_not, not_or, not_not]
    exact ⟨hroom.trans hgone.1, fun hmem => hgone.2 ((hin id).mpr ⟨e.1.2, hmem, hid⟩)⟩
  · next hstays =>
    refine entryFor_filter_of_true fun e he hroom hid => ?_
    rw [decide_eq_true_eq]
    by_cases hr : r = roomId
    · subst hr
      refine .inr ?_
      by_contra hout
      refine hstays ⟨rfl, fun hmem => ?_⟩
      obtain ⟨m, hm, hmid⟩ := (hin id).mp hmem
      rw [(h.spelled r).eq (names_of_entry he hroom) (names_of_union hm) (hid.trans hmid.symm)]
        at hout
      exact hout hm
    · exact .inl fun heq => hr (hroom.symm.trans heq)

theorem identities_distributeNamed (hseal : env.SealsAlike) (h : c.OneName) (epoch : Nat)
    (key : EpochKey) (hms : ms.Nodup) (hnames : ∀ m ∈ ms, c.Names roomId m) :
    let o := c.distributeGroupKey env roomId epoch key ms
    o.1.OneName ∧ (o.1.identities, sentTo o.2) =
      c.identities.distribute env roomId epoch key (identityOf '' {m | m ∈ ms}) :=
  ⟨oneName_distributeGroupKey h hnames, identities_distributeGroupKey hseal epoch key hms
    ((h.spelled roomId).mono fun a ha => ha.elim (hnames a) .inr)⟩

theorem identities_distributeAll (hseal : env.SealsAlike) (h : c.OneName) (epoch : Nat)
    (key : EpochKey) :
    let o := c.distributeGroupKey env roomId epoch key
      (unionMembersForRoom c.roomGroupMembers roomId).toList
    o.1.OneName ∧ (o.1.identities, sentTo o.2) =
      c.identities.distribute env roomId epoch key (c.identities.inRoom roomId) := by
  have hnames : ∀ m ∈ (unionMembersForRoom c.roomGroupMembers roomId).toList, c.Names roomId m :=
    fun m hm => names_of_union (ExtTreeSet.mem_toList.mp hm)
  have hset : identityOf '' {m | m ∈ (unionMembersForRoom c.roomGroupMembers roomId).toList} =
      c.identities.inRoom roomId := by
    rw [inRoom_identities]
    congr 1
    ext m
    exact ExtTreeSet.mem_toList
  rw [← hset]
  exact identities_distributeNamed hseal h epoch key nodup_toList hnames

section KeyRoom

variable {unionOld : ExtTreeSet String}

section Old

variable (hone : OneSpelling fun a => a ∈ unionOld ∨ c.Names roomId a)
include hone

theorem mem_inRoom_of_old {m : String} (hm : m ∈ unionOld) :
    identityOf m ∈ c.identities.inRoom roomId ↔
      m ∈ unionMembersForRoom c.roomGroupMembers roomId := by
  rw [inRoom_identities]
  exact hone.mem_image (T := {m | m ∈ unionMembersForRoom c.roomGroupMembers roomId}) (.inl hm)
    fun b hb => .inr (names_of_union hb)

theorem mem_old_of_inRoom {m : String}
    (hm : m ∈ unionMembersForRoom c.roomGroupMembers roomId) :
    identityOf m ∈ identityOf '' {m | m ∈ unionOld} ↔ m ∈ unionOld :=
  hone.mem_image (T := {m | m ∈ unionOld}) (.inr (names_of_union hm)) fun _ hb => .inl hb

theorem any_removed_iff :
    (unionOld.toList.any fun m => !(unionMembersForRoom c.roomGroupMembers roomId).contains m) =
        true ↔
      ¬ identityOf '' {m | m ∈ unionOld} ⊆ c.identities.inRoom roomId := by
  rw [List.any_eq_true, Set.not_subset]
  constructor
  · rintro ⟨m, hm, hgone⟩
    rw [ExtTreeSet.mem_toList] at hm
    refine ⟨identityOf m, ⟨m, hm, rfl⟩, fun hin => ?_⟩
    rw [mem_inRoom_of_old hone hm, ← ExtTreeSet.contains_iff_mem] at hin
    rw [hin] at hgone
    cases hgone
  · rintro ⟨_, ⟨m, hm, rfl⟩, hgone⟩
    rw [mem_inRoom_of_old hone hm, ← ExtTreeSet.contains_iff_mem, Bool.not_eq_true] at hgone
    exact ⟨m, ExtTreeSet.mem_toList.mpr hm, by rw [hgone]; rfl⟩

theorem image_added :
    identityOf '' {m | m ∈ (unionMembersForRoom c.roomGroupMembers roomId).toList.filter
        fun m => !unionOld.contains m} =
      c.identities.inRoom roomId \ identityOf '' {m | m ∈ unionOld} := by
  have hmem : ∀ m, m ∈ (unionMembersForRoom c.roomGroupMembers roomId).toList.filter
        (fun m => !unionOld.contains m) ↔
      m ∈ unionMembersForRoom c.roomGroupMembers roomId ∧ m ∉ unionOld := by
    intro m
    rw [List.mem_filter, ExtTreeSet.mem_toList, Bool.not_eq_true', ← Bool.not_eq_true,
      ExtTreeSet.contains_iff_mem]
  ext id
  constructor
  · rintro ⟨m, hm, rfl⟩
    obtain ⟨hin, hnew⟩ := (hmem m).mp hm
    refine ⟨?_, fun hold => hnew ((mem_old_of_inRoom hone hin).mp hold)⟩
    rw [inRoom_identities]
    exact ⟨m, hin, rfl⟩
  · rintro ⟨hin, hnew⟩
    rw [inRoom_identities] at hin
    obtain ⟨m, hin, rfl⟩ := hin
    exact ⟨m, (hmem m).mpr ⟨hin, mt (mem_old_of_inRoom hone hin).mpr hnew⟩, rfl⟩

end Old

theorem mints_iff {hasReal : Bool} :
    shouldMintFirstRoomKey true hasReal (unionMembersForRoom c.roomGroupMembers roomId).size =
        true ↔
      hasReal = false ∧ (c.identities.inRoom roomId).Nonempty := by
  have hsize : 0 < (unionMembersForRoom c.roomGroupMembers roomId).size ↔
      (c.identities.inRoom roomId).Nonempty := by
    rw [inRoom_identities, Set.image_nonempty, ← ExtTreeSet.length_toList,
      List.length_pos_iff_exists_mem]
    exact exists_congr fun m => ExtTreeSet.mem_toList
  unfold shouldMintFirstRoomKey
  rw [Bool.true_and, Bool.and_eq_true, Bool.not_eq_true', decide_eq_true_eq, gt_iff_lt, hsize]

section Held

variable (hone : c.groupKeys.hasRealKey roomId = true →
  OneSpelling fun a => a ∈ unionOld ∨ c.Names roomId a)
include hone

theorem rotates_iff :
    (c.groupKeys.hasRealKey roomId && unionOld.toList.any fun m =>
        !(unionMembersForRoom c.roomGroupMembers roomId).contains m) = true ↔
      c.groupKeys.hasRealKey roomId = true ∧
        ¬ identityOf '' {m | m ∈ unionOld} ⊆ c.identities.inRoom roomId := by
  rw [Bool.and_eq_true]
  exact and_congr_right fun hreal => any_removed_iff (hone hreal)

theorem joins_iff :
    (c.groupKeys.hasRealKey roomId &&
        !((unionMembersForRoom c.roomGroupMembers roomId).toList.filter
          fun m => !unionOld.contains m).isEmpty) = true ↔
      c.groupKeys.hasRealKey roomId = true ∧
        ¬ c.identities.inRoom roomId ⊆ identityOf '' {m | m ∈ unionOld} := by
  rw [Bool.and_eq_true]
  refine and_congr_right fun hreal => ?_
  rw [← Set.sdiff_nonempty, ← image_added (hone hreal), Set.image_nonempty, Bool.not_eq_true',
    List.isEmpty_eq_false_iff_exists_mem]
  exact Iff.rfl

/-- The elected keyer answers a change of members as one of identities. -/
theorem identities_keyRoom (hseal : env.SealsAlike) (h : c.OneName) :
    let o := c.keyRoom P env roomId unionOld (unionMembersForRoom c.roomGroupMembers roomId)
    o.1.OneName ∧ (o.1.identities, sentTo o.2) =
      c.identities.keyRoom P env roomId (identityOf '' {m | m ∈ unionOld}) := by
  have hnothing : (c.identities, sentTo []) = (c.identities, ∅) := by rw [sentTo_nil]
  have hmints := @mints_iff c roomId (c.groupKeys.hasRealKey roomId)
  have hrotates := rotates_iff hone
  have hjoins := joins_iff hone
  unfold ConnectionManager.keyRoom IdentityKeying.keyRoom
  dsimp only
  have hreal : c.identities.keys.hasRealKey roomId = c.groupKeys.hasRealKey roomId := rfl
  rw [hreal]
  split
  · next hmint =>
    rw [if_pos (hmints.mp hmint)]
    exact @identities_distributeAll env
      { c with groupKeys := (c.groupKeys.newOwnerEpoch roomId env.nowMs env.randomKey).1 } roomId
      hseal (oneName_keys h _) _ _
  · next hmint =>
    rw [if_neg (mt hmints.mpr hmint)]
    split
    · next hrotate =>
      rw [if_pos (hrotates.mp hrotate)]
      have hdropped := oneName_dropPendingOfRoom
        (oneName_keys h (c.groupKeys.rotate roomId env.nowMs env.randomKey).1) roomId
      obtain ⟨hname, hsent⟩ := @identities_distributeAll env _ roomId hseal hdropped
        (c.groupKeys.rotate roomId env.nowMs env.randomKey).2 env.randomKey
      rw [identities_dropPendingOfRoom] at hsent
      exact ⟨hname, hsent⟩
    · next hrotate =>
      rw [if_neg (mt hrotates.mpr hrotate)]
      split
      · next hjoin =>
        rw [if_pos (hjoins.mp hjoin)]
        have hepoch : c.identities.keys.currentEpoch roomId = c.groupKeys.currentEpoch roomId := rfl
        have hepochKey : c.identities.keys.epochKey roomId P (c.groupKeys.currentEpoch roomId) =
          c.groupKeys.epochKey roomId P (c.groupKeys.currentEpoch roomId) := rfl
        rw [hepoch, hepochKey]
        cases c.groupKeys.epochKey roomId P (c.groupKeys.currentEpoch roomId) with
        | none => exact ⟨h, hnothing⟩
        | some key =>
          rw [← image_added (hone (hjoins.mp hjoin).1)]
          refine identities_distributeNamed hseal h _ key (nodup_toList.filter _) fun m hm => ?_
          exact names_of_union (ExtTreeSet.mem_toList.mp (List.mem_of_mem_filter hm))
      · next hjoin =>
        rw [if_neg (mt hjoins.mpr hjoin)]
        exact ⟨h, hnothing⟩

end Held

end KeyRoom

theorem syncRoomMembership_eq :
    c.syncRoomMembership P env supernodeId roomId ms =
      let t := c.told supernodeId roomId ms
      if t.keysRoom roomId = true then
        { t with
          pendingGroupKeyAcks := t.pendingGroupKeyAcks.filter fun p =>
            p.1.1 ≠ roomId ∨ p.1.2 ∈ unionMembersForRoom t.roomGroupMembers roomId }.keyRoom P env
          roomId (unionMembersForRoom c.roomGroupMembers roomId)
          (unionMembersForRoom t.roomGroupMembers roomId)
      else (t.dropPendingOfRoom roomId, []) := by
  unfold syncRoomMembership told
  dsimp only
  split
  · next hno => rw [if_neg (by simpa using hno)]
  · next hyes => rw [if_pos (by simpa using hyes)]

theorem identities_syncRoomMembership (hseal : env.SealsAlike) (h : c.OneName)
    (halike : c.SpellsAlike supernodeId roomId ms) :
    let o := c.syncRoomMembership P env supernodeId roomId ms
    o.1.OneName ∧ (o.1.identities, sentTo o.2) =
      c.identities.sync P env supernodeId roomId (identityOf '' {m | m ∈ ms}) := by
  have htold := identities_told halike
  have hkeys := @keysRoom_iff (c.told supernodeId roomId ms) roomId
  have hme : (c.told supernodeId roomId ms).identities.me = c.identities.me := rfl
  unfold IdentityKeying.sync
  dsimp only
  rw [syncRoomMembership_eq, ← htold, ← hme]
  by_cases helected : (c.told supernodeId roomId ms).keysRoom roomId = true
  · have hname := oneName_told h halike helected
    rw [if_pos helected, if_pos (hkeys.mp helected), ← identities_settleGone hname,
      inRoom_identities]
    refine identities_keyRoom (fun hreal => ?_) hseal (oneName_filter hname _)
    refine (halike.keyed helected).mono fun a ha => ?_
    obtain hold | hmember | hentry := ha
    · exact .inr ⟨hreal, hold⟩
    · exact .inl (.inl hmember)
    · exact .inl (.inr ((List.filter_sublist.map Prod.fst).subset hentry))
  · rw [if_neg helected, if_neg (mt hkeys.mpr helected), sentTo_nil]
    exact ⟨oneName_passed h halike, Prod.ext identities_dropPendingOfRoom rfl⟩

end Sync

end ConnectionManager

/-! ## Respelled runs -/

open ConnectionManager

/-- What the keying of rooms is called with. -/
inductive KeyingOp where
  | sync (supernodeId roomId : String) (members : List String)
  | groupKey (msg : SignalingMessage)
  | groupKeyAck (msg : SignalingMessage)
  | retry
  | reseal (roomId sender : String) (senderEpoch : Nat)

/-- A call, and the surroundings it is made in. -/
structure KeyingStep where
  env : Env
  alike : env.SealsAlike
  op : KeyingOp

/-- One call is another with some members written the other way. -/
inductive KeyingOp.Respelled : KeyingOp → KeyingOp → Prop
  | sync {supernodeId roomId : String} {members members' : List String}
      (h : members.map identityOf = members'.map identityOf) :
      Respelled (.sync supernodeId roomId members) (.sync supernodeId roomId members')
  | groupKey {msg msg' : SignalingMessage}
      (h : identityOf msg.sender.text = identityOf msg'.sender.text)
      (hpayload : msg.payload = msg'.payload) : Respelled (.groupKey msg) (.groupKey msg')
  | groupKeyAck {msg msg' : SignalingMessage}
      (h : identityOf msg.sender.text = identityOf msg'.sender.text)
      (hpayload : msg.payload = msg'.payload) : Respelled (.groupKeyAck msg) (.groupKeyAck msg')
  | retry : Respelled .retry .retry
  | reseal {roomId sender sender' : String} {senderEpoch : Nat}
      (h : identityOf sender = identityOf sender') :
      Respelled (.reseal roomId sender senderEpoch) (.reseal roomId sender' senderEpoch)

structure KeyingStep.Respelled (s s' : KeyingStep) : Prop where
  env : s.env = s'.env
  op : s.op.Respelled s'.op

def KeyingOp.identities : KeyingOp → IdentityKeying.Call
  | .sync supernodeId roomId members =>
    .sync supernodeId roomId (identityOf '' {m | m ∈ members})
  | .groupKey msg => .groupKey (identityOf msg.sender.text) msg.payload
  | .groupKeyAck msg => .groupKeyAck (identityOf msg.sender.text) msg.payload
  | .retry => .retry
  | .reseal roomId sender senderEpoch => .reseal roomId (identityOf sender) senderEpoch

theorem KeyingOp.Respelled.identities {o o' : KeyingOp} (h : o.Respelled o') :
    o.identities = o'.identities := by
  have himage : ∀ ms : List String, identityOf '' {m | m ∈ ms} = {id | id ∈ ms.map identityOf} := by
    intro ms
    ext id
    simp
  cases h with
  | sync h => rw [KeyingOp.identities, KeyingOp.identities, himage, himage, h]
  | groupKey h hpayload => rw [KeyingOp.identities, KeyingOp.identities, h, hpayload]
  | groupKeyAck h hpayload => rw [KeyingOp.identities, KeyingOp.identities, h, hpayload]
  | retry => rfl
  | reseal h => rw [KeyingOp.identities, KeyingOp.identities, h]

theorem map_identities {steps steps' : List KeyingStep}
    (h : List.Forall₂ KeyingStep.Respelled steps steps') :
    steps.map (fun s => (s.env, s.op.identities)) =
      steps'.map fun s => (s.env, s.op.identities) := by
  induction h with
  | nil => rfl
  | cons hs _ ih => rw [List.map_cons, List.map_cons, ih, hs.env, hs.op.identities]

namespace ConnectionManager

variable {P : Platform} {c : ConnectionManager}

def keyingCall (P : Platform) (c : ConnectionManager) (s : KeyingStep) : Outcome :=
  match s.op with
  | .sync supernodeId roomId members => c.syncRoomMembership P s.env supernodeId roomId members
  | .groupKey msg => c.handleSfuGroupKey P s.env msg
  | .groupKeyAck msg => (c.handleSfuGroupKeyAck msg, [])
  | .retry => c.retryPendingGroupKeys P s.env
  | .reseal roomId sender senderEpoch =>
    c.resealToLaggingMember P s.env roomId sender senderEpoch

/-- The members a step brings are written one way, and a confirmation comes as it is awaited. -/
def Spelled (c : ConnectionManager) (s : KeyingStep) : Prop :=
  match s.op with
  | .sync supernodeId roomId members => c.SpellsAlike supernodeId roomId members
  | .groupKeyAck msg => c.ConfirmsAsFiled msg
  | _ => True

theorem identities_keyingCall {s : KeyingStep} (h : c.OneName) (hspelled : c.Spelled s) :
    (c.keyingCall P s).1.OneName ∧
    ((c.keyingCall P s).1.identities, sentTo (c.keyingCall P s).2) =
      c.identities.call P (s.env, s.op.identities) := by
  obtain ⟨env, hseal, op⟩ := s
  cases op with
  | sync supernodeId roomId ms => exact identities_syncRoomMembership hseal h hspelled
  | groupKey msg => exact ⟨oneName_handleSfuGroupKey h, identities_handleSfuGroupKey hseal⟩
  | groupKeyAck msg =>
    refine ⟨oneName_handleSfuGroupKeyAck h, ?_⟩
    exact Prod.ext (identities_handleSfuGroupKeyAck h hspelled) sentTo_nil
  | retry => exact identities_retryPendingGroupKeys hseal h
  | reseal roomId sender senderEpoch =>
    obtain ⟨hname, hids⟩ :=
      @identities_resealToLaggingMember P env c roomId hseal h sender senderEpoch
    exact ⟨hname, hids.trans (IdentityKeying.reseal_identityOf sender senderEpoch).symm⟩

/-- Two steps went alike: what is left elects the same keyers and holds the same keys, the same
was sent to the same identities, and the same is outstanding for them. -/
structure Alike (o o' : Outcome) : Prop where
  elected : ∀ roomId, o.1.keysRoom roomId = o'.1.keysRoom roomId
  accepted : ∀ sender sender' roomId epoch, identityOf sender = identityOf sender' →
    o.1.acceptGroupKeyFrom sender roomId epoch = o'.1.acceptGroupKeyFrom sender' roomId epoch
  keys : o.1.groupKeys = o'.1.groupKeys
  sent : sentTo o.2 = sentTo o'.2
  outstanding : ∀ roomId id,
    entryFor o.1.pendingGroupKeyAcks roomId id = entryFor o'.1.pendingGroupKeyAcks roomId id

theorem Alike.of_identities {o o' : Outcome}
    (h : Prod.map identities sentTo o = Prod.map identities sentTo o') : Alike o o' := by
  have hids : o.1.identities = o'.1.identities := congrArg Prod.fst h
  refine ⟨fun roomId => ?_, fun sender sender' roomId epoch hsender => ?_,
    congrArg IdentityKeying.keys hids, congrArg Prod.snd h, fun roomId id => ?_⟩
  · rw [Bool.eq_iff_iff, keysRoom_iff, keysRoom_iff, hids]
  · rw [Bool.eq_iff_iff, acceptGroupKeyFrom_iff, acceptGroupKeyFrom_iff, hids, hsender]
  · exact congrFun (congrFun (congrArg IdentityKeying.outstanding hids) roomId) id

theorem oneName_start {publicId : String} {store : PeerStore} :
    (ConnectionManager.start publicId store).OneName := by
  refine ⟨fun r a b ha => ?_, List.nodup_nil⟩
  obtain hmember | hentry := ha
  · obtain ⟨key, set, hset, -⟩ := mem_unionMembersForRoom.mp hmember
    exact absurd hset (by simp [start])
  · cases hentry

/-- Runs that differ in the spelling of members only, and spell them one way each, go alike. -/
theorem respelled_runs_alike {publicId : String} {store : PeerStore} {steps steps' : List KeyingStep}
    (hrespelled : List.Forall₂ KeyingStep.Respelled steps steps')
    (h : Along (after (keyingCall P)) Spelled (.start publicId store) steps)
    (h' : Along (after (keyingCall P)) Spelled (.start publicId store) steps') :
    List.Forall₂ Alike (trace (keyingCall P) (.start publicId store) steps)
      (trace (keyingCall P) (.start publicId store) steps') := by
  refine (trace_alike h h' oneName_start oneName_start rfl (map_identities hrespelled)
    fun c s hname hspelled => identities_keyingCall hname hspelled).imp ?_
  exact fun o o' => Alike.of_identities

/-! ## Bob, and ourselves, in both spellings -/

theorem permissive_sealsAlike : Env.permissive.SealsAlike :=
  fun _ _ => rfl

/-- Bob's id without its pad. -/
def bobBare : PublicId where
  text := bare bob.text
  valid := bob.valid.bare

/-- A room is told of, and somebody confirms the key of it. -/
def keyedAndConfirmed (id : PublicId) : List KeyingStep :=
  [⟨.permissive, permissive_sealsAlike, .sync "SN" "den" [id.text]⟩,
    ⟨.permissive, permissive_sealsAlike, .groupKeyAck
      { msgType := .sfuGroupKeyAck
        sender := id
        payload := .obj [("room_id", .str "den"), ("epoch", .int 0)] }⟩]

theorem names_told_start {publicId : String} {store : PeerStore} {sn roomId r : String}
    {ms : List String} {a : String}
    (h : ((ConnectionManager.start publicId store).told sn roomId ms).Names r a) : a ∈ ms := by
  obtain hmember | hentry := h
  · obtain ⟨key, set, hset, -, hmem⟩ := mem_unionMembersForRoom.mp hmember
    have hheld : ((∅ : Roster String String).insert (roomScopeKey sn roomId)
      (ExtTreeSet.ofList (ms.filter (· ≠ publicId))))[key]? = some set := hset
    rw [ExtTreeMap.getElem?_insert] at hheld
    split at hheld
    · obtain rfl := Option.some.inj hheld
      rw [ExtTreeSet.mem_ofList, List.contains_iff_mem] at hmem
      exact List.mem_of_mem_filter hmem
    · simp at hheld
  · cases hentry

theorem spellsAlike_start {publicId : String} {store : PeerStore} {sn roomId : String}
    {ms : List String} (hus : ∀ m ∈ ms, bare m = bare publicId → m = publicId)
    (hms : OneSpelling (· ∈ ms)) :
    (ConnectionManager.start publicId store).SpellsAlike sn roomId ms where
  us := hus
  room := hms.mono fun _ ha => names_told_start (names_of_union ha)
  keyed _ := hms.mono fun _ ha => by
    obtain ha | ⟨hreal, -⟩ := ha
    · exact names_told_start ha
    · exact absurd hreal (by simp [start, SenderKeysGroup.new, SenderKeysGroup.hasRealKey])
  nested _ _ _ := hms.mono fun _ ha => names_told_start ha

/-- The run spells members one way when the seal of the key is awaited under the id it is sent
to. -/
theorem keyedAndConfirmed_spelled {id : PublicId} (hother : bare id.text ≠ bare alice.text)
    (hawaited : ∀ e ∈ (after (keyingCall .symbolic) (.start alice.text ⟨∅⟩)
      ⟨.permissive, permissive_sealsAlike, .sync "SN" "den" [id.text]⟩).pendingGroupKeyAcks,
      e.1.2 = id.text) :
    Along (after (keyingCall .symbolic)) Spelled (.start alice.text ⟨∅⟩) (keyedAndConfirmed id) := by
  refine ⟨spellsAlike_start ?_ ?_, fun _ _ e he _ _ _ => hawaited e he, trivial⟩
  · intro m hm hme
    rw [List.mem_singleton.mp hm] at hme
    exact absurd hme hother
  · intro a b ha hb _
    rw [List.mem_singleton.mp ha, List.mem_singleton.mp hb]

/-- Bob is keyed and confirms alike in both spellings of his id. -/
theorem bob_alike :
    List.Forall₂ Alike
      (trace (keyingCall .symbolic) (.start alice.text ⟨∅⟩) (keyedAndConfirmed bob))
      (trace (keyingCall .symbolic) (.start alice.text ⟨∅⟩) (keyedAndConfirmed bobBare)) := by
  have hid : identityOf bob.text = identityOf bobBare.text := by decide +kernel
  refine respelled_runs_alike ?_ (keyedAndConfirmed_spelled ?_ ?_) (keyedAndConfirmed_spelled ?_ ?_)
  · exact .cons ⟨rfl, .sync (congrArg (fun id => [id]) hid)⟩
      (.cons ⟨rfl, .groupKeyAck hid rfl⟩ .nil)
  · decide +kernel
  · decide +kernel
  · decide +kernel
  · decide +kernel

/-- A room of nobody but us is keyed when our own id comes without its pad. -/
theorem own_id_keyed :
    ¬ ∀ (publicId : String) (store : PeerStore) (steps steps' : List KeyingStep),
      List.Forall₂ KeyingStep.Respelled steps steps' →
      List.Forall₂ Alike (trace (keyingCall .symbolic) (.start publicId store) steps)
        (trace (keyingCall .symbolic) (.start publicId store) steps') := by
  intro h
  have hid : identityOf alice.text = identityOf (bare alice.text) := by decide +kernel
  have halike := h alice.text ⟨∅⟩
    [⟨.permissive, permissive_sealsAlike, .sync "SN" "den" [alice.text]⟩]
    [⟨.permissive, permissive_sealsAlike, .sync "SN" "den" [bare alice.text]⟩]
    (.cons ⟨rfl, .sync (congrArg (fun id => [id]) hid)⟩ .nil)
  have hkeys := (List.forall₂_cons.mp halike).1.keys
  have hreal := congrArg (fun keys : SenderKeysGroup => keys.hasRealKey "den") hkeys
  revert hreal
  decide +kernel

end ConnectionManager

end ConquerD.Client
