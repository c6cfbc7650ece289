import ConquerD.Client.RoomReplies
import ConquerD.Client.Verify.Keying
import ConquerD.Wire.Space

/-!
# Verify: who steers the room session

A reply about a room changes the session exactly when it matches something:
whatever was created and not denied, an invite or a join that is pending, or the
room that is current. Of the other messages, a list of members moves the client when
a failover awaits its room, and none makes it forget a room's keys. Nothing asks
whether the sender is a supernode, or whether a room that was created was asked for.
-/

namespace ConquerD.Client

open Std (ExtTreeMap ExtTreeSet)
open Lib.Run Wire

/-! ## What is steered -/

/-- The state of the room session. -/
structure Steering where
  currentRoomId : String
  currentSupernodeId : String
  chatActiveRooms : ExtTreeSet String
  pendingMaterialize : ExtTreeMap String Nat
  pendingPrivateRoomJoins : ExtTreeSet String
  pendingRoomJoinRetries : List ((String × String) × PendingRoomJoinRetry)
  pendingFailoverRejoin : ExtTreeMap String String
  groupKeys : SenderKeysGroup

/-- The client stays in its room, and no room's keys are forgotten. -/
structure Seated (c c' : ConnectionManager) : Prop where
  room : c'.currentRoomId = c.currentRoomId
  host : c'.currentSupernodeId = c.currentSupernodeId
  keys : ∀ r ∈ c.groupKeys.groups, r ∈ c'.groupKeys.groups

/-- The message lists the members of a room that a failover awaits, and the client is
not in that room on its sender. -/
def ConnectionManager.MovedBy (c : ConnectionManager) (env : Env) (msg : SignalingMessage) : Prop :=
  ∃ list, dispatched env msg = some list ∧ list.msgType = .sfuMembers ∧
    c.failoverPendingRoom = some (roomOf list) ∧
    ¬ (c.currentRoomId = roomOf list ∧ c.currentSupernodeId = msg.sender.text)

namespace RoomClient

variable (env : Env) (c : RoomClient) (r : RoomReply)

def steering : Steering :=
  ⟨c.manager.currentRoomId, c.manager.currentSupernodeId, c.manager.chatActiveRooms,
    c.pendingMaterialize, c.pendingPrivateRoomJoins, c.pendingRoomJoinRetries,
    c.pendingFailoverRejoin, c.manager.groupKeys⟩

/-- A session is held with the supernode that goes by this id, in any spelling. -/
def HoldsSessionWith (sender : PublicId) : Prop :=
  ∃ s ∈ c.manager.supernodes, bare s = bare sender.text

/-- A key of the room is in the set. -/
def awaitsJoin : Bool :=
  c.pendingPrivateRoomJoins.toList.any fun k => endsWithRoom k r.roomId

/-- No join is sent again and no rejoin is waited for because of the refusal. -/
def NothingRetried : Prop :=
  (r.reason = "room_absent" →
      c.pendingRoomJoinRetries.lookup (r.sender.text, r.roomId) ≠ none) ∧
    ∀ s : String, c.pendingFailoverRejoin[s]? ≠ some r.roomId

/-- The room is current, on the supernode its traffic goes to, and has no keys. -/
def AlreadyThere : Prop :=
  c.manager.currentRoomId = r.roomId ∧
    c.manager.currentSupernodeId = env.liveRoomRoute r.sender.text ∧
    c.manager.groupKeys.forget r.roomId = c.manager.groupKeys

/-- A reply that matches nothing. -/
def Inert (visit : Nat) : Prop :=
  match r.kind with
  | .roomCreated => r.denied = true ∨ r.roomId = "" ∨
      (takePendingMaterialize c.pendingMaterialize visit r.sender.text r.roomId = none ∧
        c.AlreadyThere env r)
  | .roomInviteResult => r.roomId = "" ∨
      (c.awaitsJoin r = false ∧
        if r.accepted = true then
          c.manager.currentRoomId = r.roomId →
            c.manager.currentSupernodeId = env.liveRoomRoute r.sender.text
        else
          ¬ (c.manager.currentRoomId = r.roomId ∧
            (c.manager.currentSupernodeId = r.sender.text ∨ c.manager.currentSupernodeId = "" ∨
              bare c.manager.currentSupernodeId = bare r.sender.text)))
  | .joinResult => r.roomId = "" ∨ r.accepted = true ∨
      (c.awaitsJoin r = false ∧ c.NothingRetried r ∧
        ¬ (c.manager.currentRoomId = r.roomId ∧
          (c.manager.currentSupernodeId = r.sender.text ∨ c.manager.currentSupernodeId = "")))

/-- The reply makes a room that was created the current one. -/
def EntersCreated (visit : Nat) : Prop :=
  r.kind = .roomCreated ∧ r.denied = false ∧ r.roomId ≠ "" ∧
    takePendingMaterialize c.pendingMaterialize visit r.sender.text r.roomId = none ∧
    c.manager.currentRoomId ≠ r.roomId

end RoomClient

/-! ## Pending tables -/

theorem endsWithRoom_roomScopeKey (host roomId : String) :
    endsWithRoom (roomScopeKey host roomId) roomId = true := by
  unfold endsWithRoom roomScopeKey
  rw [List.isSuffixOf_iff_suffix]
  refine ⟨host.toList, ?_⟩
  simp

theorem mem_filter_iff {set : ExtTreeSet String} {f : String → Bool} {k : String} :
    k ∈ set.filter f ↔ k ∈ set ∧ f k = true := by
  rw [← ExtTreeSet.mem_toList, ExtTreeSet.toList_filter, List.mem_filter, ExtTreeSet.mem_toList]

theorem mem_erase_iff {set : ExtTreeSet String} {a k : String} : k ∈ set.erase a ↔ k ≠ a ∧ k ∈ set := by
  have hcmp : compare a k = .eq ↔ k = a := compare_eq_iff_eq.trans eq_comm
  rw [ExtTreeSet.mem_erase, Ne, hcmp]

theorem mem_without_host {set : ExtTreeSet String} {host roomId k : String}
    (hk : endsWithRoom k roomId = false) :
    (k ∈ (if bare host ≠ host then
        (set.erase (roomScopeKey host roomId)).erase (roomScopeKey (bare host) roomId)
      else set.erase (roomScopeKey host roomId))) ↔ k ∈ set := by
  have hne : ∀ h, k ≠ roomScopeKey h roomId := by
    rintro h rfl
    rw [endsWithRoom_roomScopeKey] at hk
    cases hk
  split
  · rw [mem_erase_iff, mem_erase_iff, and_iff_right (hne _), and_iff_right (hne _)]
  · rw [mem_erase_iff, and_iff_right (hne _)]

theorem mem_takePendingScopedKey {set : ExtTreeSet String} {host roomId k : String} :
    k ∈ (takePendingScopedKey set host roomId).2 ↔ k ∈ set ∧ endsWithRoom k roomId = false := by
  unfold takePendingScopedKey
  dsimp only
  rw [mem_filter_iff, Bool.not_eq_true']
  constructor
  · rintro ⟨hmem, hk⟩
    exact ⟨(mem_without_host hk).mp hmem, hk⟩
  · rintro ⟨hmem, hk⟩
    exact ⟨(mem_without_host hk).mpr hmem, hk⟩

theorem takePendingScopedKey_hit {set : ExtTreeSet String} {host roomId : String} :
    (takePendingScopedKey set host roomId).1 = set.toList.any fun k => endsWithRoom k roomId := by
  unfold takePendingScopedKey
  dsimp only
  rw [Bool.eq_iff_iff]
  simp only [Bool.or_eq_true, Bool.and_eq_true, List.any_eq_true, ExtTreeSet.mem_toList,
    ExtTreeSet.contains_iff_mem, bne_iff_ne]
  constructor
  · rintro ((hexact | ⟨-, hbare⟩) | ⟨k, hk, hends⟩)
    · exact ⟨_, hexact, endsWithRoom_roomScopeKey host roomId⟩
    · exact ⟨_, (mem_erase_iff.mp hbare).2, endsWithRoom_roomScopeKey (bare host) roomId⟩
    · refine ⟨k, ?_, hends⟩
      split at hk
      · exact (mem_erase_iff.mp (mem_erase_iff.mp hk).2).2
      · exact (mem_erase_iff.mp hk).2
  · rintro ⟨k, hk, hends⟩
    by_cases hexact : k = roomScopeKey host roomId
    · exact .inl (.inl (hexact ▸ hk))
    · have hleft : k ∈ set.erase (roomScopeKey host roomId) := mem_erase_iff.mpr ⟨hexact, hk⟩
      by_cases hpad : bare host ≠ host
      · by_cases hbare : k = roomScopeKey (bare host) roomId
        · exact .inl (.inr ⟨hpad, hbare ▸ hleft⟩)
        · refine .inr ⟨k, ?_, hends⟩
          rw [if_pos hpad]
          exact mem_erase_iff.mpr ⟨hbare, hleft⟩
      · refine .inr ⟨k, ?_, hends⟩
        rw [if_neg hpad]
        exact hleft

theorem takePendingScopedKey_eq_self_iff {set : ExtTreeSet String} {host roomId : String} :
    (takePendingScopedKey set host roomId).2 = set ↔
      (set.toList.any fun k => endsWithRoom k roomId) = false := by
  rw [List.any_eq_false]
  simp only [ExtTreeSet.mem_toList, Bool.not_eq_true]
  constructor
  · intro heq k hk
    rw [← heq] at hk
    exact (mem_takePendingScopedKey.mp hk).2
  · intro hnone
    refine ExtTreeSet.ext_mem fun k => ?_
    rw [mem_takePendingScopedKey]
    exact ⟨And.left, fun hk => ⟨hk, hnone k hk⟩⟩

theorem decrementPending_ne {m m' : ExtTreeMap String Nat} {key : String}
    (h : decrementPending m key = some m') : m' ≠ m := by
  unfold decrementPending at h
  obtain ⟨count, hcount, rfl⟩ := Option.map_eq_some_iff.mp h
  intro heq
  have hkey := congrArg (fun t : ExtTreeMap String Nat => t[key]?) heq
  rw [hcount] at hkey
  split at hkey
  · rw [ExtTreeMap.getElem?_insert_self] at hkey
    have := Option.some.inj hkey
    omega
  · rw [ExtTreeMap.getElem?_erase_self] at hkey
    cases hkey

theorem takePendingMaterialize_ne {m m' : ExtTreeMap String Nat} {visit : Nat}
    {host roomId : String} (h : takePendingMaterialize m visit host roomId = some m') : m' ≠ m := by
  unfold takePendingMaterialize at h
  rcases Option.or_eq_some_iff.mp h with hhost | ⟨-, hany⟩
  · rcases Option.or_eq_some_iff.mp hhost with hexact | ⟨-, hbare⟩
    · exact decrementPending_ne hexact
    · split at hbare
      · exact decrementPending_ne hbare
      · cases hbare
  · obtain ⟨key, -, hkey⟩ := Option.bind_eq_some_iff.mp hany
    exact decrementPending_ne hkey

/-! ## One reply -/

namespace RoomClient

variable {env : Env} {c : RoomClient} {r : RoomReply} {visit : Nat}

theorem handleRoomCreated_of_some {m : ExtTreeMap String Nat} (hdenied : r.denied = false)
    (hroom : r.roomId ≠ "")
    (h : takePendingMaterialize c.pendingMaterialize visit r.sender.text r.roomId = some m) :
    (c.handleRoomCreated env r visit).pendingMaterialize = m ∧
      (c.handleRoomCreated env r visit).manager.currentRoomId = c.manager.currentRoomId := by
  unfold handleRoomCreated
  rw [if_neg (by simp [hdenied, hroom]), h]
  refine ⟨rfl, ?_⟩
  unfold ConnectionManager.handleSfuRoomCreated
  dsimp only
  split
  · rfl
  · split
    · rfl
    · rw [Option.isSome_some, if_pos rfl]
      split <;> rfl

theorem handleRoomCreated_of_none (hdenied : r.denied = false) (hroom : r.roomId ≠ "")
    (h : takePendingMaterialize c.pendingMaterialize visit r.sender.text r.roomId = none) :
    (c.handleRoomCreated env r visit).steering =
      { c.steering with
        currentRoomId := r.roomId
        currentSupernodeId := env.liveRoomRoute r.sender.text
        groupKeys := c.manager.groupKeys.forget r.roomId } := by
  have hflag : (((r.message.payload.get? "denied").bind Json.asBool?).getD false) = false := hdenied
  have hid : (r.message.payload.str? "room_id").getD "" = r.roomId := rfl
  unfold handleRoomCreated
  rw [if_neg (by simp [hdenied, hroom]), h]
  unfold ConnectionManager.handleSfuRoomCreated
  dsimp only
  rw [hflag, hid, if_neg Bool.false_ne_true, if_neg hroom, Option.isSome_none,
    if_neg Bool.false_ne_true]
  unfold ConnectionManager.sendRoomJoin
  dsimp only
  rw [if_pos (.inl rfl)]
  rfl

theorem handleRoomCreated_of_denied (h : r.denied = true ∨ r.roomId = "") :
    c.handleRoomCreated env r visit = c := by
  unfold handleRoomCreated
  rw [if_pos (by simpa using h)]

/-- A reply about a created room changes the session exactly when it is not
inert. -/
theorem handleRoomCreated_steering_iff :
    (c.handleRoomCreated env r visit).steering = c.steering ↔
      r.denied = true ∨ r.roomId = "" ∨
        (takePendingMaterialize c.pendingMaterialize visit r.sender.text r.roomId = none ∧
          c.AlreadyThere env r) := by
  by_cases hskip : r.denied = true ∨ r.roomId = ""
  · rw [handleRoomCreated_of_denied hskip]
    exact iff_of_true rfl (hskip.imp id .inl)
  · obtain ⟨hdenied, hroom⟩ := not_or.mp hskip
    have hdenied' : r.denied = false := by simpa using hdenied
    rcases Option.eq_none_or_eq_some
      (takePendingMaterialize c.pendingMaterialize visit r.sender.text r.roomId) with
      hnone | ⟨m, hsome⟩
    · rw [handleRoomCreated_of_none hdenied' hroom hnone]
      unfold AlreadyThere
      constructor
      · intro heq
        refine .inr (.inr ⟨hnone, ?_, ?_, ?_⟩)
        · exact (congrArg Steering.currentRoomId heq).symm
        · exact (congrArg Steering.currentSupernodeId heq).symm
        · exact congrArg Steering.groupKeys heq
      · rintro (h | h | ⟨-, hcurrent, hhost, hkeys⟩)
        · exact absurd h hdenied
        · exact absurd h hroom
        · rw [hkeys, ← hcurrent, ← hhost]
          rfl
    · constructor
      · intro heq
        have htable := congrArg Steering.pendingMaterialize heq
        rw [show (c.handleRoomCreated env r visit).steering.pendingMaterialize = m from
          (handleRoomCreated_of_some hdenied' hroom hsome).1] at htable
        exact absurd htable (takePendingMaterialize_ne hsome)
      · rintro (h | h | ⟨hnone, -⟩)
        · exact absurd h hdenied
        · exact absurd h hroom
        · rw [hsome] at hnone
          cases hnone

theorem handleRoomCreated_enters_iff :
    (c.handleRoomCreated env r visit).manager.currentRoomId ≠ c.manager.currentRoomId ↔
      r.denied = false ∧ r.roomId ≠ "" ∧
        takePendingMaterialize c.pendingMaterialize visit r.sender.text r.roomId = none ∧
        c.manager.currentRoomId ≠ r.roomId := by
  by_cases hskip : r.denied = true ∨ r.roomId = ""
  · rw [handleRoomCreated_of_denied hskip]
    refine iff_of_false (fun h => h rfl) ?_
    rintro ⟨hdenied, hroom, -⟩
    rcases hskip with h | h
    · rw [hdenied] at h
      cases h
    · exact hroom h
  · obtain ⟨hdenied, hroom⟩ := not_or.mp hskip
    have hdenied' : r.denied = false := by simpa using hdenied
    rcases Option.eq_none_or_eq_some
      (takePendingMaterialize c.pendingMaterialize visit r.sender.text r.roomId) with
      hnone | ⟨m, hsome⟩
    · have hsteering : (c.handleRoomCreated env r visit).steering = _ :=
        handleRoomCreated_of_none hdenied' hroom hnone
      have hroomNow : (c.handleRoomCreated env r visit).manager.currentRoomId = r.roomId :=
        congrArg Steering.currentRoomId hsteering
      rw [hroomNow]
      exact ⟨fun h => ⟨hdenied', hroom, hnone, h.symm⟩, fun h => h.2.2.2.symm⟩
    · rw [(handleRoomCreated_of_some hdenied' hroom hsome).2]
      refine iff_of_false (fun h => h rfl) ?_
      rintro ⟨-, -, hnone, -⟩
      rw [hsome] at hnone
      cases hnone

theorem steering_eq_iff_of_pending {s : Steering} {set : ExtTreeSet String} :
    { s with pendingPrivateRoomJoins := set } = s ↔ set = s.pendingPrivateRoomJoins := by
  constructor
  · intro heq
    exact congrArg Steering.pendingPrivateRoomJoins heq
  · rintro rfl
    rfl

theorem steering_eq_iff_of_current {s : Steering} {room host : String} {set : ExtTreeSet String} :
    { s with
      currentRoomId := room
      currentSupernodeId := host
      pendingPrivateRoomJoins := set } = s ↔
      room = s.currentRoomId ∧ host = s.currentSupernodeId ∧ set = s.pendingPrivateRoomJoins := by
  constructor
  · intro heq
    exact ⟨congrArg Steering.currentRoomId heq, congrArg Steering.currentSupernodeId heq,
      congrArg Steering.pendingPrivateRoomJoins heq⟩
  · rintro ⟨rfl, rfl, rfl⟩
    rfl

theorem handleRoomInviteResult_steering (hroom : r.roomId ≠ "") :
    (c.handleRoomInviteResult env r).steering =
      let left := (takePendingScopedKey c.pendingPrivateRoomJoins r.sender.text r.roomId).2
      if r.accepted = true then
        if c.awaitsJoin r = true ∨ c.manager.currentRoomId = r.roomId then
          { c.steering with
            currentRoomId := r.roomId
            currentSupernodeId := env.liveRoomRoute r.sender.text
            pendingPrivateRoomJoins := left }
        else { c.steering with pendingPrivateRoomJoins := left }
      else if c.manager.currentRoomId = r.roomId ∧
          (c.manager.currentSupernodeId = r.sender.text ∨ c.manager.currentSupernodeId = "" ∨
            bare c.manager.currentSupernodeId = bare r.sender.text) then
        { c.steering with
          currentRoomId := ""
          currentSupernodeId := ""
          pendingPrivateRoomJoins := left }
      else { c.steering with pendingPrivateRoomJoins := left } := by
  unfold handleRoomInviteResult
  rw [if_neg hroom]
  dsimp only
  rw [takePendingScopedKey_hit]
  cases haccepted : r.accepted with
  | true =>
    rw [if_pos rfl, if_pos rfl]
    by_cases hjoins : c.awaitsJoin r = true ∨ c.manager.currentRoomId = r.roomId
    · rw [if_pos hjoins, if_pos (by simpa [awaitsJoin] using hjoins)]
      unfold ConnectionManager.sendRoomJoin
      dsimp only
      rw [if_pos (.inl rfl)]
      rfl
    · rw [if_neg hjoins, if_neg (by simpa [awaitsJoin] using hjoins)]
      rfl
  | false =>
    rw [if_neg Bool.false_ne_true, if_neg Bool.false_ne_true]
    by_cases hleaves : c.manager.currentRoomId = r.roomId ∧
        (c.manager.currentSupernodeId = r.sender.text ∨ c.manager.currentSupernodeId = "" ∨
          bare c.manager.currentSupernodeId = bare r.sender.text)
    · rw [if_pos hleaves, if_pos (by simpa [or_assoc] using hleaves)]
      rfl
    · rw [if_neg hleaves, if_neg (by simpa [or_assoc] using hleaves)]
      rfl

theorem handleRoomInviteResult_steering_iff :
    (c.handleRoomInviteResult env r).steering = c.steering ↔
      r.roomId = "" ∨
        (c.awaitsJoin r = false ∧
          if r.accepted = true then
            c.manager.currentRoomId = r.roomId →
              c.manager.currentSupernodeId = env.liveRoomRoute r.sender.text
          else
            ¬ (c.manager.currentRoomId = r.roomId ∧
              (c.manager.currentSupernodeId = r.sender.text ∨ c.manager.currentSupernodeId = "" ∨
                bare c.manager.currentSupernodeId = bare r.sender.text))) := by
  by_cases hroom : r.roomId = ""
  · have hsame : c.handleRoomInviteResult env r = c := if_pos hroom
    rw [hsame]
    exact iff_of_true rfl (.inl hroom)
  · have htable : (takePendingScopedKey c.pendingPrivateRoomJoins r.sender.text r.roomId).2 =
        c.steering.pendingPrivateRoomJoins ↔ c.awaitsJoin r = false := takePendingScopedKey_eq_self_iff
    rw [handleRoomInviteResult_steering hroom]
    dsimp only
    rw [or_iff_right hroom]
    split
    · split
      · next hjoins =>
        rw [steering_eq_iff_of_current, htable]
        constructor
        · rintro ⟨-, hhost, hawaits⟩
          exact ⟨hawaits, fun _ => hhost.symm⟩
        · rintro ⟨hawaits, hhost⟩
          have hcurrent : c.manager.currentRoomId = r.roomId := by
            rcases hjoins with h | h
            · rw [hawaits] at h
              cases h
            · exact h
          exact ⟨hcurrent.symm, (hhost hcurrent).symm, hawaits⟩
      · next hjoins =>
        rw [steering_eq_iff_of_pending, htable]
        refine ⟨fun h => ⟨h, fun hcurrent => absurd (.inr hcurrent) hjoins⟩, And.left⟩
    · split
      · next hleaves =>
        rw [steering_eq_iff_of_current]
        refine iff_of_false ?_ (fun h => h.2 hleaves)
        rintro ⟨hempty, -⟩
        exact hroom (hleaves.1.symm.trans hempty.symm)
      · next hleaves =>
        rw [steering_eq_iff_of_pending, htable]
        exact ⟨fun h => ⟨h, hleaves⟩, And.left⟩

theorem rejoinsWithout_eq_self_iff :
    c.rejoinsWithout r.roomId = c.pendingFailoverRejoin ↔
      ∀ s : String, c.pendingFailoverRejoin[s]? ≠ some r.roomId := by
  unfold rejoinsWithout
  constructor
  · intro heq s hs
    have hfilter := congrArg (fun m : ExtTreeMap String String => m[s]?) heq
    rw [ExtTreeMap.getElem?_filter', hs] at hfilter
    simp at hfilter
  · intro hnone
    refine ExtTreeMap.ext_getElem? fun s => ?_
    rw [ExtTreeMap.getElem?_filter']
    cases hroom : c.pendingFailoverRejoin[s]? with
    | none => rfl
    | some room =>
      have hne : room ≠ r.roomId := by
        rintro rfl
        exact hnone s hroom
      simp [Option.filter, hne]

theorem joinRetriesAfter_eq_self_iff :
    c.joinRetriesAfter env r = c.pendingRoomJoinRetries ↔
      (r.reason = "room_absent" →
        c.pendingRoomJoinRetries.lookup (r.sender.text, r.roomId) ≠ none) := by
  unfold joinRetriesAfter
  dsimp only
  split
  · next harmed =>
    refine iff_of_false (fun heq => ?_) (fun h => h harmed.1 harmed.2)
    have hlength := congrArg List.length heq
    simp at hlength
  · next hnot => exact iff_of_true rfl fun hreason hnone => hnot ⟨hreason, hnone⟩

theorem handleJoinResult_steering (hroom : r.roomId ≠ "") (hdenied : r.accepted = false) :
    (c.handleJoinResult env r).steering =
      let rest := { c.steering with
        pendingPrivateRoomJoins :=
          (takePendingScopedKey c.pendingPrivateRoomJoins r.sender.text r.roomId).2
        pendingRoomJoinRetries := c.joinRetriesAfter env r
        pendingFailoverRejoin := c.rejoinsWithout r.roomId }
      if c.manager.currentRoomId = r.roomId ∧
          (c.manager.currentSupernodeId = r.sender.text ∨ c.manager.currentSupernodeId = "") then
        { rest with currentRoomId := "", currentSupernodeId := "" }
      else rest := by
  unfold handleJoinResult
  rw [if_neg (by simp [hroom, hdenied])]
  dsimp only
  by_cases hleaves : c.manager.currentRoomId = r.roomId ∧
      (c.manager.currentSupernodeId = r.sender.text ∨ c.manager.currentSupernodeId = "")
  · rw [if_pos hleaves, if_pos (by simpa using hleaves)]
    rfl
  · rw [if_neg hleaves, if_neg (by simpa using hleaves)]
    rfl

theorem handleJoinResult_steering_iff :
    (c.handleJoinResult env r).steering = c.steering ↔
      r.roomId = "" ∨ r.accepted = true ∨
        (c.awaitsJoin r = false ∧ c.NothingRetried r ∧
          ¬ (c.manager.currentRoomId = r.roomId ∧
            (c.manager.currentSupernodeId = r.sender.text ∨ c.manager.currentSupernodeId = ""))) := by
  by_cases hskip : r.roomId = "" ∨ r.accepted = true
  · have hsame : c.handleJoinResult env r = c := if_pos (by simpa using hskip)
    rw [hsame]
    exact iff_of_true rfl (hskip.imp id .inl)
  · obtain ⟨hroom, haccepted⟩ := not_or.mp hskip
    have htable : (takePendingScopedKey c.pendingPrivateRoomJoins r.sender.text r.roomId).2 =
        c.pendingPrivateRoomJoins ↔ c.awaitsJoin r = false := takePendingScopedKey_eq_self_iff
    have hretried : c.joinRetriesAfter env r = c.pendingRoomJoinRetries ∧
        c.rejoinsWithout r.roomId = c.pendingFailoverRejoin ↔ c.NothingRetried r :=
      and_congr joinRetriesAfter_eq_self_iff rejoinsWithout_eq_self_iff
    rw [handleJoinResult_steering hroom (by simpa using haccepted)]
    dsimp only
    rw [or_iff_right hroom, or_iff_right haccepted]
    split
    · next hleaves =>
      refine iff_of_false (fun heq => ?_) (fun h => h.2.2 hleaves)
      have hempty := congrArg Steering.currentRoomId heq
      exact hroom (hleaves.1.symm.trans hempty.symm)
    · next hleaves =>
      rw [and_iff_left hleaves, ← htable, ← hretried]
      simp only [steering, Steering.mk.injEq, true_and, and_true]

theorem handleReply_steering_iff :
    (c.handleReply env r visit).steering = c.steering ↔ c.Inert env r visit := by
  unfold handleReply Inert
  cases hkind : r.kind
  · exact handleRoomCreated_steering_iff
  · exact handleRoomInviteResult_steering_iff
  · exact handleJoinResult_steering_iff

theorem handleReply_enters_iff :
    (r.kind = .roomCreated ∧
        (c.handleReply env r visit).manager.currentRoomId ≠ c.manager.currentRoomId) ↔
      c.EntersCreated r visit := by
  unfold EntersCreated
  refine and_congr_right fun hkind => ?_
  unfold handleReply
  rw [hkind]
  exact handleRoomCreated_enters_iff

end RoomClient

/-! ## Other messages -/

theorem Keying.seated {c : ConnectionManager} {o : Outcome} (h : Keying c o) : Seated c o.1 := by
  obtain ⟨keys, acks, heq⟩ := h.state
  exact ⟨by rw [heq], by rw [heq], h.keeps⟩

namespace ConnectionManager

variable {P : Platform} {env : Env} {c c' : ConnectionManager} {msg : SignalingMessage}

/-- Taking in a list of members leaves the client where the step before put it. -/
theorem seated_syncRoomMembership {supernodeId roomId : String} {members : List String} :
    Seated c (c.syncRoomMembership P env supernodeId roomId members).1 := by
  have hkeying := (@syncRoomMembership_keying P env c roomId supernodeId members).seated
  exact ⟨hkeying.room, hkeying.host, hkeying.keys⟩

theorem handleSfuMembers_seated_iff :
    Seated c (c.handleSfuMembers P env msg).1 ↔
      ¬ (c.failoverPendingRoom = some (roomOf msg) ∧
        ¬ (c.currentRoomId = roomOf msg ∧ c.currentSupernodeId = msg.sender.text)) := by
  have hsync : Seated (c.confirmFailover msg (roomOf msg)) (c.handleSfuMembers P env msg).1 :=
    seated_syncRoomMembership
  by_cases hawaited : c.failoverPendingRoom = some (roomOf msg)
  · have hconfirmed : c.confirmFailover msg (roomOf msg) = _ := if_pos hawaited
    rw [hconfirmed] at hsync
    rw [and_iff_right hawaited, not_not]
    constructor
    · intro h
      exact ⟨h.room.symm.trans hsync.room, h.host.symm.trans hsync.host⟩
    · rintro ⟨hroom, hhost⟩
      exact ⟨hsync.room.trans hroom.symm, hsync.host.trans hhost.symm, hsync.keys⟩
  · have hsame : c.confirmFailover msg (roomOf msg) = c := if_neg hawaited
    rw [hsame] at hsync
    exact iff_of_true hsync fun h => hawaited h.1

theorem seated_refl : Seated c c := ⟨rfl, rfl, fun _ h => h⟩

theorem handleHandleUpdate_seated : Seated c (c.handleHandleUpdate env msg) := by
  simp only [handleHandleUpdate]
  split
  · exact seated_refl
  · split
    · exact seated_refl
    · exact ⟨rfl, rfl, fun _ h => h⟩

theorem handleInviteHandshakeAccept_seated : Seated c (c.handleInviteHandshakeAccept env msg) := by
  simp only [handleInviteHandshakeAccept]
  split
  · exact seated_refl
  · split
    · exact ⟨rfl, rfl, fun _ h => h⟩
    · exact ⟨rfl, rfl, fun _ h => h⟩

theorem dispatch_seated_iff (hcreated : msg.msgType ≠ .sfuRoomCreated) :
    Seated c (c.dispatch P env msg).1 ↔
      ¬ (msg.msgType = .sfuMembers ∧ c.failoverPendingRoom = some (roomOf msg) ∧
        ¬ (c.currentRoomId = roomOf msg ∧ c.currentSupernodeId = msg.sender.text)) := by
  unfold dispatch
  cases htype : msg.msgType with
  | sfuRoomCreated => exact absurd htype hcreated
  | sfuMembers =>
    rw [and_iff_right rfl]
    exact handleSfuMembers_seated_iff
  | peerTraffic =>
    refine iff_of_true ?_ (by simp)
    dsimp only
    split
    · exact seated_refl
    · exact seated_refl
  | handleUpdate => exact iff_of_true handleHandleUpdate_seated (by simp)
  | sfuGroupKey => exact iff_of_true handleSfuGroupKey_keying.seated (by simp)
  | sfuGroupKeyAck => exact iff_of_true handleSfuGroupKeyAck_keying.seated (by simp)
  | sfuPeerJoined => exact iff_of_true seated_syncRoomMembership (by simp)
  | sfuPeerLeft => exact iff_of_true seated_syncRoomMembership (by simp)
  | sfuChat => exact iff_of_true handleSfuChat_keying.seated (by simp)
  | sfuAudio => exact iff_of_true handleSfuAudio_keying.seated (by simp)
  | inviteHandshakeInit => exact iff_of_true ⟨rfl, rfl, fun _ h => h⟩ (by simp)
  | inviteHandshakeAccept => exact iff_of_true handleInviteHandshakeAccept_seated (by simp)
  | encryptedSignal => exact iff_of_true seated_refl (by simp)
  | other => exact iff_of_true seated_refl (by simp)

theorem sender_of_dispatched {m : SignalingMessage} (h : dispatched env msg = some m) :
    m.sender = msg.sender := by
  unfold dispatched at h
  split at h
  · cases h
  · split at h
    · rw [Option.some.inj h]
    · split at h
      · cases h
      · split at h
        · cases h
        · next hsame =>
          rw [← Option.some.inj h]
          by_contra hne
          exact hsame (.inr (.inl hne))

theorem handleInbound_seated_iff (hcreated : (Event.inbound env msg).isRoomCreated = false) :
    Seated c (c.handleInbound P env msg).1 ↔ ¬ c.MovedBy env msg := by
  unfold handleInbound MovedBy
  cases hm : dispatched env msg with
  | none => exact iff_of_true seated_refl (by simp)
  | some m =>
    have htype : m.msgType ≠ .sfuRoomCreated := by
      simpa [Event.isRoomCreated, hm] using hcreated
    dsimp only
    rw [dispatch_seated_iff htype, sender_of_dispatched hm]
    simp only [Option.some.injEq, exists_eq_left']

end ConnectionManager

/-! ## Runs -/

namespace SteeringLog

/-- What a message does to the session is the doing of a hosting supernode: replies
change nothing of it otherwise, and no other message moves the client or makes it
forget a room's keys. A created room becomes current only if the user had asked for it. -/
structure SteeredByHosts (P : Platform) (L : SteeringLog) (e : SteeringEvent) : Prop where
  replies : ∀ env visit r, e = .reply env visit r →
    (L.step P e).client.steering ≠ L.client.steering → L.client.HoldsSessionWith r.sender
  creates : ∀ env visit r, e = .reply env visit r → r.kind = .roomCreated →
    (L.step P e).client.manager.currentRoomId ≠ L.client.manager.currentRoomId →
      ∃ create ∈ L.creates, answeredBy r create = true
  others : ∀ env msg, e = .other (.inbound env msg) →
    ¬ Seated L.client.manager (L.step P e).client.manager → L.client.HoldsSessionWith msg.sender

/-- A reply comes from a supernode that a session is held with, or matches nothing;
a created room that it would enter was asked for; and a list of members that moves the
client comes from a supernode that a session is held with. -/
structure MessagesGuarded (L : SteeringLog) (e : SteeringEvent) : Prop where
  replies : ∀ env visit r, e = .reply env visit r →
    L.client.HoldsSessionWith r.sender ∨ L.client.Inert env r visit
  creates : ∀ env visit r, e = .reply env visit r → L.client.EntersCreated r visit →
    ∃ create ∈ L.creates, answeredBy r create = true
  others : ∀ env msg, e = .other (.inbound env msg) → L.client.manager.MovedBy env msg →
    L.client.HoldsSessionWith msg.sender

variable (P : Platform) (L : SteeringLog) {env : Env} {visit : Nat} {r : RoomReply}
  {msg : SignalingMessage}

theorem step_reply_iff : (L.step P (.reply env visit r)).client.steering ≠ L.client.steering ↔
    ¬ L.client.Inert env r visit :=
  not_congr RoomClient.handleReply_steering_iff

/-- A message that is no reply leaves the client where it is unless it moves it. -/
theorem step_other_iff :
    ¬ Seated L.client.manager (L.step P (.other (.inbound env msg))).client.manager ↔
      L.client.manager.MovedBy env msg := by
  unfold step
  dsimp only
  split
  · next hcreated =>
    refine iff_of_false (not_not.mpr ConnectionManager.seated_refl) ?_
    rintro ⟨list, hlist, htype, -⟩
    simp [Event.isRoomCreated, hlist, htype] at hcreated
  · next hcreated =>
    have hseated := @ConnectionManager.handleInbound_seated_iff P env L.client.manager msg
      (by simpa using hcreated)
    exact (not_congr hseated).trans not_not

theorem steeredByHosts_iff (e : SteeringEvent) :
    L.SteeredByHosts P e ↔ L.MessagesGuarded e := by
  constructor
  · intro h
    refine ⟨fun env visit r he => ?_, fun env visit r he hin => ?_, fun env msg he hmoved => ?_⟩
    · subst he
      by_cases hinert : L.client.Inert env r visit
      · exact .inr hinert
      · exact .inl (h.replies env visit r rfl ((L.step_reply_iff P).mpr hinert))
    · subst he
      obtain ⟨hkind, henters⟩ := RoomClient.handleReply_enters_iff.mpr hin
      exact h.creates env visit r rfl hkind henters
    · subst he
      exact h.others env msg rfl ((L.step_other_iff P).mpr hmoved)
  · intro h
    refine ⟨fun env visit r he hne => ?_, fun env visit r he hkind hne => ?_,
      fun env msg he hmoved => ?_⟩
    · subst he
      exact (h.replies env visit r rfl).resolve_right ((L.step_reply_iff P).mp hne)
    · subst he
      exact h.creates env visit r rfl (RoomClient.handleReply_enters_iff.mp ⟨hkind, hne⟩)
    · subst he
      exact h.others env msg rfl ((L.step_other_iff P).mp hmoved)

/-- In a run, hosting supernodes and the user steer the session exactly when
every message is guarded. -/
theorem along_steeredByHosts_iff (es : List SteeringEvent) :
    Along (step P) (SteeredByHosts P) L es ↔
      Along (step P) (fun L e => L.MessagesGuarded e) L es :=
  along_congr_inv (fun _ => True) trivial (fun _ _ _ => trivial) fun L e _ => L.steeredByHosts_iff P e

end SteeringLog

/-! ## A forged reply -/

/-- A peer says that the room the client is in was created. -/
def forgedCreated : RoomReply where
  kind := .roomCreated
  sender := bob
  payload := .obj [("room_id", .str "r1")]

/-- The user is in a room on one supernode, and a peer that is none moves the
client. -/
theorem forged_created_steers :
    ¬ Along (SteeringLog.step Platform.symbolic) (SteeringLog.SteeredByHosts Platform.symbolic)
      ⟨.start alice.text ⟨∅⟩, []⟩
      [.other (.connectSupernode "SN"), .other (.joinRoom .permissive "SN" "r1"),
        .reply .permissive 0 forgedCreated] := by
  rintro ⟨-, -, h, -⟩
  obtain ⟨s, hs, hbare⟩ := h.replies _ _ _ rfl fun heq => by
    have hhost := congrArg Steering.currentSupernodeId heq
    revert hhost
    decide +kernel
  have hsn : s = "SN" := by
    have hmem : s ∈ (∅ : ExtTreeSet String).insert "SN" := hs
    rcases ExtTreeSet.mem_insert.mp hmem with h | h
    · exact (compare_eq_iff_eq.mp h).symm
    · exact absurd h ExtTreeSet.not_mem_empty
  subst hsn
  revert hbare
  decide

end ConquerD.Client
