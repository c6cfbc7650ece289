import ConquerD.Client.Sessions
import ConquerD.Client.Verify.RoomKeys

/-!
# What an event does to a room's key

Every event that brings no key of somebody else's moves each room in one of a
few ways: the key in use is gone, or it is one the event drew, or it stays, and
then the keyer has lost no member. Keys are sealed to members only.
-/

namespace ConquerD.Client

open Std (ExtTreeMap ExtTreeSet)
open Lib.Rosters Lib.Run Wire

/-! ## The key in use -/

namespace SenderKeysGroup

variable {g : SenderKeysGroup} {convId roomId : String}

/-- The key of the current epoch of a conversation, if there is one. -/
def inUse (g : SenderKeysGroup) (roomId : String) : Option EpochKey :=
  g.groups[roomId]?.bind fun st => st.keys[st.current]?

theorem getElem?_capRetained {keys : ExtTreeMap Nat EpochKey} {epoch : Nat} {key : EpochKey}
    (h : (GroupState.capRetained keys)[epoch]? = some key) : keys[epoch]? = some key := by
  unfold GroupState.capRetained at h
  generalize keys.size - maxRetainedEpochs = n at h
  induction n generalizing keys with
  | zero => exact h
  | succ n ih =>
    have hdrop := ih h
    unfold GroupState.dropOldest at hdrop
    split at hdrop
    · exact hdrop
    · rw [ExtTreeMap.getElem?_erase] at hdrop
      split at hdrop
      · cases hdrop
      · exact hdrop

theorem getElem?_current_install {st : GroupState} {now epoch : Nat} {key key' : EpochKey}
    (h : (st.install now epoch key).keys[(st.install now epoch key).current]? = some key') :
    key' = key := by
  have hkey : (st.keys.insert epoch key)[epoch]? = some key' := getElem?_capRetained h
  rw [ExtTreeMap.getElem?_insert_self] at hkey
  exact (Option.some.inj hkey).symm

/-- An operation on one conversation that leaves it with no key in use, with the
given key, or with the key it had. -/
def Moves (g g' : SenderKeysGroup) (key : EpochKey) : Prop :=
  ∀ roomId, g'.inUse roomId = none ∨ g'.inUse roomId = some key ∨ g'.inUse roomId = g.inUse roomId

theorem Moves.refl (g : SenderKeysGroup) (key : EpochKey) : g.Moves g key :=
  fun _ => .inr (.inr rfl)

theorem Moves.trans {g g' g'' : SenderKeysGroup} {key : EpochKey} (h : g.Moves g' key)
    (h' : g'.Moves g'' key) : g.Moves g'' key := by
  intro roomId
  rcases h' roomId with hnone | hkey | hsame
  · exact .inl hnone
  · exact .inr (.inl hkey)
  · rw [hsame]
    exact h roomId

theorem inUse_insert_of_ne {st : GroupState} (h : convId ≠ roomId) :
    inUse ⟨g.groups.insert convId st⟩ roomId = g.inUse roomId := by
  simp [inUse, ExtTreeMap.getElem?_insert, h]

theorem inUse_insert_install {st : GroupState} {now epoch : Nat} {key : EpochKey} :
    inUse ⟨g.groups.insert convId (st.install now epoch key)⟩ convId = none ∨
    inUse ⟨g.groups.insert convId (st.install now epoch key)⟩ convId = some key := by
  simp only [inUse, ExtTreeMap.getElem?_insert_self, Option.bind_some]
  cases hkey : (st.install now epoch key).keys[(st.install now epoch key).current]? with
  | none => exact .inl rfl
  | some key' => exact .inr (congrArg some (getElem?_current_install hkey))

theorem moves_insert_install {st : GroupState} {now epoch : Nat} {key : EpochKey} :
    g.Moves ⟨g.groups.insert convId (st.install now epoch key)⟩ key := by
  intro roomId
  by_cases hr : convId = roomId
  · subst hr
    rcases inUse_insert_install with hnone | hkey
    · exact .inl hnone
    · exact .inr (.inl hkey)
  · exact .inr (.inr (inUse_insert_of_ne hr))

theorem newOwnerEpoch_eq (g : SenderKeysGroup) (convId : String) (now : Nat) (key : EpochKey) :
    ∃ st epoch, (g.newOwnerEpoch convId now key).1 =
      ⟨g.groups.insert convId (GroupState.install st now epoch key)⟩ :=
  ⟨_, _, rfl⟩

theorem rotate_eq (g : SenderKeysGroup) (convId : String) (now : Nat) (key : EpochKey) :
    ∃ st epoch, (g.rotate convId now key).1 =
      ⟨g.groups.insert convId (GroupState.install st now epoch key)⟩ := by
  unfold rotate
  cases hst : g.groups[convId]? with
  | none => exact g.newOwnerEpoch_eq convId now key
  | some st => exact ⟨st, st.nextEpoch, rfl⟩

theorem inUse_noteObservedEpoch {epoch : Nat} :
    (g.noteObservedEpoch convId epoch).inUse roomId = g.inUse roomId := by
  unfold noteObservedEpoch
  by_cases hr : convId = roomId
  · subst hr
    simp only [inUse, ExtTreeMap.getElem?_insert_self, Option.bind_some]
    cases hst : g.groups[convId]? with
    | none => simp [GroupState.noteSeen, GroupState.default]
    | some st => rfl
  · exact inUse_insert_of_ne hr

theorem inUse_forget_self : (g.forget roomId).inUse roomId = none := by
  simp [inUse, forget]

theorem inUse_forget_of_ne (h : convId ≠ roomId) :
    (g.forget convId).inUse roomId = g.inUse roomId := by
  simp [inUse, forget, ExtTreeMap.getElem?_erase, h]

end SenderKeysGroup

namespace ConnectionManager

variable {P : Platform} {env : Env} {c c' : ConnectionManager} {roomId : String}

theorem sealKey_eq : c.sealKey P roomId = c.groupKeys.inUse roomId := by
  unfold sealKey SenderKeysGroup.hasRealKey SenderKeysGroup.inUse
  cases hst : c.groupKeys.groups[roomId]? with
  | none => simp
  | some st =>
    by_cases hkeys : st.hasKeys = true
    · simp [SenderKeysGroup.epochKey, SenderKeysGroup.currentEpoch, hst, Option.filter, hkeys]
    · have hempty : st.keys = ∅ := by simpa [GroupState.hasKeys] using hkeys
      simp [hkeys, hempty]

/-! ## What keying does to the key in use -/

@[simp] theorem groupKeys_distributeGroupKey {epoch : Nat} {key : EpochKey}
    {members : List String} :
    (c.distributeGroupKey env roomId epoch key members).1.groupKeys = c.groupKeys := by
  have hfold : ∀ (members : List String) (o : Outcome),
      (members.foldl (fun o member =>
        if env.canSealTo member then
          (o.1.notePending env roomId member epoch, o.2 ++ [.groupKey member roomId epoch key])
        else o) o).1.groupKeys = o.1.groupKeys := by
    intro members
    induction members with
    | nil => exact fun _ => rfl
    | cons m members ih =>
      intro o
      rw [List.foldl_cons, ih]
      split
      · rfl
      · rfl
  exact hfold members (c, [])

/-- What the keyer does after a change of members. Without a new key, nobody
has left a room that has one. -/
theorem groupKeys_keyRoom {unionOld unionNew : ExtTreeSet String} :
    (∃ st epoch, (c.keyRoom P env roomId unionOld unionNew).1.groupKeys =
      ⟨c.groupKeys.groups.insert roomId (GroupState.install st env.nowMs epoch env.randomKey)⟩) ∨
    ((c.keyRoom P env roomId unionOld unionNew).1.groupKeys = c.groupKeys ∧
      (c.groupKeys.hasRealKey roomId = true → ∀ m ∈ unionOld, m ∈ unionNew)) := by
  simp only [keyRoom]
  split
  · left
    rw [groupKeys_distributeGroupKey]
    exact c.groupKeys.newOwnerEpoch_eq roomId env.nowMs env.randomKey
  · split
    · left
      rw [groupKeys_distributeGroupKey]
      exact c.groupKeys.rotate_eq roomId env.nowMs env.randomKey
    · rename_i hnot
      right
      refine ⟨?_, ?_⟩
      · split
        · split
          · rfl
          · exact groupKeys_distributeGroupKey
        · rfl
      · intro hreal m hm
        by_contra hgone
        refine hnot ?_
        simp only [hreal, Bool.true_and, List.any_eq_true, Bool.not_eq_eq_eq_not, Bool.not_true]
        refine ⟨m, ExtTreeSet.mem_toList.mpr hm, Bool.eq_false_iff.mpr fun hin => hgone ?_⟩
        exact ExtTreeSet.mem_iff_contains.mpr hin

theorem moves_rekeyRoomIfBehind :
    c.groupKeys.Moves (c.rekeyRoomIfBehind env roomId).1.groupKeys env.randomKey := by
  simp only [rekeyRoomIfBehind]
  split
  · exact .refl _ _
  · split
    · exact .refl _ _
    · split
      · exact .refl _ _
      · obtain ⟨st, epoch, heq⟩ := c.groupKeys.rotate_eq roomId env.nowMs env.randomKey
        rw [groupKeys_distributeGroupKey]
        change c.groupKeys.Moves (c.groupKeys.rotate roomId env.nowMs env.randomKey).1 _
        rw [heq]
        exact SenderKeysGroup.moves_insert_install

@[simp] theorem groupKeys_resealToLaggingMember {sender : String} {senderEpoch : Nat} :
    (c.resealToLaggingMember P env roomId sender senderEpoch).1.groupKeys = c.groupKeys := by
  simp only [resealToLaggingMember]
  repeat' split
  all_goals first
    | rfl
    | exact groupKeys_distributeGroupKey

variable {msg : SignalingMessage}

theorem moves_noteUnopenedFrame {epoch : Nat} :
    c.groupKeys.Moves (c.noteUnopenedFrame P env msg roomId epoch).1.groupKeys env.randomKey := by
  simp only [noteUnopenedFrame, Outcome.andThen_fst, groupKeys_resealToLaggingMember]
  refine SenderKeysGroup.Moves.trans ?_ moves_rekeyRoomIfBehind
  exact fun _ => .inr (.inr SenderKeysGroup.inUse_noteObservedEpoch)

theorem moves_handleSfuChat :
    c.groupKeys.Moves (c.handleSfuChat P env msg).1.groupKeys env.randomKey := by
  simp only [handleSfuChat]
  split
  · exact .refl _ _
  · split
    · exact .refl _ _
    · split
      · exact .refl _ _
      · split
        · rw [groupKeys_resealToLaggingMember]
          exact .refl _ _
        · exact moves_noteUnopenedFrame

theorem moves_handleSfuAudio :
    c.groupKeys.Moves (c.handleSfuAudio P env msg).1.groupKeys env.randomKey := by
  simp only [handleSfuAudio]
  split
  · exact .refl _ _
  · split
    · exact .refl _ _
    · split
      · exact .refl _ _
      · split
        · exact .refl _ _
        · split
          · rw [groupKeys_resealToLaggingMember]
            exact .refl _ _
          · exact moves_noteUnopenedFrame

theorem groupKeys_retryPendingGroupKeys :
    (c.retryPendingGroupKeys P env).1.groupKeys = c.groupKeys := by
  have hfold : ∀ (entries : List ((String × String) × PendingGroupKeyAck)) (o : Outcome),
      (entries.foldl (retryOne P env) o).1.groupKeys = o.1.groupKeys := by
    intro entries
    induction entries with
    | nil => exact fun _ => rfl
    | cons entry entries ih =>
      intro o
      rw [List.foldl_cons, ih]
      simp only [retryOne]
      repeat' split
      all_goals first
        | rfl
        | exact groupKeys_distributeGroupKey
  exact hfold _ _

/-! ## What an event does to a room -/

/-- The members of a room, as far as any supernode told. -/
abbrev union (c : ConnectionManager) (roomId : String) : ExtTreeSet String :=
  unionMembersForRoom c.roomGroupMembers roomId

/-- What a step that may draw a random key does to a room. Keys are sealed to
members only. The key in use is gone, or the one drawn, or the one before, and
then nobody left that the keyer would have minted a new one for. -/
structure RoomEffect (P : Platform) (draw : Option EpochKey) (c : ConnectionManager) (o : Outcome)
    (roomId : String) : Prop where
  seals : ∀ {member : String} {epoch : Nat} {k : EpochKey},
    .groupKey member roomId epoch k ∈ o.2 → member ∈ o.1.union roomId
  moves : o.1.sealKey P roomId = none ∨ (∃ key ∈ draw, o.1.sealKey P roomId = some key) ∨
    (o.1.sealKey P roomId = c.sealKey P roomId ∧ (o.1.keysRoom roomId = true →
      c.keysRoom roomId = true ∧ ∀ m ∈ c.union roomId, m ∈ o.1.union roomId))

theorem roomEffect_of_union {draw : Option EpochKey} {o : Outcome} (hid : o.1.publicId = c.publicId)
    (hunion : o.1.union roomId = c.union roomId)
    (hseals : ∀ {member : String} {epoch : Nat} {k : EpochKey},
      .groupKey member roomId epoch k ∈ o.2 → member ∈ c.union roomId)
    (hmoves : o.1.sealKey P roomId = none ∨ (∃ key ∈ draw, o.1.sealKey P roomId = some key) ∨
      o.1.sealKey P roomId = c.sealKey P roomId) : RoomEffect P draw c o roomId := by
  refine ⟨fun hmem => hunion ▸ hseals hmem, ?_⟩
  rcases hmoves with hnone | hkey | hsame
  · exact .inl hnone
  · exact .inr (.inl hkey)
  · refine .inr (.inr ⟨hsame, fun hkeys => ⟨?_, fun m hm => hunion ▸ hm⟩⟩)
    rwa [keysRoom, unionList, hid, show unionMembersForRoom o.1.roomGroupMembers roomId = _ from
      hunion] at hkeys

theorem roomEffect_of_keying {key : EpochKey} {o : Outcome} (h : Keying c o)
    (hmoves : c.groupKeys.Moves o.1.groupKeys key) : RoomEffect P (some key) c o roomId := by
  have hid : o.1.publicId = c.publicId := by
    obtain ⟨keys, acks, heq⟩ := h.state
    rw [heq]
  refine roomEffect_of_union hid ?_ h.seals ?_
  · rw [union, h.roomGroupMembers]
  · rw [sealKey_eq, sealKey_eq]
    rcases hmoves roomId with hnone | hkey | hsame
    · exact .inl hnone
    · exact .inr (.inl ⟨key, rfl, hkey⟩)
    · exact .inr (.inr hsame)

/-- Every snapshot is filed under a supernode and a room without a colon. -/
def Filed (snapshots : Roster String String) : Prop :=
  ∀ (key : String) (set : ExtTreeSet String), snapshots[key]? = some set →
    ∃ (s : PublicId) (r : String), key = roomScopeKey s.text r ∧ ':' ∉ r.toList

theorem union_insert_of_ne {snapshots : Roster String String} {s : PublicId} {r : String}
    {set : ExtTreeSet String} (hr : ':' ∉ r.toList) (hne : r ≠ roomId) :
    unionMembersForRoom (snapshots.insert (roomScopeKey s.text r) set) roomId =
      unionMembersForRoom snapshots roomId := by
  ext m
  rw [mem_unionMembersForRoom, mem_unionMembersForRoom]
  refine exists_congr fun key => exists_congr fun set' => ?_
  rw [ExtTreeMap.getElem?_insert]
  split
  · rename_i heq
    rw [← Std.compare_eq_iff_eq.mp heq]
    have hends : ¬ endsWithRoom (roomScopeKey s.text r) roomId = true :=
      fun hends => hne (eq_of_endsWithRoom hr hends).symm
    simp [hends]
  · rfl

theorem room_eq_of_roomScopeKey {s : PublicId} {s' r r' : String} (hr : ':' ∉ r.toList)
    (h : roomScopeKey s' r' = roomScopeKey s.text r) : r' = r := by
  have hs : ':' ∉ s.text.toList := s.notMem_text (by decide) (by decide)
  have hlist := congrArg String.toList h
  rw [toList_roomScopeKey, toList_roomScopeKey] at hlist
  have hr' : ':' ∉ r'.toList := by
    have hcount := congrArg (List.count ':') hlist
    simp only [List.count_append, List.count_cons_self, List.count_eq_zero_of_not_mem hs,
      List.count_eq_zero_of_not_mem hr] at hcount
    exact List.count_eq_zero.mp (by omega)
  exact (roomScopeKey_inj hr' hr h).2

theorem union_erase_of_ne {snapshots : Roster String String} {s r : String}
    (hfiled : Filed snapshots) (hne : r ≠ roomId) :
    unionMembersForRoom (snapshots.erase (roomScopeKey s r)) roomId =
      unionMembersForRoom snapshots roomId := by
  ext m
  rw [mem_unionMembersForRoom, mem_unionMembersForRoom]
  refine exists_congr fun key => exists_congr fun set => ?_
  rw [ExtTreeMap.getElem?_erase]
  split
  · rename_i heq
    have hkey := Std.compare_eq_iff_eq.mp heq
    refine ⟨fun h => absurd h.1 (by simp), ?_⟩
    rintro ⟨hset, hends, -⟩
    obtain ⟨s', r', hfile, hr'⟩ := hfiled key set hset
    rw [hfile] at hends
    exact absurd ((room_eq_of_roomScopeKey hr' (hkey.trans hfile)).trans
      (eq_of_endsWithRoom hr' hends).symm) hne
  · rfl

theorem keysRoom_of_subset (hid : c'.publicId = c.publicId)
    (hsub : ∀ m ∈ c.union roomId, m ∈ c'.union roomId) (h : c'.keysRoom roomId = true) :
    c.keysRoom roomId = true := by
  unfold keysRoom isElectedKeyer at h ⊢
  rw [hid] at h
  simp only [Bool.and_eq_true, Bool.not_eq_eq_eq_not, Bool.not_true, List.any_eq_false] at h ⊢
  refine ⟨by simp, fun m hm => ?_⟩
  rcases List.mem_append.mp hm with hm | hm
  · exact h.2 m (List.mem_append.mpr (.inl (mem_unionList.mpr (hsub m (mem_unionList.mp hm)))))
  · exact h.2 m (List.mem_append.mpr (.inr hm))

abbrev withSnapshot (c : ConnectionManager) (supernodeId r : String) (members : List String) :
    ConnectionManager :=
  { c with
    roomGroupMembers := c.roomGroupMembers.insert (roomScopeKey supernodeId r)
      (ExtTreeSet.ofList (members.filter (· ≠ c.publicId))) }

theorem groupKeys_syncRoomMembership {s r : String} {members : List String} :
    ((c.withSnapshot s r members).keysRoom r = false ∧
      (c.syncRoomMembership P env s r members).1.groupKeys = c.groupKeys) ∨
    (∃ st epoch, (c.syncRoomMembership P env s r members).1.groupKeys =
      ⟨c.groupKeys.groups.insert r (GroupState.install st env.nowMs epoch env.randomKey)⟩) ∨
    ((c.syncRoomMembership P env s r members).1.groupKeys = c.groupKeys ∧
      (c.groupKeys.hasRealKey r = true →
        ∀ m ∈ c.union r, m ∈ (c.withSnapshot s r members).union r)) := by
  by_cases hkeys : (c.withSnapshot s r members).keysRoom r = true
  · right
    simp only [syncRoomMembership, hkeys, Bool.not_true, Bool.false_eq_true, if_false]
    exact groupKeys_keyRoom
  · left
    have hnot := Bool.eq_false_iff.mpr hkeys
    refine ⟨hnot, ?_⟩
    simp only [syncRoomMembership, hnot, Bool.not_false, if_true]
    rfl

theorem sealKey_of_not_hasRealKey (h : ¬ c.groupKeys.hasRealKey roomId = true) :
    c.sealKey P roomId = none :=
  if_neg h

theorem roomEffect_syncRoomMembership {s : PublicId} {r : String} {members : List String}
    (hr : ':' ∉ r.toList) :
    RoomEffect P (some env.randomKey) c (c.syncRoomMembership P env s.text r members) roomId := by
  have hkeying : Keying (c.withSnapshot s.text r members)
      (c.syncRoomMembership P env s.text r members) := syncRoomMembership_keying
  have hgroups := @groupKeys_syncRoomMembership P env c s.text r members
  have hmembers := hkeying.roomGroupMembers
  have hid : (c.syncRoomMembership P env s.text r members).1.publicId = c.publicId := by
    obtain ⟨keys, acks, heq⟩ := hkeying.state
    rw [heq]
  by_cases hne : r ≠ roomId
  · -- another room: neither its members nor its key change
    have hunion : (c.syncRoomMembership P env s.text r members).1.union roomId =
        c.union roomId := by
      rw [union, hmembers]
      exact union_insert_of_ne hr hne
    refine roomEffect_of_union hid hunion ?_ (.inr (.inr ?_))
    · intro member epoch k hmem
      have hin := hkeying.seals hmem
      rwa [← hmembers, show unionMembersForRoom _ roomId = _ from hunion] at hin
    · rw [sealKey_eq, sealKey_eq]
      rcases hgroups with ⟨-, heq⟩ | ⟨st, epoch, heq⟩ | ⟨heq, -⟩
      · rw [heq]
      · rw [heq]
        exact SenderKeysGroup.inUse_insert_of_ne hne
      · rw [heq]
  · have hroom : r = roomId := not_not.mp hne
    subst hroom
    have hunion : (c.syncRoomMembership P env s.text r members).1.union r =
        (c.withSnapshot s.text r members).union r := by
      rw [union, hmembers]
    refine ⟨fun hmem => hunion ▸ hkeying.seals hmem, ?_⟩
    simp only [sealKey_eq]
    rcases hgroups with ⟨hnot, heq⟩ | ⟨st, epoch, heq⟩ | ⟨heq, hstay⟩
    · refine .inr (.inr ⟨by rw [heq], fun hkeys => ?_⟩)
      rw [keysRoom, unionList, hmembers, hid] at hkeys
      exact absurd (hkeys.symm.trans hnot) Bool.true_eq_false.mp
    · rw [heq]
      rcases SenderKeysGroup.inUse_insert_install with hnone | hkey
      · exact .inl hnone
      · exact .inr (.inl ⟨env.randomKey, rfl, hkey⟩)
    · by_cases hreal : c.groupKeys.hasRealKey r = true
      · refine .inr (.inr ⟨by rw [heq], fun hkeys => ?_⟩)
        have hsub : ∀ m ∈ c.union r, m ∈ (c.syncRoomMembership P env s.text r members).1.union r :=
          fun m hm => hunion ▸ hstay hreal m hm
        exact ⟨keysRoom_of_subset hid hsub hkeys, hsub⟩
      · left
        rw [heq, ← @sealKey_eq P]
        exact sealKey_of_not_hasRealKey hreal

structure Aside (c : ConnectionManager) (o : Outcome) : Prop where
  publicId : o.1.publicId = c.publicId
  members : o.1.roomGroupMembers = c.roomGroupMembers
  keys : o.1.groupKeys = c.groupKeys
  out : ∀ member roomId epoch key, .groupKey member roomId epoch key ∉ o.2

theorem Aside.nothing (c : ConnectionManager) : Aside c (c, []) :=
  ⟨rfl, rfl, rfl, by simp⟩

theorem Aside.andThen {o : Outcome} {f : ConnectionManager → Outcome} (h : Aside c o)
    (hf : Aside o.1 (f o.1)) : Aside c (o.andThen f) := by
  refine ⟨hf.publicId.trans h.publicId, hf.members.trans h.members, hf.keys.trans h.keys, ?_⟩
  intro member roomId epoch key hmem
  rcases List.mem_append.mp hmem with hmem | hmem
  · exact h.out _ _ _ _ hmem
  · exact hf.out _ _ _ _ hmem

theorem roomEffect_of_aside {draw : Option EpochKey} {o : Outcome} (h : Aside c o) :
    RoomEffect P draw c o roomId := by
  refine roomEffect_of_union h.publicId ?_ (fun hmem => absurd hmem (h.out _ _ _ _))
    (.inr (.inr ?_))
  · rw [union, h.members]
  · rw [sealKey_eq, sealKey_eq, h.keys]

theorem roomEffect_forgetRoom {draw : Option EpochKey} {s r : String} {o : Outcome}
    (hfiled : Filed c.roomGroupMembers) (h : Aside c o) :
    RoomEffect P draw c (o.1.forgetRoom s r, o.2) roomId := by
  by_cases hne : r ≠ roomId
  · refine roomEffect_of_union h.publicId ?_ (fun hmem => absurd hmem (h.out _ _ _ _))
      (.inr (.inr ?_))
    · change unionMembersForRoom (o.1.roomGroupMembers.erase (roomScopeKey s r)) roomId = _
      rw [h.members]
      exact union_erase_of_ne hfiled hne
    · rw [sealKey_eq, sealKey_eq]
      change (o.1.groupKeys.forget r).inUse roomId = _
      rw [h.keys]
      exact SenderKeysGroup.inUse_forget_of_ne hne
  · have hroom : r = roomId := not_not.mp hne
    subst hroom
    refine ⟨fun hmem => absurd hmem (h.out _ _ _ _), .inl ?_⟩
    rw [sealKey_eq]
    exact SenderKeysGroup.inUse_forget_self

theorem aside_sendRoomJoin {s r : String} : Aside c (c.sendRoomJoin env s r) := by
  refine ⟨?_, ?_, ?_, by simp [sendRoomJoin]⟩ <;> simp only [sendRoomJoin] <;> split <;> rfl

theorem RoomEffect.sendRoomJoin {draw : Option EpochKey} {s r : String}
    (h : RoomEffect P draw c (c', []) roomId) :
    RoomEffect P draw c (c'.sendRoomJoin env s r) roomId := by
  have hjoin := @aside_sendRoomJoin env c' s r
  have hunion : (c'.sendRoomJoin env s r).1.union roomId = c'.union roomId := by
    rw [union, hjoin.members]
  have hkey : (c'.sendRoomJoin env s r).1.sealKey P roomId = c'.sealKey P roomId := by
    rw [sealKey_eq, sealKey_eq, hjoin.keys]
  have hkeys : (c'.sendRoomJoin env s r).1.keysRoom roomId = c'.keysRoom roomId := by
    rw [keysRoom, keysRoom, unionList, unionList, hjoin.members, hjoin.publicId]
  refine ⟨fun hmem => absurd hmem (hjoin.out _ _ _ _), ?_⟩
  rw [hunion, hkey, hkeys]
  exact h.moves

theorem roomEffect_handleSfuRoomCreated {draw : Option EpochKey}
    (hfiled : Filed c.roomGroupMembers) :
    RoomEffect P draw c (c.handleSfuRoomCreated env msg) roomId := by
  simp only [handleSfuRoomCreated]
  split
  · exact roomEffect_of_aside (.nothing c)
  · split
    · exact roomEffect_of_aside (.nothing c)
    · split
      · split
        · exact roomEffect_of_aside ⟨rfl, rfl, rfl, by simp⟩
        · exact roomEffect_of_aside ⟨rfl, rfl, rfl, by simp⟩
      · refine RoomEffect.sendRoomJoin ?_
        exact @roomEffect_forgetRoom P c roomId draw _ _
          ({ c with currentSupernodeId := msg.sender.text, currentRoomId := _ }, []) hfiled
          ⟨rfl, rfl, rfl, by simp⟩

theorem aside_handleHandleUpdate : Aside c (c.handleHandleUpdate env msg, []) := by
  refine ⟨?_, ?_, ?_, by simp⟩ <;> simp only [handleHandleUpdate] <;> split <;> try rfl
  all_goals split <;> rfl

theorem aside_handleInviteHandshakeAccept :
    Aside c (c.handleInviteHandshakeAccept env msg, []) := by
  refine ⟨?_, ?_, ?_, by simp⟩ <;> simp only [handleInviteHandshakeAccept] <;> split <;> try rfl
  all_goals split <;> rfl

theorem aside_handleSfuGroupKeyAck : Aside c (c.handleSfuGroupKeyAck msg, []) := by
  refine ⟨?_, ?_, ?_, by simp⟩ <;> simp only [handleSfuGroupKeyAck] <;> split <;> try rfl
  all_goals split <;> try rfl
  all_goals split <;> rfl

theorem aside_confirmFailover {r : String} : Aside c (c.confirmFailover msg r, []) := by
  refine ⟨?_, ?_, ?_, by simp⟩ <;> simp only [confirmFailover] <;> split <;> rfl

theorem RoomEffect.of_aside {draw : Option EpochKey} {o : Outcome} (h : Aside c (c', []))
    (he : RoomEffect P draw c' o roomId) : RoomEffect P draw c o roomId := by
  have hunion : c'.union roomId = c.union roomId := by rw [union, h.members]
  have hkey : c'.sealKey P roomId = c.sealKey P roomId := by
    rw [sealKey_eq, sealKey_eq, h.keys]
  have hkeys : c'.keysRoom roomId = c.keysRoom roomId := by
    rw [keysRoom, keysRoom, unionList, unionList, h.members, h.publicId]
  refine ⟨he.seals, ?_⟩
  rw [← hunion, ← hkey, ← hkeys]
  exact he.moves

theorem roomEffect_dispatch (hfiled : Filed c.roomGroupMembers)
    (hroom : tellsMembers msg = true → ':' ∉ (roomOf msg).toList)
    (hkey : msg.msgType ≠ .sfuGroupKey) :
    RoomEffect P (some env.randomKey) c (c.dispatch P env msg) roomId := by
  unfold dispatch
  cases htype : msg.msgType with
  | sfuGroupKey => exact absurd htype hkey
  | sfuMembers =>
    exact RoomEffect.of_aside (@aside_confirmFailover c msg (roomOf msg))
      (roomEffect_syncRoomMembership (hroom (by simp [tellsMembers, htype])))
  | sfuPeerJoined =>
    exact roomEffect_syncRoomMembership (hroom (by simp [tellsMembers, htype]))
  | sfuPeerLeft =>
    exact roomEffect_syncRoomMembership (hroom (by simp [tellsMembers, htype]))
  | peerTraffic =>
    simp only
    split
    · exact roomEffect_of_aside ⟨rfl, rfl, rfl, by simp⟩
    · exact roomEffect_of_aside (.nothing c)
  | handleUpdate => exact roomEffect_of_aside aside_handleHandleUpdate
  | sfuGroupKeyAck => exact roomEffect_of_aside aside_handleSfuGroupKeyAck
  | sfuChat => exact roomEffect_of_keying handleSfuChat_keying moves_handleSfuChat
  | sfuAudio => exact roomEffect_of_keying handleSfuAudio_keying moves_handleSfuAudio
  | sfuRoomCreated => exact roomEffect_handleSfuRoomCreated hfiled
  | inviteHandshakeInit =>
    exact roomEffect_of_aside ⟨rfl, rfl, rfl, by simp [handleInviteHandshakeInit]⟩
  | inviteHandshakeAccept => exact roomEffect_of_aside aside_handleInviteHandshakeAccept
  | encryptedSignal => exact roomEffect_of_aside (.nothing c)
  | other => exact roomEffect_of_aside (.nothing c)

theorem roomEffect_leaveRoom {draw : Option EpochKey} {s r : String}
    (hfiled : Filed c.roomGroupMembers) : RoomEffect P draw c (c.leaveRoom s r) roomId := by
  simp only [leaveRoom]
  split
  · split
    · exact roomEffect_of_aside ⟨rfl, rfl, rfl, by simp⟩
    · exact @roomEffect_forgetRoom P c roomId draw s r
        ({ c with currentRoomId := "", currentSupernodeId := "" }, [.roomLeave s r]) hfiled
        ⟨rfl, rfl, rfl, by simp⟩
  · split
    · exact roomEffect_of_aside ⟨rfl, rfl, rfl, by simp⟩
    · exact @roomEffect_forgetRoom P c roomId draw s r (c, [.roomLeave s r]) hfiled
        ⟨rfl, rfl, rfl, by simp⟩

theorem roomEffect_unsubscribeRoomChat {draw : Option EpochKey} {s r : String}
    (hfiled : Filed c.roomGroupMembers) :
    RoomEffect P draw c (c.unsubscribeRoomChat s r) roomId := by
  simp only [unsubscribeRoomChat]
  split
  · exact roomEffect_of_aside ⟨rfl, rfl, rfl, by simp⟩
  · exact @roomEffect_forgetRoom P c roomId draw s r
      ({ c with chatActiveRooms := _ }, [.roomUnsubscribe s r]) hfiled ⟨rfl, rfl, rfl, by simp⟩

theorem aside_removeSupernode {s : String} : Aside c (c.removeSupernode s) := by
  refine ⟨?_, ?_, ?_, ?_⟩
  · simp only [removeSupernode]
    split <;> rfl
  · simp only [removeSupernode]
    split <;> rfl
  · simp only [removeSupernode]
    split <;> rfl
  · intro member roomId epoch key hmem
    simp only [removeSupernode] at hmem
    split at hmem <;> simp at hmem

theorem aside_foldl_sendRoomJoin {r : String} (siblings : List String) {o : Outcome}
    (h : Aside c o) :
    Aside c (siblings.foldl (fun o sibling =>
      Outcome.andThen o fun c => c.sendRoomJoin env sibling r) o) := by
  induction siblings generalizing o with
  | nil => exact h
  | cons sibling siblings ih => exact ih (h.andThen aside_sendRoomJoin)

theorem aside_foldl_connect (siblings : List String) {o : Outcome} (h : Aside c o) :
    Aside c (siblings.foldl (fun c sibling =>
      if sibling ∈ c.supernodes then c else c.connectSupernodeWs sibling) o.1, o.2) := by
  obtain ⟨c', out⟩ := o
  induction siblings generalizing c' with
  | nil => exact h
  | cons sibling siblings ih =>
    have hstep : Aside c
        (if sibling ∈ c'.supernodes then c' else c'.connectSupernodeWs sibling, out) := by
      split
      · exact h
      · exact ⟨h.publicId, h.members, h.keys, h.out⟩
    exact ih _ hstep

theorem aside_maybeFailoverToCluster {r : String} {plan : Option FailoverPlan} :
    Aside c (c.maybeFailoverToCluster env r plan) := by
  unfold maybeFailoverToCluster
  cases plan with
  | none => exact .nothing c
  | some plan =>
    refine aside_foldl_connect plan.cold (aside_foldl_sendRoomJoin plan.live ?_)
    split
    · exact ⟨rfl, rfl, rfl, by simp⟩
    · exact ⟨rfl, rfl, rfl, by simp⟩

theorem aside_wsDisconnected {s : String} {plan : Option FailoverPlan} :
    Aside c (c.wsDisconnected env s plan) := by
  unfold wsDisconnected
  split
  · simp only
    split
    · exact ⟨rfl, rfl, rfl, by simp⟩
    · have hfail := @aside_maybeFailoverToCluster env
        { c with currentRoomId := "", currentSupernodeId := "" } c.currentRoomId plan
      exact ⟨hfail.publicId, hfail.members, hfail.keys, hfail.out⟩
  · exact .nothing c

theorem aside_wsConnected {s : String} {rejoin : Option String} :
    Aside c (c.wsConnected env s rejoin) := by
  have hlist : Aside c (c, [.roomListRequest s]) := ⟨rfl, rfl, rfl, by simp⟩
  unfold wsConnected
  cases rejoin with
  | none => exact hlist
  | some r =>
    refine hlist.andThen ?_
    have hjoin := @aside_sendRoomJoin env
      { c with
        failoverPendingRoom :=
          if c.failoverPendingRoom = some r then none else c.failoverPendingRoom
        currentSupernodeId := s
        currentRoomId := r } s r
    exact ⟨hjoin.publicId, hjoin.members, hjoin.keys, hjoin.out⟩

end ConnectionManager

end ConquerD.Client
