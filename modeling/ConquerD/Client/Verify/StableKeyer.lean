import ConquerD.Client.Verify.KeyerMints
import ConquerD.Wire.Signaling

/-!
# A keyer that stays

One client keys a room for good: in every member's view it is the smallest id.
As long as each epoch it mints is in reach of what it minted, an old offer reads
as a rollback, and members that are not too far behind take every new epoch. An
epoch byte out of nowhere makes the keyer jump, and members refuse where it
lands.
-/

namespace ConquerD.Client

open Std (ExtTreeMap ExtTreeSet)
open Lib.Encoding Lib.Run Wire

/-! ## A member that sees the keyer -/

/-- The keyer is in the member's view, and nobody there sorts before it. -/
structure SeesKeyer (keyer : PublicId) (roomId : String) (c : ConnectionManager) : Prop where
  present : ∃ x ∈ c.unionList roomId, bare x = bare keyer.text
  before : bare keyer.text < bare c.publicId
  smallest : ∀ x ∈ c.unionList roomId, ¬ bare x < bare keyer.text

/-- A member without a view of the room, or one that sees the keyer. -/
def Sees (keyer : PublicId) (roomId : String) (c : ConnectionManager) : Prop :=
  c.unionList roomId = [] ∨ SeesKeyer keyer roomId c

namespace ConnectionManager

variable {P : Platform} {env : Env} {c : ConnectionManager} {keyer : PublicId} {roomId : String}

theorem not_keysRoom_of_sees (h : SeesKeyer keyer roomId c) : c.keysRoom roomId = false := by
  obtain ⟨x, hx, hbare⟩ := h.present
  have hbefore : ((c.unionList roomId ++ [c.publicId]).any fun m =>
      decide (bare m < bare c.publicId)) = true := by
    rw [List.any_eq_true]
    refine ⟨x, List.mem_append_left _ hx, ?_⟩
    rw [hbare]
    exact decide_eq_true h.before
  simp only [keysRoom, isElectedKeyer, hbefore, Bool.not_true, Bool.and_false]

theorem rekeyRoomIfBehind_of_sees (h : Sees keyer roomId c) :
    c.rekeyRoomIfBehind env roomId = (c, []) := by
  refine rekeyRoomIfBehind_of_not_mints ?_
  rcases h with hempty | hsees
  · simp [mintsWhenBehind, hempty]
  · simp [mintsWhenBehind, not_keysRoom_of_sees hsees]

theorem resealToLaggingMember_of_sees (h : Sees keyer roomId c) {sender : String}
    {senderEpoch : Nat} : c.resealToLaggingMember P env roomId sender senderEpoch = (c, []) := by
  simp only [resealToLaggingMember]
  split
  · rfl
  · split
    · rfl
    · split
      · rfl
      · next hfind =>
        rcases h with hempty | hsees
        · simp [hempty] at hfind
        · simp [not_keysRoom_of_sees hsees]

theorem noteUnopenedFrame_of_sees {msg : SignalingMessage} {epoch : Nat}
    (h : Sees keyer roomId c) :
    c.noteUnopenedFrame P env msg roomId epoch =
      ({ c with groupKeys := c.groupKeys.noteObservedEpoch roomId epoch }, []) := by
  have hafter : Sees keyer roomId
      { c with groupKeys := c.groupKeys.noteObservedEpoch roomId epoch } :=
    h.imp id fun hsees => ⟨hsees.present, hsees.before, hsees.smallest⟩
  simp only [noteUnopenedFrame, rekeyRoomIfBehind_of_sees hafter, Outcome.andThen,
    resealToLaggingMember_of_sees hafter, List.append_nil]

theorem syncRoomMembership_of_sees {supernodeId : String} {ids : List String}
    (h : SeesKeyer keyer roomId (c.syncRoomMembership P env supernodeId roomId ids).1) :
    c.syncRoomMembership P env supernodeId roomId ids =
      ((c.withSnapshot supernodeId roomId ids).dropPendingOfRoom roomId, []) := by
  obtain ⟨keys, acks, hstate⟩ :=
    (@syncRoomMembership_keying P env c roomId supernodeId ids).state
  have hsees : SeesKeyer keyer roomId (c.withSnapshot supernodeId roomId ids) := by
    rw [hstate] at h
    exact ⟨h.present, h.before, h.smallest⟩
  simp only [syncRoomMembership, not_keysRoom_of_sees hsees, Bool.not_false, if_true]

/-- A member takes an epoch within reach from a keyer that nobody it sees sorts
before. -/
theorem acceptGroupKeyFrom_eq (h : Sees keyer roomId c) (hid : ¬ bare c.publicId < bare keyer.text)
    {epoch : Nat} :
    c.acceptGroupKeyFrom keyer.text roomId epoch =
      acceptGroupKeyEpoch (c.groupKeys.hasRealKey roomId) (c.groupKeys.currentEpoch roomId)
        epoch := by
  have hsmall : ∀ x ∈ c.unionList roomId, ¬ bare x < bare keyer.text := by
    rcases h with hempty | hsees
    · simp [hempty]
    · exact hsees.smallest
  have helected : ∀ present : List String, keyer.text ∈ present →
      (∀ x ∈ present, ¬ bare x < bare keyer.text) → isElectedKeyer present keyer.text = true := by
    intro present hmem hall
    simp only [isElectedKeyer, Bool.and_eq_true, List.any_eq_true, Bool.not_eq_true',
      List.any_eq_false]
    exact ⟨⟨_, hmem, by simp⟩, fun x hx => by simpa using hall x hx⟩
  have hbase : ∀ x ∈ c.unionList roomId ++ [c.publicId], ¬ bare x < bare keyer.text := by
    intro x hx
    rcases List.mem_append.mp hx with hx | hx
    · exact hsmall x hx
    · exact List.mem_singleton.mp hx ▸ hid
  simp only [acceptGroupKeyFrom]
  split
  · next hmem => rw [helected _ hmem hbase, Bool.true_and]
  · rw [helected, Bool.true_and]
    · exact List.mem_append_right _ (List.mem_singleton_self _)
    · intro x hx
      rcases List.mem_append.mp hx with hx | hx
      · exact hbase x hx
      · rw [List.mem_singleton.mp hx]
        exact lt_irrefl _

/-! ## A sealed key that arrives -/

theorem asU64?_byte {n : Nat} (h : n < 256) : Json.asU64? (.int n) = some n := by
  have hrange : (0 : Int) ≤ (n : Int) ∧ (n : Int) < 2 ^ 64 := by omega
  simp only [Json.asU64?, if_pos hrange, Int.toNat_natCast]

theorem handleSfuGroupKey_of_fields {msg : SignalingMessage} {epoch : Nat} {keyB64 : String}
    (hepoch : (msg.payload.get? "epoch").bind Json.asU64? = some epoch) (hbyte : epoch < 256)
    (hroom : msg.payload.str? "room_id" = some roomId)
    (hkey : msg.payload.str? "key" = some keyB64) :
    (c.handleSfuGroupKey P env msg).1 = c ∨
      (c.acceptGroupKeyFrom msg.sender.text roomId epoch = true ∧
        ∃ key, b64urlDecode P keyB64 = some key ∧
          (c.handleSfuGroupKey P env msg).1 =
            { c with groupKeys := c.groupKeys.install roomId env.nowMs epoch key }) := by
  simp only [ConnectionManager.handleSfuGroupKey, hepoch, hroom, hkey, Option.getD_some,
    Nat.mod_eq_of_lt hbyte]
  split
  · exact .inl rfl
  · split
    · exact .inl rfl
    · next haccept =>
      split
      · next key hdecode =>
        split
        · refine .inr ⟨?_, key, hdecode, rfl⟩
          simpa only [Bool.not_eq_true', Bool.not_eq_false] using haccept
        · exact .inl rfl
      · exact .inl rfl

theorem handleSfuGroupKey_offer {encode : Bytes → String} {keyer : PublicId} {o : Offer}
    (hbyte : o.epoch < 256) :
    (c.handleSfuGroupKey P env (o.message encode keyer roomId)).1 = c ∨
      (c.acceptGroupKeyFrom keyer.text roomId o.epoch = true ∧
        ∃ key, b64urlDecode P (encode o.key) = some key ∧
          (c.handleSfuGroupKey P env (o.message encode keyer roomId)).1 =
            { c with groupKeys := c.groupKeys.install roomId env.nowMs o.epoch key }) := by
  have hget : (o.message encode keyer roomId).payload.get? "epoch" = some (.int o.epoch) := by
    simp [Offer.message, Json.get?, List.lookup_cons]
  have hepoch : ((o.message encode keyer roomId).payload.get? "epoch").bind Json.asU64? =
      some o.epoch := Option.bind_eq_some_iff.mpr ⟨_, hget, asU64?_byte hbyte⟩
  refine handleSfuGroupKey_of_fields hepoch hbyte ?_ ?_
  · simp [Offer.message, Json.get?, Json.str?, Json.asStr?]
  · simp [Offer.message, Json.get?, Json.str?, List.lookup_cons, Json.asStr?]

end ConnectionManager

/-! ## A member's keys -/

/-- The key retained for an epoch of a conversation. -/
def SenderKeysGroup.retained (g : SenderKeysGroup) (roomId : String) (epoch : Nat) :
    Option EpochKey :=
  g.groups[roomId]?.bind fun st => st.keys[epoch]?

/-- A member's keys of the room: minted ones, the newest of them current. -/
structure Follows (st : GroupState) (mints : List (Nat × EpochKey)) : Prop where
  held : ∀ e k, st.keys[e]? = some k → (e, k) ∈ mints ∧ e ≤ st.current
  current : st.hasKeys = true → ∃ k, (st.current, k) ∈ mints

namespace Follows

variable {st : GroupState} {mints : List (Nat × EpochKey)}

theorem default : Follows .default mints :=
  ⟨fun e k hk => absurd hk (by simp [GroupState.default]),
    fun hkeys => absurd hkeys (by simp [GroupState.default, GroupState.hasKeys])⟩

theorem mono (h : Follows st mints) {mints' : List (Nat × EpochKey)}
    (hsub : ∀ x ∈ mints, x ∈ mints') : Follows st mints' := by
  refine ⟨fun e k hk => ?_, fun hkeys => ?_⟩
  · obtain ⟨hmem, hle⟩ := h.held e k hk
    exact ⟨hsub _ hmem, hle⟩
  · obtain ⟨k, hk⟩ := h.current hkeys
    exact ⟨k, hsub _ hk⟩

theorem noteSeen (h : Follows st mints) (epoch : Nat) : Follows (st.noteSeen epoch) mints :=
  ⟨h.held, h.current⟩

theorem install (h : Follows st mints) {now epoch : Nat} {key : EpochKey}
    (hmem : (epoch, key) ∈ mints) (hle : st.hasKeys = true → st.current ≤ epoch) :
    Follows (st.install now epoch key) mints := by
  refine ⟨fun e k hk => ?_, fun _ => ⟨key, hmem⟩⟩
  have hk' := SenderKeysGroup.getElem?_capRetained hk
  rw [ExtTreeMap.getElem?_insert] at hk'
  split at hk'
  · rename_i heq
    cases hk'
    rw [← Std.compare_eq_iff_eq.mp heq]
    exact ⟨hmem, le_refl _⟩
  · obtain ⟨hold, hcurrent⟩ := h.held e k hk'
    have hkeys : st.hasKeys = true := by
      unfold GroupState.hasKeys
      rw [Bool.not_eq_true', ExtTreeMap.isEmpty_eq_false_iff]
      intro hempty
      rw [hempty] at hk'
      simp at hk'
    exact ⟨hold, hcurrent.trans (hle hkeys)⟩

end Follows

/-- A member of the room, against what the keyer minted. -/
structure MemberInv (roomId m : String) (mints : List (Nat × EpochKey)) (c : ConnectionManager) :
    Prop where
  publicId : c.publicId = m
  pending : c.pendingGroupKeyAcks = []
  follows : ∀ st ∈ c.groupKeys.groups[roomId]?, Follows st mints

namespace MemberInv

variable {P : Platform} {env : Env} {roomId m : String} {mints : List (Nat × EpochKey)}
  {c : ConnectionManager}

theorem start : MemberInv roomId m mints (.start m ⟨∅⟩) :=
  ⟨rfl, rfl, fun st hst => absurd hst (by simp [ConnectionManager.start, SenderKeysGroup.new])⟩

theorem mono (h : MemberInv roomId m mints c) {mints' : List (Nat × EpochKey)}
    (hsub : ∀ x ∈ mints, x ∈ mints') : MemberInv roomId m mints' c :=
  ⟨h.publicId, h.pending, fun st hst => (h.follows st hst).mono hsub⟩

theorem observe (h : MemberInv roomId m mints c) (epoch : Nat) :
    MemberInv roomId m mints
      { c with groupKeys := c.groupKeys.noteObservedEpoch roomId epoch } := by
  refine ⟨h.publicId, h.pending, fun st hst => ?_⟩
  simp only [SenderKeysGroup.noteObservedEpoch, ExtTreeMap.getElem?_insert_self,
    Option.mem_some_iff] at hst
  subst hst
  cases hc : c.groupKeys.groups[roomId]? with
  | none => exact Follows.default.noteSeen epoch
  | some old => exact (h.follows old hc).noteSeen epoch

theorem withSnapshot (h : MemberInv roomId m mints c) (supernodeId : String) (ids : List String) :
    MemberInv roomId m mints ((c.withSnapshot supernodeId roomId ids).dropPendingOfRoom roomId) :=
  ⟨h.publicId, by simp [ConnectionManager.dropPendingOfRoom, h.pending], h.follows⟩

theorem forgetRoom (h : MemberInv roomId m mints c) (supernodeId : String) :
    MemberInv roomId m mints (c.forgetRoom supernodeId roomId) := by
  refine ⟨h.publicId, ?_, fun st hst => ?_⟩
  · simp [ConnectionManager.forgetRoom, ConnectionManager.dropPendingOfRoom, h.pending]
  · refine absurd hst ?_
    simp [ConnectionManager.forgetRoom, ConnectionManager.dropPendingOfRoom,
      SenderKeysGroup.forget]

theorem retained_minted (h : MemberInv roomId m mints c) {epoch : Nat} {key : EpochKey}
    (hkey : c.groupKeys.retained roomId epoch = some key) : (epoch, key) ∈ mints := by
  unfold SenderKeysGroup.retained at hkey
  obtain ⟨st, hst, hk⟩ := Option.bind_eq_some_iff.mp hkey
  exact ((h.follows st hst).held epoch key hk).1

theorem le_of_accepted (h : MemberInv roomId m mints c) (hledger : Ledger mints)
    {x : Nat × EpochKey} (hx : x ∈ mints) {sender : String}
    (haccept : c.acceptGroupKeyFrom sender roomId x.1 = true) :
    ∀ st ∈ c.groupKeys.groups[roomId]?, st.hasKeys = true → st.current ≤ x.1 := by
  intro st hst hkeys
  obtain ⟨k, hk⟩ := (h.follows st hst).current hkeys
  have hreal : c.groupKeys.hasRealKey roomId = true := by
    simp [SenderKeysGroup.hasRealKey, Option.mem_def.mp hst, hkeys]
  have hcurrent : c.groupKeys.currentEpoch roomId = st.current := by
    simp [SenderKeysGroup.currentEpoch, Option.mem_def.mp hst, Option.filter, hkeys]
  simp only [ConnectionManager.acceptGroupKeyFrom, Bool.and_eq_true, acceptGroupKeyEpoch, hreal,
    hcurrent, Bool.not_true, Bool.false_eq_true, if_false, decide_eq_true_eq] at haccept
  exact hledger.le_of_wrappingSub_le hx hk haccept.2

theorem deliver (h : MemberInv roomId m mints c) (hledger : Ledger mints) {encode : Bytes → String}
    (hcodec : ∀ k k', b64urlDecode P (encode k) = some k' → k' = k) {keyer : PublicId} {o : Offer}
    (ho : (o.epoch, o.key) ∈ mints) :
    MemberInv roomId m mints
      (c.handleSfuGroupKey P env (o.message encode keyer roomId)).1 := by
  rcases ConnectionManager.handleSfuGroupKey_offer (hledger.byte _ ho) with hsame | ⟨haccept, key, hdecode, htaken⟩
  · rw [hsame]
    exact h
  · rw [htaken, hcodec _ _ hdecode]
    refine ⟨h.publicId, h.pending, fun st hst => ?_⟩
    simp only [SenderKeysGroup.install, ExtTreeMap.getElem?_insert_self, Option.mem_some_iff] at hst
    subst hst
    have hle := h.le_of_accepted hledger ho haccept
    cases hc : c.groupKeys.groups[roomId]? with
    | none =>
      exact Follows.default.install ho fun hkeys =>
        absurd hkeys (by simp [GroupState.default, GroupState.hasKeys])
    | some old => exact (h.follows old hc).install ho (hle old hc)

end MemberInv

theorem offersOf_handleSfuGroupKey {P : Platform} {env : Env} {c : ConnectionManager}
    {msg : SignalingMessage} {roomId : String} :
    offersOf roomId (c.handleSfuGroupKey P env msg).2 = [] := by
  rw [List.eq_nil_iff_forall_not_mem]
  intro o ho
  have hmem := mem_offersOf.mp ho
  simp only [ConnectionManager.handleSfuGroupKey, ConnectionManager.sendGroupKeyAck] at hmem
  repeat' split at hmem
  all_goals simp at hmem

/-! ## The room -/

namespace RoomSystem

variable (P : Platform) (encode : Bytes → String) (keyer : PublicId) (roomId : String)

/-- After the event the keyer is the smallest in every member's view, and a
member that was told who is in the room has a view. -/
def Views (s : RoomSystem) (e : RoomSystemEvent) : Prop :=
  (∀ m, Sees keyer roomId ((s.step P encode keyer roomId e).member m)) ∧
    ∀ m env supernodeId ids, e = .memberSync m env supernodeId ids →
      SeesKeyer keyer roomId ((s.step P encode keyer roomId e).member m)

/-- The member holds one of the keys. -/
def Holds (roomId : String) (c : ConnectionManager) (mints : List (Nat × EpochKey)) : Prop :=
  ∃ x ∈ mints, c.groupKeys.retained roomId x.1 = some x.2

/-- The keyer is not refused, and nobody holds a key it did not mint. -/
structure Agreed (s : RoomSystem) : Prop where
  /-- The newest epoch passes at every member without a key of the room, and at
  every member that holds it or one of the sixty-four before it. -/
  accepted : ∀ x ∈ s.mints.head?, ∀ m, ¬ bare m < bare keyer.text →
    ((s.member m).groupKeys.hasRealKey roomId = false ∨
      Holds roomId (s.member m) (s.mints.take (maxEpochAdvance + 1))) →
    (s.member m).acceptGroupKeyFrom keyer.text roomId x.1 = true
  /-- A retained key is the one minted for its epoch. -/
  agree : ∀ m epoch key, (s.member m).groupKeys.retained roomId epoch = some key →
    (epoch, key) ∈ s.mints ∧ ∀ key', (epoch, key') ∈ s.mints → key' = key
  /-- Nobody else seals a key of the room. -/
  alone : s.strays = []

structure RoomInv (s : RoomSystem) : Prop where
  keying : KeyerInv roomId s
  members : ∀ m, MemberInv roomId m s.mints (s.member m)
  sees : ∀ m, Sees keyer roomId (s.member m)
  alone : s.strays = []

variable {P encode keyer roomId} {s : RoomSystem}

theorem ledger_of_keyerInv (h : KeyerInv roomId s) (hne : s.mints ≠ []) : Ledger s.mints := by
  cases h.keyer with
  | unkeyed hmints _ => exact absurd hmints hne
  | keyed st hst hkeyed => exact hkeyed.ledger

theorem roomInv_start : RoomInv keyer roomId (start keyer) := by
  have hview : ∀ m, (ConnectionManager.start m ⟨∅⟩).unionList roomId = [] := by
    intro m
    rw [List.eq_nil_iff_forall_not_mem]
    intro x hx
    obtain ⟨key, set, hset, -⟩ :=
      mem_unionMembersForRoom.mp (ConnectionManager.mem_unionList.mp hx)
    simp [ConnectionManager.start] at hset
  refine ⟨⟨.unkeyed rfl ⟨?_, rfl⟩, fun o ho => absurd ho List.not_mem_nil⟩,
    fun m => MemberInv.start, fun m => .inl (hview m), rfl⟩
  intro st hst
  simp [start, ConnectionManager.start, SenderKeysGroup.new] at hst

theorem RoomInv.keyerDid (h : RoomInv keyer roomId s) {o : Outcome} {key : Option EpochKey}
    (hkeyer : KeyerInv roomId (s.keyerDid roomId o key)) :
    RoomInv keyer roomId (s.keyerDid roomId o key) :=
  ⟨hkeyer, fun m => (h.members m).mono fun _ hx => List.mem_append_right _ hx, h.sees, h.alone⟩

theorem RoomInv.memberDid (h : RoomInv keyer roomId s) {m : String} {o : Outcome}
    (hmember : MemberInv roomId m s.mints o.1) (hout : offersOf roomId o.2 = [])
    (hsees : ∀ m', Sees keyer roomId ((s.memberDid roomId m o).member m')) :
    RoomInv keyer roomId (s.memberDid roomId m o) := by
  refine ⟨⟨h.keying.keyer, h.keying.offers⟩, fun m' => ?_, hsees, ?_⟩
  · by_cases hm : m' = m
    · subst hm
      simpa only [RoomSystem.memberDid, if_true] using hmember
    · simpa only [RoomSystem.memberDid, if_neg hm] using h.members m'
  · simp only [RoomSystem.memberDid, h.alone, hout, List.append_nil]

theorem RoomInv.step (hcodec : ∀ k k', b64urlDecode P (encode k) = some k' → k' = k)
    (h : RoomInv keyer roomId s) {e : RoomSystemEvent} (hviews : Views P encode keyer roomId s e)
    (hreach : s.InReach roomId e) : RoomInv keyer roomId (s.step P encode keyer roomId e) := by
  cases e with
  | keyerSync env supernodeId ids => exact h.keyerDid (keyerInv_keyerSync h.keying hreach)
  | keyerUnopened env frame epoch => exact h.keyerDid (keyerInv_keyerUnopened h.keying hreach)
  | keyerOpened env sender epoch =>
    exact h.keyerDid (keyerInv_of_quiet h.keying.keyer h.keying.offers .resealToLaggingMember)
  | keyerRetry env =>
    exact h.keyerDid (keyerInv_of_quiet h.keying.keyer h.keying.offers .retryPendingGroupKeys)
  | keyerAck ack =>
    exact h.keyerDid
      (keyerInv_of_quiet (P := P) h.keying.keyer h.keying.offers .handleSfuGroupKeyAck)
  | memberSync m env supernodeId ids =>
    have hsees := hviews.2 m env supernodeId ids rfl
    simp only [RoomSystem.step, RoomSystem.memberDid, if_true] at hsees
    have hsync := ConnectionManager.syncRoomMembership_of_sees hsees
    refine h.memberDid ?_ ?_ hviews.1
    · rw [hsync]
      exact (h.members m).withSnapshot supernodeId ids
    · rw [hsync]
      rfl
  | memberUnopened m env frame epoch =>
    have hnote := @ConnectionManager.noteUnopenedFrame_of_sees P env _ keyer roomId frame
      epoch.toNat (h.sees m)
    refine h.memberDid ?_ ?_ hviews.1
    · rw [hnote]
      exact (h.members m).observe epoch.toNat
    · rw [hnote]
      rfl
  | memberOpened m env sender epoch =>
    have hreseal := @ConnectionManager.resealToLaggingMember_of_sees P env _ keyer roomId
      (h.sees m) sender epoch.toNat
    refine h.memberDid ?_ ?_ hviews.1
    · rw [hreseal]
      exact h.members m
    · rw [hreseal]
      rfl
  | memberRetry m env =>
    have hretry : (s.member m).retryPendingGroupKeys P env = (s.member m, []) := by
      unfold ConnectionManager.retryPendingGroupKeys
      rw [(h.members m).pending]
      rfl
    refine h.memberDid ?_ ?_ hviews.1
    · rw [hretry]
      exact h.members m
    · rw [hretry]
      rfl
  | memberForget m supernodeId =>
    exact h.memberDid ((h.members m).forgetRoom supernodeId) rfl hviews.1
  | deliver i env =>
    have hsees := hviews.1
    simp only [RoomSystem.step] at hsees ⊢
    split at hsees
    · exact h
    · next o ho =>
      have hmem := h.keying.offers o (List.mem_of_getElem? ho)
      have hledger := ledger_of_keyerInv h.keying (List.ne_nil_of_mem hmem)
      exact h.memberDid ((h.members o.member).deliver hledger hcodec hmem)
        offersOf_handleSfuGroupKey hsees

theorem RoomInv.agreed (h : RoomInv keyer roomId s) : Agreed keyer roomId s := by
  refine ⟨?_, ?_, h.alone⟩
  · intro x hx m hm hkeys
    have hxmem := List.mem_of_mem_head? hx
    have hledger := ledger_of_keyerInv h.keying (List.ne_nil_of_mem hxmem)
    rw [ConnectionManager.acceptGroupKeyFrom_eq (h.sees m) ((h.members m).publicId.symm ▸ hm)]
    rcases hkeys with hnone | ⟨y, hy, hretained⟩
    · simp [acceptGroupKeyEpoch, hnone]
    · obtain ⟨st, hst, hk⟩ := Option.bind_eq_some_iff.mp hretained
      have hfollows := (h.members m).follows st hst
      have hnear := hledger.near x hx y hy
      have hle := (hfollows.held _ _ hk).2
      have hkeys : st.hasKeys = true := by
        unfold GroupState.hasKeys
        rw [Bool.not_eq_true', ExtTreeMap.isEmpty_eq_false_iff]
        intro hempty
        rw [hempty] at hk
        simp at hk
      obtain ⟨k, hcurrent⟩ := hfollows.current hkeys
      have hbelow := hledger.le_head hx _ hcurrent
      have hreal : (s.member m).groupKeys.currentEpoch roomId = st.current := by
        simp [SenderKeysGroup.currentEpoch, hst, Option.filter, hkeys]
      have hbyte := hledger.byte x hxmem
      simp only [acceptGroupKeyEpoch, hreal, Bool.if_true_left, Bool.or_eq_true,
        decide_eq_true_eq, wrappingSub]
      right
      simp only [maxEpochAdvance] at *
      omega
  · intro m epoch key hretained
    have hmem := (h.members m).retained_minted hretained
    have hledger := ledger_of_keyerInv h.keying (List.ne_nil_of_mem hmem)
    exact ⟨hmem, fun key' hkey' => hledger.key_unique hkey' hmem⟩

/-- **A stable keyer is not refused**, in every run in which each epoch it mints
is in reach of what it minted. -/
theorem stable_keyer_accepted (P : Platform) (encode : Bytes → String)
    (hcodec : ∀ k k', b64urlDecode P (encode k) = some k' → k' = k) (keyer : PublicId)
    (roomId : String) (es : List RoomSystemEvent)
    (hviews : Along (step P encode keyer roomId) (Views P encode keyer roomId) (start keyer) es)
    (hreach : Along (step P encode keyer roomId) (InReach roomId) (start keyer) es) :
    Agreed keyer roomId (run (step P encode keyer roomId) (start keyer) es) :=
  ((hviews.and hreach).run_inv (RoomInv keyer roomId) roomInv_start
    fun _ _ h hstep => h.step hcodec hstep.1 hstep.2).agreed

/-! ## A stray epoch byte -/

theorem sees_congr {c c' : ConnectionManager} (hid : c'.publicId = c.publicId)
    (hmembers : c'.roomGroupMembers = c.roomGroupMembers) (h : Sees keyer roomId c) :
    Sees keyer roomId c' := by
  have hlist : c'.unionList roomId = c.unionList roomId := by
    simp only [ConnectionManager.unionList, hmembers]
  refine h.imp (fun hempty => hlist.trans hempty) fun hsees => ⟨?_, ?_, ?_⟩
  · exact hlist ▸ hsees.present
  · exact hid ▸ hsees.before
  · exact hlist ▸ hsees.smallest

theorem sees_of_keying {c : ConnectionManager} {o : Outcome} (h : Keying c o)
    (hsees : Sees keyer roomId c) : Sees keyer roomId o.1 := by
  obtain ⟨keys, acks, hstate⟩ := h.state
  rw [hstate]
  exact sees_congr (c := c) rfl rfl hsees

theorem sees_memberDid (hsees : ∀ m, Sees keyer roomId (s.member m)) {m : String} {o : Outcome}
    (ho : Sees keyer roomId o.1) (m' : String) :
    Sees keyer roomId ((s.memberDid roomId m o).member m') := by
  by_cases hm : m' = m
  · simpa only [memberDid, if_pos hm] using ho
  · simpa only [memberDid, if_neg hm] using hsees m'

def Untold : RoomSystemEvent → Prop
  | .memberSync .. => False
  | .memberForget .. => False
  | _ => True

theorem Views.of_untold (hsees : ∀ m, Sees keyer roomId (s.member m)) {e : RoomSystemEvent}
    (he : Untold e) : Views P encode keyer roomId s e := by
  refine ⟨?_, fun m env supernodeId ids heq => absurd he (heq ▸ id)⟩
  cases e with
  | memberSync => exact he.elim
  | memberForget => exact he.elim
  | memberUnopened m env frame epoch =>
    exact sees_memberDid hsees
      (sees_of_keying ConnectionManager.noteUnopenedFrame_keying (hsees m))
  | memberOpened m env sender epoch =>
    exact sees_memberDid hsees
      (sees_of_keying ConnectionManager.resealToLaggingMember_keying (hsees m))
  | memberRetry m env =>
    exact sees_memberDid hsees
      (sees_of_keying ConnectionManager.retryPendingGroupKeys_keying (hsees m))
  | deliver i env =>
    simp only [step]
    split
    · exact hsees
    · next o _ =>
      exact sees_memberDid hsees
        (sees_of_keying ConnectionManager.handleSfuGroupKey_keying (hsees o.member))
  | keyerSync => exact hsees
  | keyerUnopened => exact hsees
  | keyerOpened => exact hsees
  | keyerRetry => exact hsees
  | keyerAck => exact hsees

theorem Views.of_memberSync (hsees : ∀ m, Sees keyer roomId (s.member m)) {m : String} {env : Env}
    {supernodeId : String} {ids : List String}
    (hafter : SeesKeyer keyer roomId
      ((s.member m).syncRoomMembership P env supernodeId roomId ids).1) :
    Views P encode keyer roomId s (.memberSync m env supernodeId ids) := by
  refine ⟨sees_memberDid hsees (.inr hafter), fun m' env' supernodeId' ids' he => ?_⟩
  cases he
  simpa only [step, memberDid, if_true] using hafter

instance (s : RoomSystem) : DecidablePred (InReach roomId s) :=
  fun _ => inferInstanceAs (Decidable (_ → _))

/-- The text of the key of thirty-two ones; other keys are not used. -/
def onesText (key : Bytes) : String :=
  if key = List.replicate 32 1 then onesId else ""

theorem onesText_decode (k k' : Bytes) (h : b64urlDecode .oneKey (onesText k) = some k') :
    k' = k := by
  unfold onesText at h
  split at h
  · next hk =>
    have hones : b64urlDecode .oneKey onesId = some (List.replicate 32 1) := by decide +kernel
    rw [hones] at h
    cases h
    exact hk.symm
  · have hnone : b64urlDecode .oneKey "" = none := by decide +kernel
    rw [hnone] at h
    cases h

theorem views_of_untold (hsees : ∀ m, Sees keyer roomId (s.member m)) {es : List RoomSystemEvent}
    (hes : ∀ e ∈ es, Untold e) :
    Along (step P encode keyer roomId) (Views P encode keyer roomId) s es := by
  induction es generalizing s with
  | nil => trivial
  | cons e es ih =>
    have hview : Views P encode keyer roomId s e := .of_untold hsees (hes e List.mem_cons_self)
    exact ⟨hview, ih hview.1 fun e' he' => hes e' (List.mem_cons_of_mem _ he')⟩

def bobTold : RoomSystemEvent :=
  .memberSync bob.text .permissive "s" [alice.text, bob.text, "zoe"]

def bobKeyed : List RoomSystemEvent :=
  [.keyerSync .permissive "s" [alice.text, bob.text, "zoe"], .deliver 0 .permissive]

theorem views_bobTold {es : List RoomSystemEvent} (hes : ∀ e ∈ es, Untold e) :
    Along (step .oneKey onesText alice "r") (Views .oneKey onesText alice "r") (start alice)
      (bobTold :: es) := by
  have hbob : SeesKeyer alice "r" (((start alice).member bob.text).syncRoomMembership .oneKey
      .permissive "s" "r" [alice.text, bob.text, "zoe"]).1 := by
    have hlist : (((start alice).member bob.text).syncRoomMembership .oneKey
        .permissive "s" "r" [alice.text, bob.text, "zoe"]).1.unionList "r" =
        [alice.text, "zoe"] := by decide +kernel
    refine ⟨⟨alice.text, by simp [hlist], rfl⟩, by decide +kernel, fun x hx => ?_⟩
    rw [hlist] at hx
    rcases List.mem_pair.mp hx with rfl | rfl
    · exact lt_irrefl _
    · decide +kernel
  have hinv : RoomInv alice "r" (start alice) := roomInv_start
  have hstart := hinv.sees
  have htold : Views .oneKey onesText alice "r" (start alice) bobTold := .of_memberSync hstart hbob
  exact ⟨htold, views_of_untold htold.1 hes⟩

/-- Zoe leaves, Alice mints the next key and Bob gets it. -/
theorem zoe_leaves_accepted :
    Agreed alice "r" (run (step .oneKey onesText alice "r") (start alice)
      (bobTold :: bobKeyed ++
        [.keyerSync .permissive "s" [alice.text, bob.text], .deliver 2 .permissive])) := by
  refine stable_keyer_accepted .oneKey onesText onesText_decode alice "r" _ ?_ (by decide +kernel)
  exact views_bobTold (by simp [bobKeyed, Untold])

/-- Bob has Alice's first key when she sees a frame of epoch two hundred that she
cannot open. -/
def strayFrame : List RoomSystemEvent :=
  bobTold :: bobKeyed ++ [.keyerUnopened .permissive ⟨.sfuChat, bob, .null⟩ 200]

/-- The frame makes Alice mint epoch two hundred and one, and Bob refuses it. -/
theorem stray_epoch_refused :
    Along (step .oneKey onesText alice "r") (Views .oneKey onesText alice "r") (start alice)
        strayFrame ∧
      ¬ Agreed alice "r" (run (step .oneKey onesText alice "r") (start alice) strayFrame) := by
  refine ⟨views_bobTold (by simp [bobKeyed, Untold]), fun h => ?_⟩
  have hrun : ∀ s, run (step .oneKey onesText alice "r") (start alice) strayFrame = s →
      s.mints = [(201, List.replicate 32 1), (0, List.replicate 32 1)] ∧
      (s.member bob.text).groupKeys.retained "r" 0 = some (List.replicate 32 1) ∧
      (s.member bob.text).acceptGroupKeyFrom alice.text "r" 201 = false := by
    rintro s rfl
    decide +kernel
  generalize run (step .oneKey onesText alice "r") (start alice) strayFrame = s at h hrun
  obtain ⟨hmints, hheld, hrefused⟩ := hrun s rfl
  have hbob : Holds "r" (s.member bob.text) (s.mints.take (maxEpochAdvance + 1)) := by
    refine ⟨(0, List.replicate 32 1), ?_, hheld⟩
    rw [hmints]
    simp [maxEpochAdvance]
  have haccepted := h.accepted (201, List.replicate 32 1) (by rw [hmints]; rfl) bob.text
    (by decide +kernel) (.inr hbob)
  rw [hrefused] at haccepted
  cases haccepted

end RoomSystem

end ConquerD.Client
