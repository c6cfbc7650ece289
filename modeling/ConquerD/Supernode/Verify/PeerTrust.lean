import ConquerD.Supernode.Verify.Frame

/-!
# Who the peer store trusts

Every writer of the store adds one record. A grant from the cluster keeps the
flags of a record that exists. An accepted handshake and the admission of a room
guest write a record without flags, the handshake under the identity the payload
names. Peers marked blocked or revoked stay untrusted along every run in which
neither of the two happens to them.
-/

namespace ConquerD.Supernode

open Std (ExtTreeMap)
open Lib.Run Wire

/-! ## The store -/

namespace PeerStore

variable {store store' : PeerStore} {record : PeerRecord} {k p q : String}

/-- Every record is filed under its own id, in canonical spelling. -/
def Wf (store : PeerStore) : Prop :=
  ∀ k record, store.peers[k]? = some record → normalizePublicId k = k ∧ record.identityPub = k

/-- The peer has a record, and it is blocked or revoked. -/
def flagged (store : PeerStore) (identityPub : String) : Bool :=
  (store.getPeer identityPub).any fun record => !record.active

theorem isTrusted_of_flagged (h : store.flagged p = true) : store.isTrusted p = false := by
  unfold flagged at h
  unfold isTrusted
  cases hp : store.getPeer p with
  | none => rfl
  | some record =>
    rw [hp] at h
    simpa using h

theorem Wf.load (records : List PeerRecord) : (load records).Wf := by
  have hloop : ∀ (peers : ExtTreeMap String PeerRecord), Wf ⟨peers⟩ →
      Wf ⟨records.foldl (fun peers record =>
        peers.insert (normalizePublicId record.identityPub)
          { record with identityPub := normalizePublicId record.identityPub }) peers⟩ := by
    induction records with
    | nil => exact fun peers h => h
    | cons record records ih =>
      intro peers h
      refine ih _ ?_
      intro k rec hk
      simp only [ExtTreeMap.getElem?_insert, Std.compare_eq_iff_eq] at hk
      split at hk
      · rename_i heq
        cases hk
        subst heq
        refine ⟨normalizePublicId_idem _, ?_⟩
        simp only
      · exact h k rec hk
  exact hloop ∅ (by intro k record hk; simp at hk)

theorem addPeer_peers :
    (store.addPeer record).peers[k]? =
      if normalizePublicId record.identityPub = k then
        some { record with identityPub := normalizePublicId record.identityPub }
      else if bare record.identityPub = k then none
      else store.peers[k]? := by
  unfold addPeer
  simp only [ExtTreeMap.getElem?_insert, Std.compare_eq_iff_eq, bare_normalizePublicId]
  by_cases hkey : normalizePublicId record.identityPub = k
  · rw [if_pos hkey, if_pos hkey]
  · rw [if_neg hkey, if_neg hkey]
    by_cases hbare : bare record.identityPub = normalizePublicId record.identityPub
    · rw [if_neg (by simpa using hbare), if_neg (by rwa [hbare])]
    · rw [if_pos hbare, ExtTreeMap.getElem?_erase]
      simp only [Std.compare_eq_iff_eq]

theorem Wf.addPeer (h : store.Wf) : (store.addPeer record).Wf := by
  intro k rec hk
  rw [addPeer_peers] at hk
  split at hk
  · rename_i heq
    cases hk
    subst heq
    refine ⟨normalizePublicId_idem _, ?_⟩
    simp only
  · split at hk
    · cases hk
    · exact h k rec hk

theorem bare_of_resolveKey (h : store.resolveKey q = some k) : bare k = bare q := by
  unfold resolveKey at h
  split at h
  · rw [← Option.some.inj h]
    exact bare_normalizePublicId q
  · split at h
    · rw [← Option.some.inj h]
    · split at h
      · rw [← Option.some.inj h]
        exact bare_bare q
      · cases h

theorem getPeer_congr (h : ∀ k, bare k = bare q → store'.peers[k]? = store.peers[k]?) :
    store'.getPeer q = store.getPeer q := by
  have hcontains : ∀ k, bare k = bare q → store'.peers.contains k = store.peers.contains k := by
    intro k hk
    rw [ExtTreeMap.contains_eq_isSome_getElem?, ExtTreeMap.contains_eq_isSome_getElem?, h k hk]
  have hkey : store'.resolveKey q = store.resolveKey q := by
    unfold resolveKey
    rw [hcontains _ (bare_normalizePublicId q), hcontains q rfl, hcontains _ (bare_bare q)]
  unfold getPeer
  rw [hkey]
  cases hres : store.resolveKey q with
  | none => rfl
  | some k => exact h k (bare_of_resolveKey hres)

theorem getPeer_addPeer_of_ne (hne : bare q ≠ bare record.identityPub) :
    (store.addPeer record).getPeer q = store.getPeer q := by
  refine getPeer_congr ?_
  intro k hk
  rw [addPeer_peers, if_neg, if_neg]
  · rintro rfl
    rw [bare_bare] at hk
    exact hne hk.symm
  · rintro rfl
    rw [bare_normalizePublicId] at hk
    exact hne hk.symm

theorem getPeer_of_valid (hwf : store.Wf) (hp : IsPublicId p) :
    store.getPeer p = store.peers[normalizePublicId p]? := by
  -- a key that is not canonical holds nothing
  have hnone : ∀ k, normalizePublicId k = normalizePublicId p → k ≠ normalizePublicId p →
      store.peers.contains k = false := by
    intro k hk hne
    by_contra hcon
    rw [Bool.not_eq_false, ExtTreeMap.contains_eq_isSome_getElem?,
      Option.isSome_iff_exists] at hcon
    obtain ⟨record, hrecord⟩ := hcon
    exact hne ((hwf k record hrecord).1.symm.trans hk)
  unfold getPeer resolveKey
  cases hcanon : store.peers.contains (normalizePublicId p) with
  | true => rfl
  | false =>
    have hmissing : store.peers[normalizePublicId p]? = none := by
      rw [ExtTreeMap.contains_eq_isSome_getElem?] at hcanon
      exact Option.isNone_iff_eq_none.mp (Option.isSome_eq_false_iff.mp hcanon)
    have hgiven : store.peers.contains p = false := by
      by_cases heq : p = normalizePublicId p
      · rw [heq]
        exact hcanon
      · exact hnone p rfl heq
    have hbare : store.peers.contains (bare p) = false := by
      by_cases heq : bare p = normalizePublicId p
      · rw [heq]
        exact hcanon
      · exact hnone _ (normalizePublicId_bare hp) heq
    simp [hgiven, hbare, hmissing]

theorem getPeer_of_bare_eq (hwf : store.Wf) (hp : IsPublicId p) (h : bare q = bare p) :
    store.getPeer q = store.getPeer p := by
  have hq : IsPublicId q := hp.of_bare_eq h.symm
  rw [getPeer_of_valid hwf hq, getPeer_of_valid hwf hp, (normalizePublicId_eq_iff hq).mpr h]

theorem getPeer_addPeer_self (hwf : store.Wf) (hp : IsPublicId p)
    (hid : bare record.identityPub = bare p) :
    (store.addPeer record).getPeer p =
      some { record with identityPub := normalizePublicId record.identityPub } := by
  have hkey : normalizePublicId record.identityPub = normalizePublicId p :=
    (normalizePublicId_eq_iff (hp.of_bare_eq hid.symm)).mpr hid
  rw [getPeer_of_valid hwf.addPeer hp, addPeer_peers, if_pos hkey]

/-- A record that is found is filed under a spelling of the id asked for. -/
theorem bare_identityPub_of_getPeer (hwf : store.Wf) (h : store.getPeer q = some record) :
    bare record.identityPub = bare q := by
  unfold getPeer at h
  obtain ⟨k, hk, hrec⟩ := Option.bind_eq_some_iff.mp h
  rw [(hwf k record hrec).2]
  exact bare_of_resolveKey hk

theorem touchPeer_peers {now : Rat} :
    (store.touchPeer p now).peers[k]? =
      if store.resolveKey p = some k then
        store.peers[k]?.map fun record => { record with lastSeenAt := now }
      else store.peers[k]? := by
  unfold touchPeer
  cases hres : store.resolveKey p with
  | none => simp
  | some key =>
    simp only [ExtTreeMap.getElem?_modify, Std.compare_eq_iff_eq, Option.some.injEq]
    split
    · rename_i heq
      rw [heq]
    · rfl

theorem Wf.touchPeer (h : store.Wf) {now : Rat} : (store.touchPeer p now).Wf := by
  intro k record hk
  rw [touchPeer_peers] at hk
  split at hk
  · obtain ⟨old, hold, rfl⟩ := Option.map_eq_some_iff.mp hk
    exact h k old hold
  · exact h k record hk

theorem flagged_touchPeer (hwf : store.Wf) {now : Rat} (hq : IsPublicId q)
    (h : store.flagged q = true) : (store.touchPeer p now).flagged q = true := by
  unfold flagged at h ⊢
  rw [getPeer_of_valid hwf hq] at h
  rw [getPeer_of_valid hwf.touchPeer hq, touchPeer_peers]
  split
  · rw [Option.any_map]
    exact h
  · exact h

theorem active_refiled (record : PeerRecord) (id : String) :
    ({ record with identityPub := id } : PeerRecord).active = record.active := rfl

theorem flagged_addPeer (hwf : store.Wf) (hp : IsPublicId p)
    (hrecord : bare record.identityPub = bare p → record.active = false)
    (h : store.flagged p = true) : (store.addPeer record).flagged p = true := by
  unfold flagged at h ⊢
  by_cases hid : bare record.identityPub = bare p
  · have hactive := hrecord hid
    rw [getPeer_addPeer_self hwf hp hid, Option.any_some, active_refiled, hactive]
    rfl
  · rw [getPeer_addPeer_of_ne (Ne.symm hid)]
    exact h

end PeerStore

/-! ## What a message does to the store -/

/-- The message makes its sender a guest of a room: the room lets it in, the
invite is valid, or the peer is already someone to some room. -/
def AdmitsGuest (P : Platform) (env : Env) (st : SupernodeState) (msg : SignalingMessage) : Prop :=
  match msg.msgType with
  | .sfuJoin =>
    ((st.admittedForJoin P env msg).sfu.joinRoom msg.sender.text
      (SupernodeState.frameRoom msg)).2.1 = true
  | .sfuRoomInvite =>
    ((st.admittedForInvite P env msg).1.sfu.getRoom (SupernodeState.inviteRoom msg)).isSome ∧
      st.inviteValid P env msg
  | .relayRequest => st.sfu.isRoomAuthorizedPeer msg.sender.text = true
  | _ => False

instance (P : Platform) (env : Env) (st : SupernodeState) (msg : SignalingMessage) :
    Decidable (AdmitsGuest P env st msg) := by
  unfold AdmitsGuest
  split <;> infer_instance

namespace SupernodeState

variable {P : Platform} {env : Env} {st : SupernodeState} {msg : SignalingMessage} {raw : String}

theorem admitOnCreate_peerStore {roomId roomCreator sender creatorId : String} {createdNew : Bool}
    {token : Option String} :
    (st.admitOnCreate env roomId roomCreator sender creatorId createdNew token).1.peerStore =
      st.peerStore := by
  unfold admitOnCreate
  generalize reseedOnCreate st.sfu roomId _ sender token = seeded
  simp only
  split
  · split <;> rfl
  · rfl

theorem handleSfuRoomCreate_peerStore :
    (st.handleSfuRoomCreate P env msg).1.peerStore = st.peerStore := by
  unfold handleSfuRoomCreate
  simp only
  split
  · rfl
  · split
    · exact admitOnCreate_peerStore
    · rfl

theorem admittedForJoin_peerStore : (st.admittedForJoin P env msg).peerStore = st.peerStore := by
  unfold admittedForJoin
  split
  · exact trySpaceAdmission_frame.2.1
  · exact trySpaceAdmission_frame.2.1

theorem admittedForInvite_peerStore :
    (st.admittedForInvite P env msg).1.peerStore = st.peerStore := by
  unfold admittedForInvite
  simp only
  split
  · exact trySpaceAdmission_frame.2.1
  · exact trySpaceAdmission_frame.2.1

theorem guest_peerStore (P : Platform) (env : Env) (st' : SupernodeState) (p : String)
    (h : st'.peerStore = st.peerStore) :
    (st'.ensureRelayForRoomGuest P env p).1.peerStore = st.peerStore ∨
      (st'.ensureRelayForRoomGuest P env p).1.peerStore =
        st.peerStore.addPeer (roomGuestRecord P env p) := by
  rw [ensureRelayForRoomGuest_peerStore, h]
  split
  · exact .inl rfl
  · exact .inr rfl

theorem onMessage_peerStore :
    (st.onMessage P env msg raw).1.peerStore = st.peerStore ∨
      (∃ accept, msg.msgType = .inviteHandshakeInit ∧
        st.handshake.processInit P msg.payload env.nowSecs = .ok accept ∧
        (st.onMessage P env msg raw).1.peerStore =
          st.peerStore.addPeer (handshakeRecord env msg accept)) ∨
      (AdmitsGuest P env st msg ∧
        (st.onMessage P env msg raw).1.peerStore =
          st.peerStore.addPeer (roomGuestRecord P env msg.sender.text)) := by
  unfold onMessage AdmitsGuest
  cases hty : msg.msgType with
  | inviteHandshakeInit =>
    simp only
    unfold handleHandshakeInit
    cases hinit : st.handshake.processInit P msg.payload env.nowSecs with
    | error reason => exact .inl rfl
    | ok accept => exact .inr (.inl ⟨accept, trivial, rfl, rfl⟩)
  | relayRequest =>
    simp only
    unfold handleRelayRequest
    simp only
    split
    · split
      · rename_i hguest
        rcases guest_peerStore P env st msg.sender.text rfl with h | h
        · exact .inl h
        · exact .inr (.inr ⟨(by simpa using hguest : _ ∧ _).1, h⟩)
      · exact .inl rfl
    · exact .inl rfl
  | sfuJoin =>
    simp only
    rw [handleSfuJoin_state]
    simp only
    split
    · rename_i hok
      rcases guest_peerStore P env { st.admittedForJoin P env msg with
          sfu := ((st.admittedForJoin P env msg).sfu.joinRoom msg.sender.text (frameRoom msg)).1
          relay := (st.admittedForJoin P env msg).relay.joinRoom msg.sender.text (frameRoom msg) }
        msg.sender.text admittedForJoin_peerStore with h | h
      · exact .inl h
      · exact .inr (.inr ⟨hok, h⟩)
    · exact .inl admittedForJoin_peerStore
  | sfuRoomInvite =>
    simp only
    rw [handleSfuRoomInvite_state]
    simp only
    split
    · rename_i hvalid
      rcases guest_peerStore P env (st.admittedForInvite P env msg).1 msg.sender.text
        admittedForInvite_peerStore with h | h
      · exact .inl h
      · exact .inr (.inr ⟨hvalid, h⟩)
    · exact .inl admittedForInvite_peerStore
  | sfuLeave => exact .inl rfl
  | sfuRoomList => exact .inl rfl
  | sfuChat => exact .inl (congrArg peerStore handleSfuChatBroadcast_state)
  | sfuAudio =>
    left
    simp only
    unfold handleSfuAudioBroadcast
    simp only
    repeat' split
    all_goals rfl
  | sfuFile kind => exact .inl (congrArg peerStore handleSfuBroadcast_state)
  | sfuVideoState => exact .inl (congrArg peerStore handleSfuVideoState_state)
  | sfuVideoKeyframeRequest =>
    exact .inl (congrArg peerStore handleSfuVideoKeyframeRequest_state)
  | sfuVideoSubscribe =>
    left
    simp only
    unfold handleSfuVideoSubscribe
    simp only
    repeat' split
    all_goals rfl
  | sfuSubscribe =>
    left
    simp only
    unfold handleSfuSubscribe
    split <;> rfl
  | sfuUnsubscribe =>
    left
    simp only
    unfold handleSfuUnsubscribe
    split <;> rfl
  | sfuRoomCreate => exact .inl handleSfuRoomCreate_peerStore
  | sfuRoomInviteGenerate =>
    left
    simp only
    unfold handleSfuInviteGenerate
    simp only
    repeat' split
    all_goals rfl
  | spaceRootAnnounce =>
    left
    simp only
    unfold handleSpaceRootAnnounce
    repeat' split
    all_goals rfl
  | gameRelayJoin =>
    left
    simp only
    unfold handleGameRelayJoin
    simp only
    split <;> rfl
  | gameRelayLeave => exact .inl rfl
  | ping => exact .inl rfl
  | other => exact .inl rfl

theorem mergePeerAuth_kept {identityPub handle : String} {direct : Bool}
    (hwf : st.peerStore.Wf) :
    (st.mergePeerAuth P env identityPub handle direct).1.Wf ∧
      ∀ p : PublicId, st.peerStore.flagged p.text = true →
        (st.mergePeerAuth P env identityPub handle direct).1.flagged p.text = true := by
  unfold mergePeerAuth
  cases hget : st.peerStore.getPeer identityPub with
  | none =>
    refine ⟨hwf.addPeer, ?_⟩
    intro p hflag
    refine PeerStore.flagged_addPeer hwf p.valid ?_ hflag
    -- the peer has a record, so it is not the one the grant is about
    intro hid
    unfold PeerStore.flagged at hflag
    rw [← PeerStore.getPeer_of_bare_eq hwf p.valid hid] at hflag
    simp [roomGuestRecord, hget] at hflag
  | some existing =>
    simp only
    split
    · refine ⟨hwf.addPeer, ?_⟩
      intro p hflag
      refine PeerStore.flagged_addPeer hwf p.valid ?_ hflag
      intro hid
      have hactive : existing.active = false := by
        have hid' : bare identityPub = bare p.text := by
          rw [← PeerStore.bare_identityPub_of_getPeer hwf hget, ← hid]
          split <;> split <;> rfl
        unfold PeerStore.flagged at hflag
        rw [← PeerStore.getPeer_of_bare_eq hwf p.valid hid', hget] at hflag
        simpa using hflag
      rw [← hactive]
      split <;> split <;> rfl
    · exact ⟨hwf, fun _ hflag => hflag⟩

theorem applyPeerAuth_peerStore {identityPub handle : String} {direct : Bool} :
    (st.applyPeerAuth P env identityPub handle direct).1.peerStore =
      (st.mergePeerAuth P env (normalizePublicId identityPub) handle direct).1 := by
  unfold applyPeerAuth
  simp only
  split <;> rfl

theorem onPeerConnected_peerStore {p : String} :
    (st.onPeerConnected env p).1.peerStore = st.peerStore ∨
      (st.onPeerConnected env p).1.peerStore = st.peerStore.touchPeer p env.now := by
  unfold onPeerConnected
  split
  · exact .inr rfl
  · exact .inl rfl

end SupernodeState

/-! ## One event -/

def WritesRecord (P : Platform) (env : Env) (st : SupernodeState) (msg : SignalingMessage) :
    Prop :=
  (msg.msgType = .inviteHandshakeInit ∧
    ∃ accept, st.handshake.processInit P msg.payload env.nowSecs = .ok accept) ∨
  AdmitsGuest P env st msg

/-- A message that writes a record comes from a peer that is neither blocked nor
revoked, and an accepted handshake names its sender. -/
def StoreSafe (P : Platform) (st : SupernodeState) : Event → Prop
  | .message env msg _ =>
    (WritesRecord P env st msg → st.peerStore.flagged msg.sender.text = false) ∧
      (msg.msgType = .inviteHandshakeInit → ∀ accept,
        st.handshake.processInit P msg.payload env.nowSecs = .ok accept →
        bare accept.joinerIdentityPub = bare msg.sender.text)
  | _ => True

/-- A message changes no record but its sender's. -/
def OnlySendersRecord (P : Platform) (st : SupernodeState) (e : Event) : Prop :=
  match e with
  | .message _ msg _ => ∀ q, bare q ≠ bare msg.sender.text →
    (st.step P e).peerStore.getPeer q = st.peerStore.getPeer q
  | _ => True

namespace SupernodeState

variable {P : Platform} {env : Env} {st : SupernodeState} {msg : SignalingMessage} {raw : String}

theorem onMessage_peerStore_of_safe (hsafe : StoreSafe P st (.message env msg raw)) :
    (st.onMessage P env msg raw).1.peerStore = st.peerStore ∨
      ∃ record, bare record.identityPub = bare msg.sender.text ∧
        st.peerStore.flagged msg.sender.text = false ∧
        (st.onMessage P env msg raw).1.peerStore = st.peerStore.addPeer record := by
  rcases @onMessage_peerStore P env st msg raw with h | ⟨accept, hty, hinit, h⟩ | ⟨hguest, h⟩
  · exact .inl h
  · exact .inr ⟨handshakeRecord env msg accept, hsafe.2 hty accept hinit,
      hsafe.1 (.inl ⟨hty, accept, hinit⟩), h⟩
  · exact .inr ⟨roomGuestRecord P env msg.sender.text, rfl, hsafe.1 (.inr hguest), h⟩

theorem onlySendersRecord {e : Event} (hsafe : StoreSafe P st e) : OnlySendersRecord P st e := by
  unfold OnlySendersRecord
  split
  · rename_i env msg raw
    intro q hq
    change (st.onMessage P env msg raw).1.peerStore.getPeer q = _
    rcases onMessage_peerStore_of_safe hsafe with h | ⟨record, hid, -, h⟩
    · rw [h]
    · rw [h]
      exact PeerStore.getPeer_addPeer_of_ne (hid ▸ hq)
  · trivial

/-- The store after one event is well formed and keeps every flag. -/
def StoreKept (st st' : SupernodeState) : Prop :=
  st'.peerStore.Wf ∧
    ∀ p : PublicId, st.peerStore.flagged p.text = true → st'.peerStore.flagged p.text = true

theorem StoreKept.of_eq {st' : SupernodeState} (hwf : st.peerStore.Wf)
    (h : st'.peerStore = st.peerStore) : StoreKept st st' := by
  unfold StoreKept
  rw [h]
  exact ⟨hwf, fun _ hflag => hflag⟩

theorem step_storeKept (hwf : st.peerStore.Wf) {e : Event} (hsafe : StoreSafe P st e) :
    StoreKept st (st.step P e) := by
  unfold SupernodeState.step handle
  cases e with
  | message env msg raw =>
    rcases onMessage_peerStore_of_safe hsafe with h | ⟨record, hid, hclear, h⟩
    · exact .of_eq hwf h
    · unfold StoreKept
      simp only [h]
      refine ⟨hwf.addPeer, ?_⟩
      intro p hflag
      refine PeerStore.flagged_addPeer hwf p.valid ?_ hflag
      -- a flagged peer is not the sender
      intro hp
      unfold PeerStore.flagged at hflag hclear
      rw [PeerStore.getPeer_of_bare_eq hwf p.valid (hid.symm.trans hp), hflag] at hclear
      cases hclear
  | peerConnected env peer =>
    rcases @onPeerConnected_peerStore env st peer.text with h | h
    · exact .of_eq hwf h
    · unfold StoreKept
      simp only [h]
      exact ⟨hwf.touchPeer, fun p => PeerStore.flagged_touchPeer hwf p.valid⟩
  | peerAuth env identityPub handle directInvite =>
    unfold StoreKept
    simp only [applyPeerAuth_peerStore]
    exact mergePeerAuth_kept hwf
  | peerDisconnected env peer =>
    refine .of_eq hwf ?_
    unfold onPeerDisconnected
    simp only
    split <;> rfl
  | relayConnected certs connection order => exact .of_eq hwf rfl
  | relayClosed peerId connection => exact .of_eq hwf rfl
  | roomAudioDatagram env fromPeer raw quotaBytes payloadRoom parsed =>
    refine .of_eq hwf ?_
    rcases @handleRoomAudioDatagram_state P env st raw fromPeer quotaBytes payloadRoom parsed with
      heq | ⟨from_, hfrom, heq | ⟨roomId, heq⟩⟩
    · rw [heq]
    · rw [heq, (healRoom_same hfrom).2.2.1]
    · rw [heq]
      exact (healRoom_same hfrom).2.2.1
  | gameDatagram sessionId fromPeer payload =>
    refine .of_eq hwf ?_
    simp only
    unfold replicateGameDatagram
    split <;> rfl
  | replicated env roomId messageId raw =>
    refine .of_eq hwf ?_
    simp only
    unfold deliverReplicatedRoomFrame deliverReplicatedGameDatagram deliverReplicatedAudio
      deliverReplicatedChat
    simp only
    repeat' split
    all_goals rfl
  | roomRoster env desc => exact .of_eq hwf rfl
  | spaceRoot root => exact .of_eq hwf rfl
  | gcIdleRooms now idleSecs => exact .of_eq hwf rfl

/-! ## Runs -/

theorem flagged_run {es : List Event} (hwf : st.peerStore.Wf)
    (hsafe : Along (SupernodeState.step P) (StoreSafe P) st es) {p : PublicId}
    (hflag : st.peerStore.flagged p.text = true) :
    (run (SupernodeState.step P) st es).peerStore.flagged p.text = true := by
  have hinv := hsafe.run_inv
    (fun s : SupernodeState => s.peerStore.Wf ∧ s.peerStore.flagged p.text = true)
    ⟨hwf, hflag⟩ fun s e hs he =>
      ⟨(step_storeKept hs.1 he).1, (step_storeKept hs.1 he).2 p hs.2⟩
  exact hinv.2

/-- Along every safe run of a node, a peer whose record is blocked or revoked is
never trusted again, and no message changes the record of another peer than its
sender. -/
theorem flaggedPeers_stay_untrusted (config : Config) (records : List PeerRecord)
    (handshake : HandshakeManager) (before after : List Event)
    (hsafe : Along (SupernodeState.step P) (StoreSafe P)
      (.start config (.load records) handshake) (before ++ after)) :
    (∀ p : PublicId,
      (run (SupernodeState.step P) (.start config (.load records) handshake)
        before).peerStore.flagged p.text = true →
      (run (SupernodeState.step P) (.start config (.load records) handshake)
        (before ++ after)).peerStore.isTrusted p.text = false) ∧
    Along (SupernodeState.step P) (OnlySendersRecord P)
      (.start config (.load records) handshake) (before ++ after) := by
  have h0 : (SupernodeState.start config (.load records) handshake).peerStore.Wf :=
    PeerStore.Wf.load records
  refine ⟨?_, ?_⟩
  · intro p hflag
    obtain ⟨hbefore, hafter⟩ := along_append.mp hsafe
    have hwf := hbefore.run_inv (fun s : SupernodeState => s.peerStore.Wf) h0
      fun s e hs he => (step_storeKept hs he).1
    rw [run_append]
    exact PeerStore.isTrusted_of_flagged (flagged_run hwf hafter hflag)
  · exact hsafe.imp_inv (fun s : SupernodeState => s.peerStore.Wf) h0
      (fun s e hs he => (step_storeKept hs he).1) fun s e _ he => onlySendersRecord he

end SupernodeState

/-! ## Concrete runs -/

def bobBlocked : PeerRecord where
  peerId := "bob"
  identityPub := bob.text
  relayHints := []
  handle := "Bob"
  blocked := true
  revoked := false
  autoConnect := false
  isSupernode := false
  transcriptHash := ""
  createdAt := 0
  lastSeenAt := 0
  quicPort := 0

/-- A node that knows Bob, as blocked, and has handed out one invite. -/
def nodeWithoutBob : SupernodeState :=
  .start { publicId := "", openMode := true, sfuRoomPolicy := ⟨true, true⟩, clustered := true }
    (.load [bobBlocked])
    ⟨"", (∅ : ExtTreeMap String PendingInvite).insert "invite" ⟨[1], [2], 100⟩⟩

def joinDefault (sender : PublicId) : Event :=
  .message .permissive
    { msgType := .sfuJoin, sender := sender, payload := .obj [("room_id", .str "default")],
      signature := none } ""

/-- Bob's handshake in Alice's name. -/
def bobAsAlice : Event :=
  .message .permissive
    { msgType := .inviteHandshakeInit
      sender := bob
      payload := .obj [("invite_id", .str "invite"), ("joiner_identity_pub", .str alice.text),
        ("joiner_peer_id", .str "alice"),
        ("joiner_ephemeral_pub", .str "0123456789abcdef0123456789abcdef")]
      signature := none } ""

/-- A grant for Bob and a join of Alice's leave Bob untrusted. -/
theorem bob_stays_untrusted :
    nodeWithoutBob.peerStore.flagged bob.text = true ∧
      (run (SupernodeState.step .symbolic) nodeWithoutBob
        [.peerAuth .permissive bob.text "Bob" true, joinDefault alice]).peerStore.isTrusted
          bob.text = false := by
  have hbob : nodeWithoutBob.peerStore.flagged bob.text = true := by decide +kernel
  refine ⟨hbob, ?_⟩
  refine (SupernodeState.flaggedPeers_stay_untrusted _ [bobBlocked] _ []
    [.peerAuth .permissive bob.text "Bob" true, joinDefault alice] ?_).1 bob hbob
  refine ⟨trivial, ⟨?_, ?_⟩, trivial⟩
  · intro _
    decide +kernel
  · intro hty
    cases hty

/-- A blocked peer that joins a public room is trusted again, and a handshake
writes the record of the identity it names, here not its sender's. -/
theorem blockedPeer_trusted_again :
    nodeWithoutBob.peerStore.flagged bob.text = true ∧
      (nodeWithoutBob.step .symbolic (joinDefault bob)).peerStore.isTrusted bob.text = true ∧
      bare alice.text ≠ bare bob.text ∧
      nodeWithoutBob.peerStore.getPeer alice.text = none ∧
      (nodeWithoutBob.step .symbolic bobAsAlice).peerStore.isTrusted alice.text = true := by
  decide +kernel

end ConquerD.Supernode
