import ConquerD.Supernode.Node
import ConquerD.Supernode.Verify.SfuInvariant

/-!
# What the shared functions leave alone

Tickets and the trust flow touch the relay's grants and, for a new room guest,
the peer store. Proof-based admission touches the held roots and one room.
-/

namespace ConquerD.Supernode

open Wire

namespace SupernodeState

variable {P : Platform} {env : Env} {st : SupernodeState}

/-! ## Tickets and the trust flow -/

/-- The parts of a state the trust flow never writes: everything but the relay's
grants and the peer store. -/
structure SameRooms (st st' : SupernodeState) : Prop where
  sfu : st'.sfu = st.sfu
  relayPeers : st'.relay.peers = st.relay.peers
  relayRooms : st'.relay.rooms = st.relay.rooms
  config : st'.config = st.config
  spaceRoots : st'.spaceRoots = st.spaceRoots
  replicationSeen : st'.replicationSeen = st.replicationSeen
  gameReplicationSeq : st'.gameReplicationSeq = st.gameReplicationSeq

theorem SameRooms.trans {st st' st'' : SupernodeState} (h : SameRooms st st')
    (h' : SameRooms st' st'') : SameRooms st st'' :=
  ⟨h'.sfu.trans h.sfu, h'.relayPeers.trans h.relayPeers, h'.relayRooms.trans h.relayRooms,
    h'.config.trans h.config, h'.spaceRoots.trans h.spaceRoots,
    h'.replicationSeen.trans h.replicationSeen, h'.gameReplicationSeq.trans h.gameReplicationSeq⟩

theorem issueTicket_same {p : String} {portalOnly : Bool} :
    SameRooms st (st.issueTicket p portalOnly).1 := by
  refine ⟨rfl, ?_, ?_, rfl, rfl, rfl, rfl⟩ <;> cases portalOnly <;> rfl

theorem onPeerTrusted_same {p : String} : SameRooms st (st.onPeerTrusted env p).1 := by
  have h : SameRooms st (st.issueTicket p (!st.checkPeerAccess env p)).1 := issueTicket_same
  exact ⟨h.sfu, h.relayPeers, h.relayRooms, h.config, h.spaceRoots, h.replicationSeen,
      h.gameReplicationSeq⟩

theorem ensureRelayForRoomGuest_same {p : String} :
    SameRooms st (st.ensureRelayForRoomGuest P env p).1 := by
  unfold ensureRelayForRoomGuest
  split
  · exact issueTicket_same
  · have h := @onPeerTrusted_same env
      { st with peerStore := st.peerStore.addPeer (roomGuestRecord P env p) } p
    exact ⟨h.sfu, h.relayPeers, h.relayRooms, h.config, h.spaceRoots, h.replicationSeen,
      h.gameReplicationSeq⟩

theorem ensureRelayForRoomGuest_peerStore {p : String} :
    (st.ensureRelayForRoomGuest P env p).1.peerStore =
      if st.peerStore.isTrusted p then st.peerStore
      else st.peerStore.addPeer (roomGuestRecord P env p) := by
  unfold ensureRelayForRoomGuest
  split
  · rfl
  · rfl

/-! ## Proof-based admission -/

/-- The payload carries a proof for the room that verifies against the root held
once the carried root has been offered to the store. -/
structure ProofVerifies (P : Platform) (st : SupernodeState) (roomId : String) (payload : Json)
    (proof : SpaceInclusionProof) (root : SignedSpaceRoot) : Prop where
  proof_eq : (payload.get? "space_proof").bind P.spaceProofFromValue = some proof
  node : proof.node.nodeId = roomId
  held : ∃ carried, (payload.get? "space_root").bind P.spaceRootFromValue = some carried ∧
    (st.spaceRoots.accept P carried).1.get carried.spaceId = some root
  verifies : proof.verifyAgainst P root = true

/-- The grant a payload carries. -/
def presentedGrant (P : Platform) (payload : Json) : Option SpaceGrant :=
  (payload.get? "space_grant").bind P.spaceGrantFromValue

/-- The SFU after the room of a verified proof has been made and its creator
adopted. -/
def sfuMaterialized (env : Env) (st : SupernodeState) (roomId : String) (node : SpaceNode) :
    SFURoomManager :=
  ((st.sfu.createRoomWithPolicy roomId node.name (nodeRoomType node) "" node.invitePolicy
    env.now).1).adoptCreatorIfEmpty roomId node.ownerPub

theorem trySpaceAdmission_of_verifies {sender roomId : String} {payload : Json}
    {proof : SpaceInclusionProof} {root : SignedSpaceRoot}
    (h : ProofVerifies P st roomId payload proof root) :
    (st.trySpaceAdmission P env sender roomId payload).2 =
        spaceAdmissionOk P root proof (presentedGrant P payload) sender roomId env.nowSecs ∧
      (st.trySpaceAdmission P env sender roomId payload).1.1.sfu =
        if spaceAdmissionOk P root proof (presentedGrant P payload) sender roomId env.nowSecs then
          ((sfuMaterialized env st roomId proof.node).createRoom roomId proof.node.name
            (nodeRoomType proof.node) "" env.now).1.allowPeer roomId sender
        else sfuMaterialized env st roomId proof.node := by
  obtain ⟨hproof, hnode, ⟨carried, hcarried, hheld⟩, hver⟩ := h
  unfold trySpaceAdmission
  simp only [hproof, hnode, ne_eq, not_true_eq_false, if_false, hcarried,
    acceptAndGossipSpaceRoot, hheld, hver, Bool.true_eq_false]
  cases hok : spaceAdmissionOk P root proof (presentedGrant P payload) sender roomId env.nowSecs with
  | true =>
    unfold presentedGrant at hok
    simp [hok, localAllowRoomPeer, materializeProven, sfuMaterialized]
  | false =>
    unfold presentedGrant at hok
    simp [hok, materializeProven, sfuMaterialized]

theorem trySpaceAdmission_of_not_verifies {sender roomId : String} {payload : Json}
    (h : ∀ proof root, ¬ ProofVerifies P st roomId payload proof root) :
    (st.trySpaceAdmission P env sender roomId payload).2 = false ∧
      (st.trySpaceAdmission P env sender roomId payload).1.1.sfu = st.sfu := by
  unfold trySpaceAdmission
  cases hproof : (payload.get? "space_proof").bind P.spaceProofFromValue with
  | none => simp
  | some proof =>
    simp only
    by_cases hnode : proof.node.nodeId = roomId
    · cases hcarried : (payload.get? "space_root").bind P.spaceRootFromValue with
      | none => simp [hnode]
      | some carried =>
        simp only [hnode, ne_eq, not_true_eq_false, if_false, acceptAndGossipSpaceRoot]
        cases hheld : (st.spaceRoots.accept P carried).1.get carried.spaceId with
        | none => simp
        | some root =>
          cases hver : proof.verifyAgainst P root with
          | false => simp [hver]
          | true => exact absurd ⟨hproof, hnode, ⟨carried, hcarried, hheld⟩, hver⟩ (h proof root)
    · simp [hnode]

theorem trySpaceAdmission_frame {sender roomId : String} {payload : Json} :
    (st.trySpaceAdmission P env sender roomId payload).1.1.relay = st.relay ∧
      (st.trySpaceAdmission P env sender roomId payload).1.1.peerStore = st.peerStore ∧
      (st.trySpaceAdmission P env sender roomId payload).1.1.config = st.config ∧
      (st.trySpaceAdmission P env sender roomId payload).1.1.handshake = st.handshake := by
  unfold trySpaceAdmission
  split
  · simp
  · split
    · simp
    · split
      · simp
      · simp only [acceptAndGossipSpaceRoot]
        split
        · simp
        · split
          · simp
          · split
            · simp [materializeProven]
            · simp [materializeProven, localAllowRoomPeer]

theorem sfuMaterialized_wf {roomId : String} {node : SpaceNode} (h : SfuWf st.sfu) :
    SfuWf (sfuMaterialized env st roomId node) :=
  (h.createRoomWithPolicy _ _ _ _ _).adoptCreatorIfEmpty _ _

theorem trySpaceAdmission_wf {sender roomId : String} {payload : Json} (h : SfuWf st.sfu) :
    SfuWf (st.trySpaceAdmission P env sender roomId payload).1.1.sfu := by
  by_cases hv : ∃ proof root, ProofVerifies P st roomId payload proof root
  · obtain ⟨proof, root, hv⟩ := hv
    rw [(trySpaceAdmission_of_verifies hv).2]
    split
    · exact ((sfuMaterialized_wf h).createRoomWithPolicy _ _ _ _ _).allowPeer _ _
    · exact sfuMaterialized_wf h
  · push Not at hv
    rw [(trySpaceAdmission_of_not_verifies hv).2]
    exact h

/-! ## Handlers keep the room table well formed -/

variable {msg : SignalingMessage} {raw : String}

theorem admitByJoinToken_wf {roomId sender token : String} (h : SfuWf st.sfu) :
    SfuWf (st.admitByJoinToken roomId sender token).sfu := by
  unfold admitByJoinToken
  simp only
  split
  · exact (h.reregisterInviteToken _ _ _).allowPeer _ _
  · exact h.reregisterInviteToken _ _ _

theorem redeemRoomInvite_wf {roomId sender token : String} (h : SfuWf st.sfu) :
    SfuWf (st.redeemRoomInvite roomId sender token).1.sfu :=
  (h.reregisterInviteToken _ _ _).validateRoomInvite _ _ _

theorem reseedOnCreate_wf {mgr : SFURoomManager} {roomId createdBy sender : String}
    {token : Option String} (h : SfuWf mgr) :
    SfuWf (reseedOnCreate mgr roomId createdBy sender token).1 := by
  unfold reseedOnCreate
  split
  · exact h
  · simp only
    split
    · exact (h.reregisterInviteToken _ _ _).allowPeer _ _
    · exact h.reregisterInviteToken _ _ _

theorem admitOnCreate_wf {roomId roomCreator sender creatorId : String} {createdNew : Bool}
    {token : Option String} (h : SfuWf st.sfu) :
    SfuWf (st.admitOnCreate env roomId roomCreator sender creatorId createdNew token).1.sfu := by
  unfold admitOnCreate
  have hseed : SfuWf (reseedOnCreate st.sfu roomId
      (if roomCreator = "" then creatorId else roomCreator) sender token).1 := reseedOnCreate_wf h
  generalize reseedOnCreate st.sfu roomId _ sender token = seeded at hseed
  simp only
  split
  · split
    · exact (hseed.allowPeer _ _).generateInviteToken _ _ _
    · exact hseed.allowPeer _ _
  · exact hseed

/-- The state a join looks the room up in: after the proof and the token have
been dealt with. -/
def admittedForJoin (P : Platform) (env : Env) (st : SupernodeState) (msg : SignalingMessage) :
    SupernodeState :=
  match msg.payload.nonemptyStr? "invite_token" with
  | none => (st.trySpaceAdmission P env msg.sender.text (frameRoom msg) msg.payload).1.1
  | some token =>
    (st.trySpaceAdmission P env msg.sender.text (frameRoom msg) msg.payload).1.1.admitByJoinToken
      (frameRoom msg) msg.sender.text token

theorem handleSfuJoin_state :
    (st.handleSfuJoin P env msg).1 =
      let adm := st.admittedForJoin P env msg
      let join := adm.sfu.joinRoom msg.sender.text (frameRoom msg)
      if join.2.1 then
        ({ adm with
            sfu := join.1
            relay := adm.relay.joinRoom msg.sender.text (frameRoom msg) } :
          SupernodeState).ensureRelayForRoomGuest P env msg.sender.text |>.1
      else { adm with sfu := join.1 } := by
  unfold handleSfuJoin admittedForJoin frameRoom
  cases msg.payload.nonemptyStr? "invite_token" with
  | none =>
    simp only
    generalize (st.trySpaceAdmission P env msg.sender.text
      ((msg.payload.str? "room_id").getD defaultRoomId) msg.payload).1.1 = adm
    cases (adm.sfu.joinRoom msg.sender.text
      ((msg.payload.str? "room_id").getD defaultRoomId)).2.1 with
    | true => rfl
    | false => rfl
  | some token =>
    simp only
    generalize (st.trySpaceAdmission P env msg.sender.text
      ((msg.payload.str? "room_id").getD defaultRoomId) msg.payload).1.1.admitByJoinToken
      ((msg.payload.str? "room_id").getD defaultRoomId) msg.sender.text token = adm
    cases (adm.sfu.joinRoom msg.sender.text
      ((msg.payload.str? "room_id").getD defaultRoomId)).2.1 with
    | true => rfl
    | false => rfl

theorem handleSfuJoin_sfu :
    (st.handleSfuJoin P env msg).1.sfu =
      ((st.admittedForJoin P env msg).sfu.joinRoom msg.sender.text (frameRoom msg)).1 := by
  rw [handleSfuJoin_state]
  simp only
  split
  · exact ensureRelayForRoomGuest_same.sfu
  · rfl

theorem admittedForJoin_wf (h : SfuWf st.sfu) : SfuWf (st.admittedForJoin P env msg).sfu := by
  unfold admittedForJoin
  split
  · exact trySpaceAdmission_wf h
  · exact admitByJoinToken_wf (trySpaceAdmission_wf h)

theorem handleSfuJoin_wf (h : SfuWf st.sfu) : SfuWf (st.handleSfuJoin P env msg).1.sfu := by
  rw [handleSfuJoin_sfu]
  exact (admittedForJoin_wf h).joinRoom msg.sender.valid _

theorem handleSfuRoomCreate_wf (h : SfuWf st.sfu) :
    SfuWf (st.handleSfuRoomCreate P env msg).1.sfu := by
  unfold handleSfuRoomCreate
  simp only
  split
  · exact h
  · have hmade : SfuWf (st.sfu.createRoomWithPolicy (roomCreateFields P msg).roomId
        (roomCreateFields P msg).roomName (roomCreateFields P msg).roomType
        (roomCreateFields P msg).creatorId (roomCreateFields P msg).invitePolicy env.now).1 :=
      h.createRoomWithPolicy _ _ _ _ _
    split
    · exact admitOnCreate_wf hmade
    · exact hmade

/-- The room an invite message names. -/
def inviteRoom (msg : SignalingMessage) : String := (msg.payload.str? "room_id").getD ""

/-- The token an invite message carries. -/
def inviteToken (msg : SignalingMessage) : String := (msg.payload.str? "invite_token").getD ""

/-- The state an invite message's verdict is given in, and whether a token was
what admitted. -/
def admittedForInvite (P : Platform) (env : Env) (st : SupernodeState) (msg : SignalingMessage) :
    SupernodeState × Bool :=
  let space := st.trySpaceAdmission P env msg.sender.text (inviteRoom msg) msg.payload
  if !space.2 && inviteToken msg != "" then
    space.1.1.redeemRoomInvite (inviteRoom msg) msg.sender.text (inviteToken msg)
  else (space.1.1, false)

/-- The verdict on an invite message. -/
def inviteValid (P : Platform) (env : Env) (st : SupernodeState) (msg : SignalingMessage) : Bool :=
  (st.trySpaceAdmission P env msg.sender.text (inviteRoom msg) msg.payload).2 ||
    (st.admittedForInvite P env msg).2 ||
    ((st.sfu.getRoom (inviteRoom msg)).map (·.isPeerAllowed msg.sender.text)).getD false

/-- The answer to an invite message, from the state its verdict is given in. -/
def answerInvite (P : Platform) (env : Env) (msg : SignalingMessage) (valid : Bool)
    (o : Outcome) : Outcome :=
  match o.1.sfu.getRoom (inviteRoom msg) with
  | none => o
  | some _ => Outcome.andThen (o.1, o.2 ++ [.signed msg.sender.text
      (.sfuRoomInviteResult (inviteRoom msg) valid (if valid then "" else "invalid_token"))])
      fun adm => if valid then adm.ensureRelayForRoomGuest P env msg.sender.text else (adm, [])

theorem handleSfuRoomInvite_eq : st.handleSfuRoomInvite P env msg =
    answerInvite P env msg (st.inviteValid P env msg) ((st.admittedForInvite P env msg).1,
      (st.trySpaceAdmission P env msg.sender.text (inviteRoom msg) msg.payload).1.2) := rfl

theorem handleSfuRoomInvite_state :
    (st.handleSfuRoomInvite P env msg).1 =
      let adm := (st.admittedForInvite P env msg).1
      if (adm.sfu.getRoom (inviteRoom msg)).isSome ∧ st.inviteValid P env msg then
        (adm.ensureRelayForRoomGuest P env msg.sender.text).1
      else adm := by
  rw [handleSfuRoomInvite_eq]
  unfold answerInvite
  cases hroom : (st.admittedForInvite P env msg).1.sfu.getRoom (inviteRoom msg) with
  | none => simp [hroom]
  | some room =>
    cases st.inviteValid P env msg with
    | true => simp [hroom]
    | false => simp

theorem handleSfuRoomInvite_sfu :
    (st.handleSfuRoomInvite P env msg).1.sfu = (st.admittedForInvite P env msg).1.sfu := by
  rw [handleSfuRoomInvite_state]
  simp only
  split
  · exact ensureRelayForRoomGuest_same.sfu
  · rfl

theorem handleSfuRoomInvite_wf (h : SfuWf st.sfu) :
    SfuWf (st.handleSfuRoomInvite P env msg).1.sfu := by
  rw [handleSfuRoomInvite_sfu]
  unfold admittedForInvite
  simp only
  split
  · exact redeemRoomInvite_wf (trySpaceAdmission_wf h)
  · exact trySpaceAdmission_wf h

/-! ## Every event keeps the room table well formed -/

theorem handleHandshakeInit_same : SameRooms st (st.handleHandshakeInit P env msg).1 := by
  unfold handleHandshakeInit
  cases st.handshake.processInit P msg.payload env.nowSecs with
  | error reason => exact ⟨rfl, rfl, rfl, rfl, rfl, rfl, rfl⟩
  | ok accept =>
    have h : SameRooms { st with peerStore := st.peerStore.addPeer (handshakeRecord env msg accept) }
      (onPeerTrusted env { st with
        peerStore := st.peerStore.addPeer (handshakeRecord env msg accept) }
        accept.joinerIdentityPub).1 := onPeerTrusted_same
    exact ⟨h.sfu, h.relayPeers, h.relayRooms, h.config, h.spaceRoots, h.replicationSeen,
      h.gameReplicationSeq⟩

theorem handleRelayRequest_same : SameRooms st (st.handleRelayRequest P env msg).1 := by
  unfold handleRelayRequest
  simp only
  split
  · split
    · exact ensureRelayForRoomGuest_same
    · exact issueTicket_same
  · exact ⟨rfl, rfl, rfl, rfl, rfl, rfl, rfl⟩

theorem onPeerConnected_same {p : String} : SameRooms st (st.onPeerConnected env p).1 := by
  unfold onPeerConnected
  split
  · have h : SameRooms { st with peerStore := st.peerStore.touchPeer p env.now }
      (onPeerTrusted env { st with peerStore := st.peerStore.touchPeer p env.now } p).1 :=
      onPeerTrusted_same
    exact ⟨h.sfu, h.relayPeers, h.relayRooms, h.config, h.spaceRoots, h.replicationSeen,
      h.gameReplicationSeq⟩
  · exact ⟨rfl, rfl, rfl, rfl, rfl, rfl, rfl⟩

theorem applyPeerAuth_same {identityPub handle : String} {direct : Bool} :
    SameRooms st (st.applyPeerAuth P env identityPub handle direct).1 := by
  have hrelay : ∀ (store : PeerStore) (full : Bool) (p : String),
      SameRooms st { st with
        peerStore := store
        relay := if full then st.relay.allowPeer p else st.relay.allowPortalPeer p } := by
    intro store full p
    cases full <;> exact ⟨rfl, rfl, rfl, rfl, rfl, rfl, rfl⟩
  unfold applyPeerAuth
  generalize st.mergePeerAuth P env (normalizePublicId identityPub) handle direct = merged
  simp only
  split
  · exact (hrelay _ _ _).trans issueTicket_same
  · exact hrelay _ _ _

theorem handleGameRelayJoin_sfu : (st.handleGameRelayJoin msg).1.sfu = st.sfu := by
  unfold handleGameRelayJoin
  simp only
  split <;> rfl

theorem handleSpaceRootAnnounce_sfu : (st.handleSpaceRootAnnounce P msg).1.sfu = st.sfu := by
  unfold handleSpaceRootAnnounce
  split
  · rfl
  · split <;> rfl

theorem handleSfuBroadcast_state {kind : FileMessage} :
    (st.handleSfuBroadcast env msg raw kind).1 = st := by
  unfold handleSfuBroadcast
  simp only
  repeat' split
  all_goals rfl

theorem handleSfuChatBroadcast_state : (st.handleSfuChatBroadcast env msg raw).1 = st := by
  unfold handleSfuChatBroadcast
  simp only
  repeat' split
  all_goals rfl

theorem handleSfuVideoState_state : (st.handleSfuVideoState msg raw).1 = st := by
  unfold handleSfuVideoState
  simp only
  split <;> rfl

theorem handleSfuVideoKeyframeRequest_state :
    (st.handleSfuVideoKeyframeRequest msg raw).1 = st := by
  unfold handleSfuVideoKeyframeRequest
  simp only
  repeat' split
  all_goals rfl

theorem handleSfuVideoSubscribe_sfu : (st.handleSfuVideoSubscribe msg).1.sfu = st.sfu := by
  unfold handleSfuVideoSubscribe
  simp only
  repeat' split
  all_goals rfl

theorem handleSfuAudioBroadcast_wf (h : SfuWf st.sfu) :
    SfuWf (st.handleSfuAudioBroadcast P env msg raw).1.sfu := by
  have hfwd : SfuWf
      (st.sfu.audioForwardTargets P.decay (frameRoom msg) msg.sender.text env.now).1 :=
    h.audioForwardTargets (frameRoom msg) msg.sender.text
  unfold handleSfuAudioBroadcast
  simp only
  repeat' split
  · exact h
  · exact h
  · exact hfwd
  · exact hfwd

theorem handleSfuSubscribe_wf (h : SfuWf st.sfu) : SfuWf (st.handleSfuSubscribe msg).1.sfu := by
  unfold handleSfuSubscribe
  split
  · exact h
  · exact h.subscribe _ _

theorem handleSfuUnsubscribe_wf (h : SfuWf st.sfu) :
    SfuWf (st.handleSfuUnsubscribe env msg).1.sfu := by
  unfold handleSfuUnsubscribe
  split
  · exact h
  · exact h.unsubscribe _ _

theorem handleSfuInviteGenerate_wf (h : SfuWf st.sfu) :
    SfuWf (st.handleSfuInviteGenerate env msg).1.sfu := by
  have hmint := h.generateInviteTokenChecked ((msg.payload.str? "room_id").getD "")
    msg.sender.text env.nonce
  unfold handleSfuInviteGenerate
  simp only
  split
  · rename_i heq
    rw [heq] at hmint
    exact hmint
  · exact h
  · exact h

theorem onMessage_wf (h : SfuWf st.sfu) : SfuWf (st.onMessage P env msg raw).1.sfu := by
  have hsame : ∀ st' : SupernodeState, st'.sfu = st.sfu → SfuWf st'.sfu := by
    intro st' heq
    rw [heq]
    exact h
  unfold onMessage
  cases msg.msgType with
  | inviteHandshakeInit => exact hsame _ handleHandshakeInit_same.sfu
  | relayRequest => exact hsame _ handleRelayRequest_same.sfu
  | sfuJoin => exact handleSfuJoin_wf h
  | sfuLeave => exact h.leaveRoom _ _
  | sfuRoomList => exact h
  | sfuChat => exact hsame _ (congrArg sfu handleSfuChatBroadcast_state)
  | sfuAudio => exact handleSfuAudioBroadcast_wf h
  | sfuFile kind => exact hsame _ (congrArg sfu handleSfuBroadcast_state)
  | sfuVideoState => exact hsame _ (congrArg sfu handleSfuVideoState_state)
  | sfuVideoKeyframeRequest => exact hsame _ (congrArg sfu handleSfuVideoKeyframeRequest_state)
  | sfuVideoSubscribe => exact hsame _ handleSfuVideoSubscribe_sfu
  | sfuSubscribe => exact handleSfuSubscribe_wf h
  | sfuUnsubscribe => exact handleSfuUnsubscribe_wf h
  | sfuRoomCreate => exact handleSfuRoomCreate_wf h
  | sfuRoomInvite => exact handleSfuRoomInvite_wf h
  | sfuRoomInviteGenerate => exact handleSfuInviteGenerate_wf h
  | spaceRootAnnounce => exact hsame _ handleSpaceRootAnnounce_sfu
  | gameRelayJoin => exact hsame _ handleGameRelayJoin_sfu
  | gameRelayLeave => exact h
  | ping => exact h
  | other => exact h

theorem onPeerDisconnected_sfu {p : String} :
    (st.onPeerDisconnected env p).1.sfu = (st.sfu.removePeerFromAll p env.now).1 := by
  unfold onPeerDisconnected
  simp only
  split <;> rfl

theorem healRoom_same {fromPeer : String} {from_ : RelayPeer} {payloadRoom : Option String}
    (hfrom : st.relay.peers[fromPeer]? = some from_) :
    (st.healRoom fromPeer from_ payloadRoom).sfu = st.sfu ∧
      (st.healRoom fromPeer from_ payloadRoom).config = st.config ∧
      (st.healRoom fromPeer from_ payloadRoom).peerStore = st.peerStore ∧
      ∀ k, (st.healRoom fromPeer from_ payloadRoom).relay.peers.contains k =
        st.relay.peers.contains k := by
  unfold healRoom
  split
  · refine ⟨rfl, rfl, rfl, ?_⟩
    intro k
    simp only [Std.ExtTreeMap.contains_insert]
    by_cases heq : fromPeer = k
    · subst heq
      simp [Std.ExtTreeMap.contains_eq_isSome_getElem?, hfrom]
    · simp [heq]
  · exact ⟨rfl, rfl, rfl, fun _ => rfl⟩

theorem handleRoomAudioDatagram_state {fromPeer : String} {quotaBytes : Nat}
    {payloadRoom : Option String} {parsed : Option SignalingMessage} :
    (st.handleRoomAudioDatagram P env fromPeer raw quotaBytes payloadRoom parsed).1 = st ∨
      ∃ from_, st.relay.peers[fromPeer]? = some from_ ∧
        ((st.handleRoomAudioDatagram P env fromPeer raw quotaBytes payloadRoom parsed).1 =
            st.healRoom fromPeer from_ payloadRoom ∨
          ∃ roomId, (st.handleRoomAudioDatagram P env fromPeer raw quotaBytes payloadRoom
            parsed).1 = { st.healRoom fromPeer from_ payloadRoom with
              sfu := ((st.healRoom fromPeer from_ payloadRoom).sfu.audioForwardTargets P.decay
                roomId (padBase64url fromPeer) env.now).1 }) := by
  unfold handleRoomAudioDatagram
  split
  · exact .inl rfl
  · cases hfrom : st.relay.peers[fromPeer]? with
    | none => exact .inl rfl
    | some from_ =>
      refine .inr ⟨from_, rfl, ?_⟩
      simp only
      split
      · exact .inl rfl
      · rename_i roomId _
        refine .inr ⟨roomId, ?_⟩
        unfold roomAudioBridge
        simp only
        split <;> rfl

theorem handleRoomAudioDatagram_wf {fromPeer : String} {quotaBytes : Nat}
    {payloadRoom : Option String} {parsed : Option SignalingMessage} (h : SfuWf st.sfu) :
    SfuWf (st.handleRoomAudioDatagram P env fromPeer raw quotaBytes payloadRoom parsed).1.sfu := by
  rcases @handleRoomAudioDatagram_state P env st raw fromPeer quotaBytes payloadRoom parsed with
    heq | ⟨from_, hfrom, heq | ⟨roomId, heq⟩⟩
  · rw [heq]
    exact h
  · rw [heq, (healRoom_same hfrom).1]
    exact h
  · rw [heq]
    simp only
    rw [(healRoom_same hfrom).1]
    exact h.audioForwardTargets _ _

theorem deliverReplicatedRoomFrame_state {roomId messageId : String} :
    (st.deliverReplicatedRoomFrame P env roomId messageId raw).1 = (st.insertSeen messageId).1 := by
  unfold deliverReplicatedRoomFrame deliverReplicatedGameDatagram deliverReplicatedAudio
    deliverReplicatedChat
  simp only
  repeat' split
  all_goals rfl

theorem replicateGameDatagram_sfu {sessionId fromPeer : String} {payload : Lib.Encoding.Bytes} :
    (st.replicateGameDatagram P sessionId fromPeer payload).1.sfu = st.sfu := by
  unfold replicateGameDatagram
  split <;> rfl

theorem step_wf (h : SfuWf st.sfu) (e : Event) : SfuWf (st.step P e).sfu := by
  have hsame : ∀ st' : SupernodeState, st'.sfu = st.sfu → SfuWf st'.sfu := by
    intro st' heq
    rw [heq]
    exact h
  unfold step handle
  cases e with
  | message env msg raw => exact onMessage_wf h
  | peerConnected env peer => exact hsame _ onPeerConnected_same.sfu
  | peerDisconnected env peer =>
    rw [onPeerDisconnected_sfu]
    exact h.removePeerFromAll _
  | relayConnected certs connection order => exact h
  | relayClosed peerId connection => exact h
  | roomAudioDatagram env fromPeer raw quotaBytes payloadRoom parsed =>
    exact handleRoomAudioDatagram_wf h
  | gameDatagram sessionId fromPeer payload => exact hsame _ replicateGameDatagram_sfu
  | replicated env roomId messageId raw =>
    simp only [deliverReplicatedRoomFrame_state]
    exact h
  | peerAuth env identityPub handle directInvite => exact hsame _ applyPeerAuth_same.sfu
  | roomRoster env desc => exact h.createRoomWithPolicy _ _ _ _ _
  | spaceRoot root => exact h
  | gcIdleRooms now idleSecs => exact h.gcIdleRooms _ _

/-- In every run of a node from its start, the room table is well formed. -/
theorem run_wf (config : Config) (peers : PeerStore) (handshake : HandshakeManager)
    (es : List Event) : SfuWf (Lib.Run.run (step P) (.start config peers handshake) es).sfu :=
  Lib.Run.run_inv (fun s : SupernodeState => SfuWf s.sfu) SfuWf.new fun _ e hs => step_wf hs e

/-! ## What events leave to the cluster link -/

/-- The parts of a state that rooms, relay and trust never write: the node's
configuration and what the replication paths keep. A held root is at most
offered one other root. -/
structure KeepsLink (P : Platform) (st st' : SupernodeState) : Prop where
  config : st'.config = st.config
  replicationSeen : st'.replicationSeen = st.replicationSeen
  gameReplicationSeq : st'.gameReplicationSeq = st.gameReplicationSeq
  spaceRoots : st'.spaceRoots = st.spaceRoots ∨
    ∃ root, st'.spaceRoots = (st.spaceRoots.accept P root).1

theorem KeepsLink.refl (P : Platform) (st : SupernodeState) : KeepsLink P st st :=
  ⟨rfl, rfl, rfl, .inl rfl⟩

theorem KeepsLink.trans_same {st st' st'' : SupernodeState} (h : KeepsLink P st st')
    (h' : SameRooms st' st'') : KeepsLink P st st'' :=
  ⟨h'.config.trans h.config, h'.replicationSeen.trans h.replicationSeen,
    h'.gameReplicationSeq.trans h.gameReplicationSeq, by rw [h'.spaceRoots]; exact h.spaceRoots⟩

theorem SameRooms.keepsLink {st' : SupernodeState} (h : SameRooms st st') : KeepsLink P st st' :=
  (KeepsLink.refl P st).trans_same h

theorem acceptAndGossipSpaceRoot_keepsLink {root : SignedSpaceRoot} :
    KeepsLink P st (st.acceptAndGossipSpaceRoot P root).1 :=
  ⟨rfl, rfl, rfl, .inr ⟨root, rfl⟩⟩

theorem trySpaceAdmission_keepsLink {sender roomId : String} {payload : Json} :
    KeepsLink P st (st.trySpaceAdmission P env sender roomId payload).1.1 := by
  unfold trySpaceAdmission
  split
  · exact .refl P st
  · split
    · exact .refl P st
    · split
      · exact .refl P st
      · rename_i carried _
        simp only [acceptAndGossipSpaceRoot]
        split
        · exact ⟨rfl, rfl, rfl, .inr ⟨carried, rfl⟩⟩
        · split
          · exact ⟨rfl, rfl, rfl, .inr ⟨carried, rfl⟩⟩
          · split
            · exact ⟨rfl, rfl, rfl, .inr ⟨carried, rfl⟩⟩
            · exact ⟨rfl, rfl, rfl, .inr ⟨carried, rfl⟩⟩

theorem admittedForJoin_keepsLink : KeepsLink P st (st.admittedForJoin P env msg) := by
  have h := @trySpaceAdmission_keepsLink P env st msg.sender.text (frameRoom msg) msg.payload
  unfold admittedForJoin
  split
  · exact h
  · exact ⟨h.config, h.replicationSeen, h.gameReplicationSeq, h.spaceRoots⟩

theorem admittedForInvite_keepsLink : KeepsLink P st (st.admittedForInvite P env msg).1 := by
  have h := @trySpaceAdmission_keepsLink P env st msg.sender.text (inviteRoom msg) msg.payload
  unfold admittedForInvite
  simp only
  split
  · exact ⟨h.config, h.replicationSeen, h.gameReplicationSeq, h.spaceRoots⟩
  · exact h

theorem handleSfuJoin_keepsLink : KeepsLink P st (st.handleSfuJoin P env msg).1 := by
  have h := @admittedForJoin_keepsLink P env st msg
  have h' : KeepsLink P st { st.admittedForJoin P env msg with
      sfu := ((st.admittedForJoin P env msg).sfu.joinRoom msg.sender.text (frameRoom msg)).1
      relay := (st.admittedForJoin P env msg).relay.joinRoom msg.sender.text (frameRoom msg) } :=
    ⟨h.config, h.replicationSeen, h.gameReplicationSeq, h.spaceRoots⟩
  rw [handleSfuJoin_state]
  simp only
  split
  · exact h'.trans_same ensureRelayForRoomGuest_same
  · exact ⟨h.config, h.replicationSeen, h.gameReplicationSeq, h.spaceRoots⟩

theorem handleSfuRoomInvite_keepsLink : KeepsLink P st (st.handleSfuRoomInvite P env msg).1 := by
  rw [handleSfuRoomInvite_state]
  simp only
  split
  · exact admittedForInvite_keepsLink.trans_same ensureRelayForRoomGuest_same
  · exact admittedForInvite_keepsLink

theorem handleSfuRoomCreate_keepsLink : KeepsLink P st (st.handleSfuRoomCreate P env msg).1 := by
  unfold handleSfuRoomCreate admitOnCreate
  simp only
  repeat' split
  all_goals exact ⟨rfl, rfl, rfl, .inl rfl⟩

theorem handleSfuAudioBroadcast_keepsLink :
    KeepsLink P st (st.handleSfuAudioBroadcast P env msg raw).1 := by
  unfold handleSfuAudioBroadcast
  simp only
  repeat' split
  all_goals exact ⟨rfl, rfl, rfl, .inl rfl⟩

theorem handleSpaceRootAnnounce_keepsLink :
    KeepsLink P st (st.handleSpaceRootAnnounce P msg).1 := by
  unfold handleSpaceRootAnnounce
  split
  · exact .refl P st
  · split
    · exact .refl P st
    · exact acceptAndGossipSpaceRoot_keepsLink

theorem onMessage_keepsLink : KeepsLink P st (st.onMessage P env msg raw).1 := by
  have hsame : ∀ st', st' = st → KeepsLink P st st' := by
    rintro _ rfl
    exact .refl P _
  unfold onMessage
  cases msg.msgType with
  | inviteHandshakeInit => exact handleHandshakeInit_same.keepsLink
  | relayRequest => exact handleRelayRequest_same.keepsLink
  | sfuJoin => exact handleSfuJoin_keepsLink
  | sfuLeave => exact ⟨rfl, rfl, rfl, .inl rfl⟩
  | sfuRoomList => exact .refl P st
  | sfuChat => exact hsame _ handleSfuChatBroadcast_state
  | sfuAudio => exact handleSfuAudioBroadcast_keepsLink
  | sfuFile kind => exact hsame _ handleSfuBroadcast_state
  | sfuVideoState => exact hsame _ handleSfuVideoState_state
  | sfuVideoKeyframeRequest => exact hsame _ handleSfuVideoKeyframeRequest_state
  | sfuVideoSubscribe =>
    simp only [handleSfuVideoSubscribe]
    repeat' split
    all_goals exact ⟨rfl, rfl, rfl, .inl rfl⟩
  | sfuSubscribe =>
    simp only [handleSfuSubscribe]
    split <;> exact ⟨rfl, rfl, rfl, .inl rfl⟩
  | sfuUnsubscribe =>
    simp only [handleSfuUnsubscribe]
    split <;> exact ⟨rfl, rfl, rfl, .inl rfl⟩
  | sfuRoomCreate => exact handleSfuRoomCreate_keepsLink
  | sfuRoomInvite => exact handleSfuRoomInvite_keepsLink
  | sfuRoomInviteGenerate =>
    simp only [handleSfuInviteGenerate]
    split <;> exact ⟨rfl, rfl, rfl, .inl rfl⟩
  | spaceRootAnnounce => exact handleSpaceRootAnnounce_keepsLink
  | gameRelayJoin =>
    simp only [handleGameRelayJoin]
    split <;> exact ⟨rfl, rfl, rfl, .inl rfl⟩
  | gameRelayLeave => exact ⟨rfl, rfl, rfl, .inl rfl⟩
  | ping => exact .refl P st
  | other => exact .refl P st

theorem onPeerDisconnected_keepsLink {p : String} :
    KeepsLink P st (st.onPeerDisconnected env p).1 := by
  unfold onPeerDisconnected
  simp only
  split <;> exact ⟨rfl, rfl, rfl, .inl rfl⟩

theorem handleRoomAudioDatagram_keepsLink {fromPeer : String} {quotaBytes : Nat}
    {payloadRoom : Option String} {parsed : Option SignalingMessage} :
    KeepsLink P st
      (st.handleRoomAudioDatagram P env fromPeer raw quotaBytes payloadRoom parsed).1 := by
  have hheal : ∀ from_, KeepsLink P st (st.healRoom fromPeer from_ payloadRoom) := by
    intro from_
    unfold healRoom
    split <;> exact ⟨rfl, rfl, rfl, .inl rfl⟩
  rcases @handleRoomAudioDatagram_state P env st raw fromPeer quotaBytes payloadRoom parsed with
    heq | ⟨from_, -, heq | ⟨roomId, heq⟩⟩
  · rw [heq]
    exact .refl P st
  · rw [heq]
    exact hheal from_
  · rw [heq]
    obtain ⟨hconfig, hseen, hseq, hroots⟩ := hheal from_
    exact ⟨hconfig, hseen, hseq, hroots⟩

theorem handle_keepsLink {e : Event} (hgame : ∀ s p b, e ≠ .gameDatagram s p b)
    (hrepl : ∀ env r i raw, e ≠ .replicated env r i raw) : KeepsLink P st (st.handle P e).1 := by
  unfold handle
  cases e with
  | message env msg raw => exact onMessage_keepsLink
  | peerConnected env peer => exact onPeerConnected_same.keepsLink
  | peerDisconnected env peer => exact onPeerDisconnected_keepsLink
  | relayConnected certs connection order => exact ⟨rfl, rfl, rfl, .inl rfl⟩
  | relayClosed peerId connection => exact ⟨rfl, rfl, rfl, .inl rfl⟩
  | roomAudioDatagram env fromPeer raw quotaBytes payloadRoom parsed =>
    exact handleRoomAudioDatagram_keepsLink
  | gameDatagram sessionId fromPeer payload => exact absurd rfl (hgame _ _ _)
  | replicated env roomId messageId raw => exact absurd rfl (hrepl _ _ _ _)
  | peerAuth env identityPub handle directInvite => exact applyPeerAuth_same.keepsLink
  | roomRoster env desc => exact ⟨rfl, rfl, rfl, .inl rfl⟩
  | spaceRoot root => exact ⟨rfl, rfl, rfl, .inr ⟨root, rfl⟩⟩
  | gcIdleRooms now idleSecs => exact ⟨rfl, rfl, rfl, .inl rfl⟩

end SupernodeState

end ConquerD.Supernode
