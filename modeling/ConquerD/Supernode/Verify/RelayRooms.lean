import ConquerD.Supernode.Verify.Membership

/-!
# Relay rooms and SFU rooms

The SFU keeps every room a peer is in; the relay keeps one room per connection
and a table of room members. Joins write both. A leave takes the peer out of
whatever room its relay connection is in, and a closed signaling socket leaves
the relay alone. The tables agree along every run whose departures find the
relay where the SFU is.
-/

namespace ConquerD.Supernode

open Std (ExtTreeMap)
open Lib.Rosters Lib.Run Wire

/-! ## The relay's tables -/

namespace RelayState

variable {rs : RelayState} {p p' r r' : String}

/-- A connection with a room is listed in that room. -/
def ConnectedListed (rs : RelayState) : Prop :=
  ∀ p peer r, rs.peers[p]? = some peer → peer.roomId = some r → Listed rs.rooms r p

theorem listed_joinRoom (h : Listed (rs.joinRoom p r).rooms r' p') :
    Listed rs.rooms r' p' ∨ (r = r' ∧ bare p = p') := by
  unfold joinRoom at h
  simp only [listed_addMember] at h
  rcases h with h | h
  · left
    split at h
    · exact h
    · exact (listed_removeMember.mp h).1
  · exact .inr h

theorem joinRoom_connectedListed (h : rs.ConnectedListed) :
    (rs.joinRoom p r).ConnectedListed := by
  intro p' peer r' hpeer hroom
  unfold joinRoom at hpeer ⊢
  simp only [ExtTreeMap.getElem?_modify, Std.compare_eq_iff_eq] at hpeer
  simp only [listed_addMember]
  by_cases heq : bare p = p'
  · rw [if_pos heq] at hpeer
    obtain ⟨old, -, rfl⟩ := Option.map_eq_some_iff.mp hpeer
    cases hroom
    exact .inr ⟨rfl, heq⟩
  · rw [if_neg heq] at hpeer
    have hlisted := h p' peer r' hpeer hroom
    left
    split
    · exact hlisted
    · exact listed_removeMember.mpr ⟨hlisted, fun hboth => heq hboth.2⟩

/-- The room the peer's connection is in. -/
def roomOf (rs : RelayState) (p : String) : Option String :=
  rs.peers[bare p]?.bind (·.roomId)

theorem leaveRoom_of_roomOf_none (h : rs.roomOf p = none) : rs.leaveRoom p = rs := by
  unfold roomOf at h
  unfold leaveRoom
  simp only
  cases hp : rs.peers[bare p]? with
  | none => rfl
  | some peer =>
    rw [hp] at h
    have hroom : peer.roomId = none := h
    simp [hroom]

theorem listed_leaveRoom (h : rs.roomOf p = some r) :
    Listed (rs.leaveRoom p).rooms r' p' ↔ Listed rs.rooms r' p' ∧ ¬ (r = r' ∧ bare p = p') := by
  unfold roomOf at h
  obtain ⟨peer, hpeer, hroom⟩ := Option.bind_eq_some_iff.mp h
  unfold leaveRoom
  simp only [hpeer, hroom, listed_removeMember]

theorem leaveRoom_connectedListed (h : rs.ConnectedListed) : (rs.leaveRoom p).ConnectedListed := by
  cases hroom : rs.roomOf p with
  | none =>
    rw [leaveRoom_of_roomOf_none hroom]
    exact h
  | some r =>
    intro p' peer r' hpeer hr'
    rw [listed_leaveRoom hroom]
    obtain ⟨old, hold, holdRoom⟩ := Option.bind_eq_some_iff.mp hroom
    simp only [leaveRoom, hold, holdRoom, ExtTreeMap.getElem?_insert, Std.compare_eq_iff_eq]
      at hpeer
    by_cases heq : bare p = p'
    · rw [if_pos heq] at hpeer
      cases hpeer
      cases hr'
    · rw [if_neg heq] at hpeer
      exact ⟨h p' peer r' hpeer hr', fun hboth => heq hboth.2⟩

theorem listed_softReplace (h : rs.ConnectedListed) :
    Listed (rs.softReplace p).rooms r' p' ↔ Listed rs.rooms r' p' := by
  unfold softReplace
  cases hp : rs.peers[p]? with
  | none => rfl
  | some old =>
    simp only
    cases hroom : old.roomId with
    | none => rfl
    | some room =>
      simp only [listed_addMember]
      constructor
      · rintro (hl | ⟨rfl, rfl⟩)
        · exact hl
        · exact h p old room hp hroom
      · exact .inl

theorem softReplace_peers :
    (rs.softReplace p).peers[p']? = if p = p' then none else rs.peers[p']? := by
  unfold softReplace
  cases hp : rs.peers[p]? with
  | none =>
    simp only
    split
    · rename_i heq
      rw [← heq, hp]
    · rfl
  | some old => simp [ExtTreeMap.getElem?_erase]

theorem softReplace_connectedListed (h : rs.ConnectedListed) :
    (rs.softReplace p).ConnectedListed := by
  intro p' peer r' hpeer hroom
  rw [softReplace_peers] at hpeer
  rw [listed_softReplace h]
  split at hpeer
  · cases hpeer
  · exact h p' peer r' hpeer hroom

theorem allocateIndex_rooms {idx : Nat} {rs' : RelayState}
    (h : rs.allocateIndex = some (idx, rs')) : rs'.rooms = rs.rooms ∧ rs'.peers = rs.peers := by
  unfold allocateIndex at h
  split at h
  · cases h
  · cases h
    exact ⟨rfl, rfl⟩

theorem listed_of_findRoomOf {order : List String} (h : rs.findRoomOf order p = some r) :
    Listed rs.rooms r p := by
  unfold findRoomOf at h
  simpa using List.find?_some h

theorem listed_handleConnection {certs : List (List UInt8)} {connection : Nat}
    {order : List String} (h : rs.ConnectedListed) :
    (∀ r' p', Listed (rs.handleConnection certs connection order).1.rooms r' p' ↔
        Listed rs.rooms r' p') ∧
      (rs.handleConnection certs connection order).1.ConnectedListed := by
  unfold handleConnection
  cases extractPeerId certs with
  | error e => exact ⟨fun _ _ => .rfl, h⟩
  | ok peerId =>
    simp only
    split
    · exact ⟨fun _ _ => .rfl, h⟩
    · split
      · exact ⟨fun _ _ => .rfl, h⟩
      · cases halloc : (rs.softReplace peerId).allocateIndex with
        | none => exact ⟨fun _ _ => listed_softReplace h, softReplace_connectedListed h⟩
        | some found =>
          obtain ⟨idx, rs'⟩ := found
          obtain ⟨hrooms, hpeers⟩ := allocateIndex_rooms halloc
          simp only
          refine ⟨fun r' p' => by rw [hrooms]; exact listed_softReplace h, ?_⟩
          intro q peer room hpeer hroom
          simp only [ExtTreeMap.getElem?_insert, Std.compare_eq_iff_eq] at hpeer
          split at hpeer
          · rename_i heq
            subst heq
            cases hpeer
            -- the room of the connection that was replaced, or one that lists the peer
            simp only [Option.orElse_eq_or, Option.or_eq_some_iff] at hroom
            rcases hroom with hprior | ⟨-, hfound⟩
            · obtain ⟨old, hold, holdRoom⟩ := Option.bind_eq_some_iff.mp hprior
              rw [hrooms, listed_softReplace h]
              exact h peerId old room hold holdRoom
            · exact listed_of_findRoomOf hfound
          · rw [hpeers] at hpeer
            rw [hrooms]
            exact softReplace_connectedListed h q peer room hpeer hroom

theorem listed_removePeer :
    Listed (rs.removePeer p).rooms r' p' ↔ Listed rs.rooms r' p' ∧ p ≠ p' := by
  unfold removePeer
  cases hp : rs.peers[p]? with
  | none =>
    simp only [hp]
    split
    · exact listed_removeEverywhere
    · exact listed_removeEverywhere
  | some peer =>
    simp only [hp]
    cases hroom : peer.roomId with
    | none =>
      split
      · exact listed_removeEverywhere
      · exact listed_removeEverywhere
    | some room =>
      have hboth : Listed (removeEverywhere (removeMember rs.rooms room p) p) r' p' ↔
          Listed rs.rooms r' p' ∧ p ≠ p' := by
        simp only [listed_removeEverywhere, listed_removeMember]
        tauto
      split
      · exact hboth
      · exact hboth

theorem removePeer_peers {peer : RelayPeer} (h : (rs.removePeer p).peers[p']? = some peer) :
    rs.peers[p']? = some peer ∧ p ≠ p' := by
  cases hp : rs.peers[p]? with
  | none =>
    have hpeers : (rs.removePeer p).peers = rs.peers := by
      simp only [removePeer, hp]
      split
      · rfl
      · rfl
    rw [hpeers] at h
    refine ⟨h, ?_⟩
    rintro rfl
    cases hp.symm.trans h
  | some old =>
    have hpeers : (rs.removePeer p).peers = rs.peers.erase p := by
      simp only [removePeer, hp]
      split
      · rfl
      · rfl
    rw [hpeers] at h
    simpa [ExtTreeMap.getElem?_erase, and_comm] using h

theorem listed_connectionClosed {connection : Nat} (h : rs.ConnectedListed) :
    (∀ r' p', Listed (rs.connectionClosed p connection).rooms r' p' → Listed rs.rooms r' p') ∧
      (rs.connectionClosed p connection).ConnectedListed := by
  unfold connectionClosed
  split
  · split
    · refine ⟨fun _ _ hl => (listed_removePeer.mp hl).1, ?_⟩
      intro q peer room hpeer hroom
      obtain ⟨hold, hne⟩ := removePeer_peers hpeer
      exact listed_removePeer.mpr ⟨h q peer room hold hroom, hne⟩
    · exact ⟨fun _ _ => id, h⟩
  · exact ⟨fun _ _ => id, h⟩

end RelayState

/-! ## One event -/

/-- The events that move peers between rooms: joins and leaves, closed sockets,
and relay connections that open and close. -/
def Event.movesPeers : Event → Bool
  | .message _ msg _ => msg.msgType = .sfuJoin ∨ msg.msgType = .sfuLeave
  | .peerDisconnected _ _ => true
  | .relayConnected _ _ _ => true
  | .relayClosed _ _ => true
  | _ => false

/-- Every peer in a relay room is a participant of the SFU room. -/
def RelayFollows (st : SupernodeState) : Prop :=
  ∀ r p, Listed st.relay.rooms r p → Participates st.sfu r p

/-- A leave names the room the peer's relay connection is in. With no such room,
the relay does not list the peer in the room it leaves. A signaling socket
closes when the relay lists its peer nowhere. -/
def DepartureFollowed (st : SupernodeState) : Event → Prop
  | .message _ msg _ =>
    msg.msgType = .sfuLeave →
      st.relay.roomOf msg.sender.text = some (SupernodeState.frameRoom msg) ∨
        (st.relay.roomOf msg.sender.text = none ∧
          ¬ Listed st.relay.rooms (SupernodeState.frameRoom msg) (bare msg.sender.text))
  | .peerDisconnected _ peer => ∀ r, ¬ Listed st.relay.rooms r (bare peer.text)
  | _ => True

/-- A leave keeps the peer's relay membership in every other room. -/
def LeaveStaysLocal (P : Platform) (st : SupernodeState) (e : Event) : Prop :=
  match e with
  | .message _ msg _ =>
    msg.msgType = .sfuLeave → ∀ r, r ≠ SupernodeState.frameRoom msg →
      (Listed (st.step P e).relay.rooms r (bare msg.sender.text) ↔
        Listed st.relay.rooms r (bare msg.sender.text))
  | _ => True

namespace SupernodeState

variable {P : Platform} {env : Env} {st : SupernodeState} {msg : SignalingMessage}

/-- What holds between the two tables at every event. -/
structure RelayInv (st : SupernodeState) : Prop where
  follows : RelayFollows st
  connected : st.relay.ConnectedListed

theorem RelayInv.start (config : Config) (peers : PeerStore) (handshake : HandshakeManager) :
    RelayInv (.start config peers handshake) := by
  have hgrants : ∀ (ids : List String) (rs : RelayState),
      (ids.foldl RelayState.allowPeer rs).rooms = rs.rooms ∧
        (ids.foldl RelayState.allowPeer rs).peers = rs.peers := by
    intro ids
    induction ids with
    | nil => exact fun rs => ⟨rfl, rfl⟩
    | cons id ids ih => exact fun rs => ih (rs.allowPeer id)
  obtain ⟨hrooms, hpeers⟩ := hgrants peers.trustedPeerIds .new
  refine ⟨?_, ?_⟩
  · intro r p hl
    simp only [SupernodeState.start, hrooms] at hl
    exact absurd hl (listed_empty r p)
  · intro p peer r hpeer
    simp only [SupernodeState.start] at hpeer
    rw [hpeers] at hpeer
    simp [RelayState.new] at hpeer

theorem RelayInv.of_same {st' : SupernodeState} (h : RelayInv st) (hsame : SameRooms st st') :
    RelayInv st' := by
  refine ⟨?_, ?_⟩
  · intro r p hl
    rw [hsame.relayRooms] at hl
    rw [hsame.sfu]
    exact h.follows r p hl
  · intro p peer r hpeer hroom
    rw [hsame.relayPeers] at hpeer
    rw [hsame.relayRooms]
    exact h.connected p peer r hpeer hroom

theorem admittedForJoin_relay : (st.admittedForJoin P env msg).relay = st.relay := by
  unfold admittedForJoin
  split
  · exact trySpaceAdmission_frame.1
  · exact trySpaceAdmission_frame.1

theorem RelayInv.sfuJoin (h : RelayInv st) : RelayInv (st.handleSfuJoin P env msg).1 := by
  rw [handleSfuJoin_state]
  simp only
  have hkept : KeepsParticipants st.sfu
      ((st.admittedForJoin P env msg).sfu.joinRoom msg.sender.text (frameRoom msg)).1 :=
    admittedForJoin_keeps.trans (.joinRoom _ _ _)
  have hstay : ∀ r p, Listed st.relay.rooms r p → Participates
      ((st.admittedForJoin P env msg).sfu.joinRoom msg.sender.text (frameRoom msg)).1 r p := by
    intro r p hl
    obtain ⟨q, hq, hbare⟩ := h.follows r p hl
    exact ⟨q, hkept r q hq, hbare⟩
  split
  · rename_i hok
    refine RelayInv.of_same ?_ ensureRelayForRoomGuest_same
    refine ⟨?_, ?_⟩
    · intro r p hl
      rw [admittedForJoin_relay] at hl
      rcases RelayState.listed_joinRoom hl with hl | ⟨rfl, rfl⟩
      · exact hstay r p hl
      · exact ⟨_, isParticipant_of_joinRoom hok, bare_normalizePublicId _⟩
    · simp only [admittedForJoin_relay]
      exact RelayState.joinRoom_connectedListed h.connected
  · refine ⟨?_, ?_⟩
    · intro r p hl
      simp only [admittedForJoin_relay] at hl
      exact hstay r p hl
    · simp only [admittedForJoin_relay]
      exact h.connected

theorem listed_leave {raw : String} (hd : DepartureFollowed st (.message env msg raw))
    (hty : msg.msgType = .sfuLeave) {r p : String} :
    Listed (st.relay.leaveRoom msg.sender.text).rooms r p ↔
      Listed st.relay.rooms r p ∧ ¬ (frameRoom msg = r ∧ bare msg.sender.text = p) := by
  rcases hd hty with hroom | ⟨hroom, hunlisted⟩
  · rw [RelayState.listed_leaveRoom hroom]
  · rw [RelayState.leaveRoom_of_roomOf_none hroom]
    refine ⟨fun hl => ⟨hl, ?_⟩, And.left⟩
    rintro ⟨rfl, rfl⟩
    exact hunlisted hl

theorem RelayInv.sfuLeave (h : RelayInv st) {raw : String}
    (hd : DepartureFollowed st (.message env msg raw)) (hty : msg.msgType = .sfuLeave) :
    RelayInv (st.handleSfuLeave env msg).1 := by
  refine ⟨?_, RelayState.leaveRoom_connectedListed h.connected⟩
  intro r p hl
  obtain ⟨hl, hne⟩ := (listed_leave hd hty).mp hl
  obtain ⟨q, hq, rfl⟩ := h.follows r p hl
  refine ⟨q, isParticipant_leaveRoom hq ?_, rfl⟩
  rintro heq rfl
  exact hne ⟨heq, (bare_normalizePublicId _).symm⟩

theorem RelayInv.peerDisconnected (h : RelayInv st) {peer : PublicId}
    (hd : DepartureFollowed st (.peerDisconnected env peer)) :
    RelayInv (st.onPeerDisconnected env peer.text).1 := by
  have hrelay : (st.onPeerDisconnected env peer.text).1.relay = st.relay := by
    unfold onPeerDisconnected
    simp only
    split <;> rfl
  refine ⟨?_, by rw [hrelay]; exact h.connected⟩
  intro r p hl
  rw [hrelay] at hl
  rw [onPeerDisconnected_sfu]
  obtain ⟨q, hq, rfl⟩ := h.follows r p hl
  refine ⟨q, isParticipant_removePeerFromAll hq ?_, rfl⟩
  rintro rfl
  rw [bare_normalizePublicId] at hl
  exact hd r hl

theorem RelayInv.step (h : RelayInv st) {e : Event} (hmoves : e.movesPeers = true)
    (hd : DepartureFollowed st e) : RelayInv (st.step P e) := by
  unfold SupernodeState.step handle
  cases e with
  | message env msg raw =>
    have hty : msg.msgType = .sfuJoin ∨ msg.msgType = .sfuLeave := by
      simpa [Event.movesPeers] using hmoves
    rcases hty with hty | hty
    · simp only [onMessage, hty]
      exact h.sfuJoin
    · simp only [onMessage, hty]
      exact h.sfuLeave hd hty
  | peerDisconnected env peer => exact h.peerDisconnected hd
  | relayConnected certs connection order =>
    refine ⟨?_, (RelayState.listed_handleConnection h.connected).2⟩
    intro r p hl
    exact h.follows r p (((RelayState.listed_handleConnection h.connected).1 r p).mp hl)
  | relayClosed peerId connection =>
    refine ⟨?_, (RelayState.listed_connectionClosed h.connected).2⟩
    intro r p hl
    exact h.follows r p ((RelayState.listed_connectionClosed h.connected).1 r p hl)
  | peerConnected env peer => cases hmoves
  | roomAudioDatagram env fromPeer raw quotaBytes payloadRoom parsed => cases hmoves
  | gameDatagram sessionId fromPeer payload => cases hmoves
  | replicated env roomId messageId raw => cases hmoves
  | peerAuth env identityPub handle directInvite => cases hmoves
  | roomRoster env desc => cases hmoves
  | spaceRoot root => cases hmoves
  | gcIdleRooms now idleSecs => cases hmoves

theorem leaveStaysLocal {e : Event} (hd : DepartureFollowed st e) :
    LeaveStaysLocal P st e := by
  unfold LeaveStaysLocal
  split
  · rename_i env msg raw
    intro hty r hr
    have hstep : (st.step P (.message env msg raw)).relay =
        st.relay.leaveRoom msg.sender.text := by
      simp only [SupernodeState.step, handle, onMessage, hty]
      rfl
    rw [hstep, listed_leave hd hty]
    refine ⟨And.left, fun hl => ⟨hl, ?_⟩⟩
    exact fun hboth => hr hboth.1.symm
  · trivial

/-! ## Runs -/

/-- Along every run of joins, leaves, closed sockets and relay connections whose
departures find the relay where the SFU is, the relay's rooms follow the SFU's,
and a leave touches no other relay room. -/
theorem relayRooms_follow_sfuRooms (config : Config) (peers : PeerStore)
    (handshake : HandshakeManager) (es : List Event)
    (hmoves : ∀ e ∈ es, e.movesPeers = true)
    (hdepart : Along (step P) DepartureFollowed (.start config peers handshake) es) :
    Along (step P) (fun st e => RelayFollows (st.step P e) ∧ LeaveStaysLocal P st e)
      (.start config peers handshake) es := by
  have h0 := RelayInv.start config peers handshake
  generalize SupernodeState.start config peers handshake = st at h0 hdepart
  induction es generalizing st with
  | nil => trivial
  | cons e es ih =>
    have hnext := h0.step (P := P) (hmoves e List.mem_cons_self) hdepart.1
    refine ⟨⟨hnext.follows, leaveStaysLocal hdepart.1⟩, ?_⟩
    exact ih (fun e he => hmoves e (List.mem_cons_of_mem _ he)) _ hnext hdepart.2

end SupernodeState

/-! ## Concrete runs -/

/-- A node with no peers and no cluster. -/
def SupernodeState.bareNode : SupernodeState :=
  .start { publicId := "", openMode := true, sfuRoomPolicy := ⟨true, true⟩, clustered := false }
    ⟨∅⟩ ⟨"", ∅⟩

/-- A message of the given type about one room. -/
def roomMessage (ty : MessageType) (sender : PublicId) (roomId : String) : Event :=
  .message .permissive
    { msgType := ty, sender := sender, payload := .obj [("room_id", .str roomId)],
      signature := none } ""

/-- A certificate that names Alice's key. -/
def aliceCert : List UInt8 :=
  Transport.cnOid ++ 0x0C :: 64 :: Lib.Encoding.utf8Bytes
    "d75a980182b10ab7d54bfed3c964073a0ee172f3daa62325af021a68f707511a"

/-- Alice joins the built-in room, connects to the relay, leaves the room and
closes her socket. -/
def visitOfAlice : List Event :=
  [roomMessage .sfuJoin alice "default", .relayConnected [aliceCert] 1 [],
    roomMessage .sfuLeave alice "default", .peerDisconnected .permissive alice]

theorem relayRooms_follow_visitOfAlice :
    Along (SupernodeState.step .symbolic)
      (fun st e => RelayFollows (st.step .symbolic e) ∧ LeaveStaysLocal .symbolic st e)
      SupernodeState.bareNode visitOfAlice := by
  refine SupernodeState.relayRooms_follow_sfuRooms _ _ _ visitOfAlice ?_ ?_
  · decide
  · refine ⟨?_, trivial, ?_, ?_, trivial⟩
    · intro hty
      cases hty
    · intro _
      decide +kernel
    · intro r hl
      have hempty : (run (SupernodeState.step .symbolic) SupernodeState.bareNode
          (visitOfAlice.take 3)).relay.rooms.isEmpty = true := by
        decide +kernel
      have hl : Listed (run (SupernodeState.step .symbolic) SupernodeState.bareNode
          (visitOfAlice.take 3)).relay.rooms r (bare alice.text) := hl
      rw [ExtTreeMap.isEmpty_iff.mp hempty] at hl
      exact listed_empty r _ hl

/-- Alice has joined and her signaling socket has closed. -/
def socketGone : SupernodeState :=
  run (.step .symbolic) .bareNode
    [roomMessage .sfuJoin alice "default", .peerDisconnected .permissive alice]

def onTheRelay : SupernodeState :=
  run (.step .symbolic) .bareNode
    [roomMessage .sfuJoin alice "default", .relayConnected [aliceCert] 1 []]

/-- When Alice's signaling socket closes, the SFU forgets her and the relay does
not. And a leave of another room takes her out of the relay room she is in. -/
theorem relayRooms_part_from_sfuRooms :
    Listed socketGone.relay.rooms "default" (bare alice.text) ∧
      ¬ Participates socketGone.sfu "default" (bare alice.text) ∧
      Listed onTheRelay.relay.rooms "default" (bare alice.text) ∧
      ¬ Listed (onTheRelay.step .symbolic (roomMessage .sfuLeave alice "attic")).relay.rooms
        "default" (bare alice.text) := by
  have hruns : Listed socketGone.relay.rooms "default" (bare alice.text) ∧
      (socketGone.sfu.getRoom "default").map (·.participants.isEmpty) = some true ∧
      Listed onTheRelay.relay.rooms "default" (bare alice.text) ∧
      ¬ Listed (onTheRelay.step .symbolic (roomMessage .sfuLeave alice "attic")).relay.rooms
        "default" (bare alice.text) := by
    decide +kernel
  obtain ⟨hlisted, hempty, hrelay, hleft⟩ := hruns
  refine ⟨hlisted, ?_, hrelay, hleft⟩
  rintro ⟨q, ⟨room, hroom, hq⟩, -⟩
  rw [hroom] at hempty
  have hnone := ExtTreeMap.isEmpty_iff.mp (Option.some.inj hempty)
  simp [hnone] at hq

end ConquerD.Supernode
