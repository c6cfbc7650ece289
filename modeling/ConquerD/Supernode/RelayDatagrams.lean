import ConquerD.Features.Quota
import ConquerD.Lib.Run
import ConquerD.Supernode.Relay
import ConquerD.Wire.Platform

/-!
# Supernode: a relay under calls and datagrams

The relay with its feature registry and its bridges: control calls, connections
and raw datagrams. A room-audio datagram of a connection that is in no room puts
it into the room its payload names. For that the handler gives up its read lock,
so the write is an event of its own. Counters of relayed bytes are left out.
-/

namespace ConquerD.Features

/-! ## Fixed channel tags -/

def audioTag : UInt8 := 0x01
def chatTag : UInt8 := 0x02
def fileTag : UInt8 := 0x03
def roomAudioTag : UInt8 := 0x04
def gameRelayTag : UInt8 := 0x05
def videoTag : UInt8 := 0x06
def roomVideoTag : UInt8 := 0x07
def contentAudioTag : UInt8 := 0x08
def roomContentAudioTag : UInt8 := 0x09

def featureForFixedTag (tag : UInt8) : Option String :=
  if tag = audioTag then some "core.audio.opus"
  else if tag = chatTag then some "core.chat.v1"
  else if tag = fileTag then some "core.file.v1"
  else if tag = roomAudioTag then some "room.audio.sfu"
  else if tag = gameRelayTag then some "game.relay.v1"
  else if tag = videoTag then some "core.video.v1"
  else if tag = roomVideoTag then some "room.video.sfu"
  else if tag = contentAudioTag then some "core.audio.content.v1"
  else if tag = roomContentAudioTag then some "room.audio.content.sfu"
  else none

namespace FeatureRegistry

def clearPeerQuotas (reg : FeatureRegistry) (peerId : String) : FeatureRegistry :=
  { reg with quotas.states := fun f p => if p = peerId then none else reg.quotas.states f p }

def clearPeerOutboundQuotas (reg : FeatureRegistry) (peerId : String) : FeatureRegistry :=
  { reg with
    outboundQuotas.states := fun f p => if p = peerId then none else reg.outboundQuotas.states f p }

end FeatureRegistry

end ConquerD.Features

namespace ConquerD.Supernode

open Std (ExtTreeMap ExtTreeSet)
open ConquerD.Features Lib.Encoding Lib.Rosters Wire

/-! ## Datagrams -/

/-- The target index of all room members. -/
def broadcastIndex : UInt8 := 0xFF

/-- Target index and payload. -/
def parseDatagram : Bytes → Option (UInt8 × Bytes)
  | [] => none
  | target :: payload => some (target, payload)

def buildForwardedDatagram (senderIndex : UInt8) (payload : Bytes) : Bytes :=
  senderIndex :: payload

/-- The feature whose quota a payload is charged to, and for how many bytes. -/
def relayDatagramFeature : Bytes → String × Nat
  | [] => ("game.relay.v1", 0)
  | tag :: rest =>
    match featureForFixedTag tag with
    | some fid => (fid, (tag :: rest).length)
    | none => ("game.relay.v1", (tag :: rest).length)

/-- The room the signed envelope behind the channel tag names. -/
def roomIdFromRoomAudioPayload (P : Platform) (payload : Bytes) : Option String :=
  if payload.length < 2 then none
  else do
    let json ← fromUtf8 (payload.drop 1)
    let v ← P.jsonFromStr json
    let roomId ← ((v.get? "payload").bind (·.get? "room_id")).bind Json.asStr?
    if roomId = "" then none else some roomId

namespace RelayState

/-- A recipient that has subscribed to nothing yet wants everything. -/
def wantsVideo (st : RelayState) (recipient sender : String) : Bool :=
  match st.videoSubs[normalizePublicId recipient]? with
  | some set => set.contains (normalizePublicId sender)
  | none => true

/-- The sender's game session with its members. -/
def gameSessionOf (st : RelayState) (fromPeer : String) : Option (String × ExtTreeSet String) := do
  let sessionId ← st.peerGameSession[fromPeer]?
  let members ← st.gameSessions[sessionId]?
  some (sessionId, members)

/-- The members of the sender's room, less those who do not watch its video. -/
def roomRecipients (st : RelayState) (fromPeer : String) (peer : RelayPeer) (featureId : String) :
    List String :=
  match peer.roomId with
  | none => []
  | some roomId =>
    (members st.rooms roomId).toList.filter fun memberId =>
      memberId ≠ fromPeer && (featureId ≠ "room.video.sfu" || st.wantsVideo memberId fromPeer)

/-- The peer at an index, when its connection is in the sender's room. -/
def pointToPoint (st : RelayState) (peer : RelayPeer) (targetIdx : UInt8) : List String :=
  match st.indexToPeer[targetIdx.toNat]? with
  | none => []
  | some targetPeerId =>
    match st.peers[targetPeerId]? with
    | none => []
    | some target =>
      match peer.roomId, target.roomId with
      | some a, some b => if a = b then [targetPeerId] else []
      | _, _ => []

end RelayState

/-- A room-audio frame whose sender has yet to be put into the room it names. -/
structure PendingHeal where
  fromPeer : String
  senderIndex : Nat
  roomId : String
  inner : Bytes
  deriving DecidableEq

structure RelayServer where
  state : RelayState
  features : FeatureRegistry
  /-- Whether the hooks to the SFU and to the cluster are installed. -/
  roomAudioBridge : Bool
  gameRelayBridge : Bool
  /-- Handlers between giving up the read lock and taking the write lock. -/
  healing : List PendingHeal

inductive RelayOutput where
  | forward (recipient : String) (datagram : Bytes)
  | roomAudio (fromPeer : String) (senderIndex : Nat) (roomId : String) (inner : Bytes)
  | gameRelay (sessionId fromPeer : String) (payload : Bytes)
  deriving DecidableEq

inductive RelayEvent where
  | allow (peerId : String)
  | allowUpdate (peerId : String)
  | allowPortal (peerId : String)
  | connect (certs : List (List UInt8)) (connection : Nat) (order : List String)
  /-- A connection of the peer that ended. -/
  | disconnect (peerId : String) (connection : Nat)
  | joinRoom (peerId roomId : String)
  | leaveRoom (peerId : String)
  | joinGameSession (peerId sessionId : String)
  | leaveGameSession (peerId : String)
  | subscribeVideo (peerId : String) (senders : List String)
  | revokePeer (peerId : String)
  /-- The periodic clean-up, with the connections that are closed by then. -/
  | cleanup (closed : List Nat)
  | datagram (fromPeer : String) (data : Bytes) (now : Nat)
  /-- The write of the pending handler at the position. -/
  | heal (position : Nat)
  deriving DecidableEq

namespace RelayServer

def start (features : FeatureRegistry) (roomAudioBridge gameRelayBridge : Bool) : RelayServer where
  state := .new
  features := features
  roomAudioBridge := roomAudioBridge
  gameRelayBridge := gameRelayBridge
  healing := []

variable (srv : RelayServer)

def clearQuotas (peerId : String) : RelayServer :=
  { srv with features := (srv.features.clearPeerQuotas peerId).clearPeerOutboundQuotas peerId }

/-! ## Datagrams -/

/-- One forward, when the recipient is connected and its quota has room. -/
def tryForwardDatagram (featureId : String) (fwd : Bytes) (now : Nat) (recipient : String) :
    RelayServer × List RelayOutput :=
  if recipient ∈ srv.state.peers then
    let r := srv.features.gateThroughFeature featureId recipient now fwd.length
    ({ srv with features := r.1 }, if r.2 then [.forward recipient fwd] else [])
  else (srv, [])

def forwardAll (featureId : String) (fwd : Bytes) (now : Nat) :
    RelayServer → List String → RelayServer × List RelayOutput
  | srv, [] => (srv, [])
  | srv, recipient :: rest =>
    let one := srv.tryForwardDatagram featureId fwd now recipient
    let more := one.1.forwardAll featureId fwd now rest
    (more.1, one.2 ++ more.2)

/-- A room-audio frame goes to the SFU's bridge under the room its payload names,
or else under the room of the connection. -/
def roomAudioFrame (P : Platform) (fromPeer : String) (peer : RelayPeer) (payload : Bytes) :
    RelayServer × List RelayOutput :=
  let payloadRoom := roomIdFromRoomAudioPayload P payload
  match peer.roomId, payloadRoom with
  | none, some rid =>
    ({ srv with healing := srv.healing ++ [⟨fromPeer, peer.peerIndex, rid, payload⟩] }, [])
  | roomId, payloadRoom =>
    match payloadRoom.orElse fun _ => roomId with
    | some rid => (srv, [.roomAudio fromPeer peer.peerIndex rid payload])
    | none => (srv, [])

/-- Fan-out to the game session, to the room, or to one peer. -/
def relayFrame (fromPeer : String) (peer : RelayPeer) (targetIdx : UInt8) (featureId : String)
    (payload : Bytes) (now : Nat) : RelayServer × List RelayOutput :=
  let fwd := buildForwardedDatagram (UInt8.ofNat peer.peerIndex) payload
  if targetIdx = broadcastIndex then
    match (if featureId = "game.relay.v1" then srv.state.gameSessionOf fromPeer else none) with
    | some (sessionId, sessionMembers) =>
      let r := srv.forwardAll featureId fwd now (sessionMembers.toList.filter (· ≠ fromPeer))
      (r.1, r.2 ++ if srv.gameRelayBridge then [.gameRelay sessionId fromPeer payload] else [])
    | none =>
      srv.forwardAll featureId fwd now (srv.state.roomRecipients fromPeer peer featureId)
  else srv.forwardAll featureId fwd now (srv.state.pointToPoint peer targetIdx)

/-- The quota of the sender. An empty payload is not charged. -/
def inboundGate (fromPeer : String) (payload : Bytes) (now : Nat) : FeatureRegistry × Bool :=
  let feature := relayDatagramFeature payload
  if feature.2 > 0 then
    srv.features.gateInboundThroughFeature feature.1 fromPeer now feature.2
  else (srv.features, true)

/-- A datagram whose sender has quota left. -/
def routeDatagram (P : Platform) (fromPeer : String) (targetIdx : UInt8) (payload : Bytes)
    (now : Nat) : RelayServer × List RelayOutput :=
  let featureId := (relayDatagramFeature payload).1
  match srv.state.peers[fromPeer]? with
  | none => (srv, [])
  | some peer =>
    if targetIdx = broadcastIndex ∧ featureId = "room.audio.sfu" ∧ srv.roomAudioBridge then
      srv.roomAudioFrame P fromPeer peer payload
    else srv.relayFrame fromPeer peer targetIdx featureId payload now

def handleDatagram (P : Platform) (fromPeer : String) (data : Bytes) (now : Nat) :
    RelayServer × List RelayOutput :=
  match parseDatagram data with
  | none => (srv, [])
  | some (targetIdx, payload) =>
    let gate := srv.inboundGate fromPeer payload now
    let srv := { srv with features := gate.1 }
    if gate.2 then srv.routeDatagram P fromPeer targetIdx payload now else (srv, [])

/-- The write that puts the sender of a room-audio frame into the room it names. -/
def healRoom (position : Nat) : RelayServer × List RelayOutput :=
  match srv.healing[position]? with
  | none => (srv, [])
  | some h =>
    let peers := srv.state.peers.modify h.fromPeer fun peer => { peer with roomId := some h.roomId }
    ({ srv with
        state := { srv.state with
          peers := peers
          rooms := addMember srv.state.rooms h.roomId h.fromPeer }
        healing := srv.healing.eraseIdx position },
      [.roomAudio h.fromPeer h.senderIndex h.roomId h.inner])

/-! ## Calls -/

def revokePeer (peerId : String) : RelayServer :=
  let normalized := bare peerId
  let state := { srv.state with allowed := srv.state.allowed.erase normalized }
  { srv with state := state.removePeer normalized }.clearQuotas normalized

/-- The peers whose connection is closed. -/
def stalePeers (closed : List Nat) : List String :=
  (srv.state.peers.toList.filter fun e => decide (e.2.connection ∈ closed)).map (·.1)

def cleanupStalePeers (closed : List Nat) : RelayServer :=
  (srv.stalePeers closed).foldl
    (fun srv id => { srv with state := srv.state.removePeer id }.clearQuotas id) srv

/-- Whether the connection is the one that is registered for the peer. -/
def registered (peerId : String) (connection : Nat) : Bool :=
  (srv.state.peers[peerId]?.map (·.connection)) == some connection

/-- A registration that replaces a connection clears the peer's quotas. -/
def connect (certs : List (List UInt8)) (connection : Nat) (order : List String) : RelayServer :=
  let r := srv.state.handleConnection certs connection order
  let next := { srv with state := r.1 }
  match r.2, extractPeerId certs with
  | .registered .., .ok peerId | .noIndex, .ok peerId =>
    if peerId ∈ srv.state.peers then next.clearQuotas peerId else next
  | _, _ => next

def disconnect (peerId : String) (connection : Nat) : RelayServer :=
  let next := { srv with state := srv.state.connectionClosed peerId connection }
  if srv.registered peerId connection then next.clearQuotas peerId else next

/-! ## Events -/

/-- One event. A datagram is handled only for a peer with full access. -/
def handle (P : Platform) : RelayEvent → RelayServer × List RelayOutput
  | .allow p => ({ srv with state := srv.state.allowPeer p }, [])
  | .allowUpdate p => ({ srv with state := srv.state.allowPeerUpdate p }, [])
  | .allowPortal p => ({ srv with state := srv.state.allowPortalPeer p }, [])
  | .connect certs connection order => (srv.connect certs connection order, [])
  | .disconnect p connection => (srv.disconnect p connection, [])
  | .joinRoom p r => ({ srv with state := srv.state.joinRoom p r }, [])
  | .leaveRoom p => ({ srv with state := srv.state.leaveRoom p }, [])
  | .joinGameSession p s => ({ srv with state := srv.state.joinGameSession p s }, [])
  | .leaveGameSession p => ({ srv with state := srv.state.leaveGameSession p }, [])
  | .subscribeVideo p senders =>
    ({ srv with state := srv.state.setVideoSubscriptions p senders }, [])
  | .revokePeer p => (srv.revokePeer p, [])
  | .cleanup closed => (srv.cleanupStalePeers closed, [])
  | .datagram p data now =>
    if p ∈ srv.state.allowed then srv.handleDatagram P p data now else (srv, [])
  | .heal position => srv.healRoom position

end RelayServer

/-!
## Supernode: the tasks of the relay

Each connection has a task of its own, and the relay's lock is taken for one read or
one write at a time. A task that has been let in registers later, when its leave may be
gone, and a task that has found its connection registered removes the peer later, when
another connection may have come.
-/

open Std (ExtTreeMap)
open Lib.Rosters Lib.Run

namespace RelayState

/-! ### The search for an index -/

/-- The index after this one: 254 is followed by 1. -/
def succPeerIndex (index : Nat) : Nat :=
  if index = 254 then 1 else index + 1

/-- The loop that looks for an index that is not taken: the index, and the one to try
next time. It gives up when it is back where it started. -/
def allocateFrom (taken : Nat → Bool) (start : Nat) : Nat → Nat → Option (Nat × Nat)
  | 0, _ => none
  | fuel + 1, nextIndex =>
    if !taken nextIndex then some (nextIndex, succPeerIndex nextIndex)
    else if succPeerIndex nextIndex = start then none
    else allocateFrom taken start fuel (succPeerIndex nextIndex)

/-! ### Registration -/

/-- The part of `handle_connection` that is under the write lock. -/
def registerPeer (st : RelayState) (peerId : String) (connection : Nat) (order : List String)
    (portalOnly : Bool) : RelayState × ConnectionOutcome :=
  if st.peers.size ≥ maxPeers then (st, .full)
  else
    let priorRoom := st.peers[peerId]?.bind (·.roomId)
    let st := st.softReplace peerId
    match st.allocateIndex with
    | none => (st, .noIndex)
    | some (idx, st) =>
      let existingRoom := priorRoom.orElse fun _ => st.findRoomOf order peerId
      ({ st with
          indexToPeer := st.indexToPeer.insert idx peerId
          peers := st.peers.insert peerId
            { peerIndex := idx, connection := connection, roomId := existingRoom } },
        .registered peerId idx portalOnly)

theorem handleConnection_eq_registerPeer (st : RelayState) {certs : List (List UInt8)}
    (connection : Nat) (order : List String) {peerId : String}
    (hid : extractPeerId certs = .ok peerId) :
    st.handleConnection certs connection order =
      if peerId ∈ st.allowed ∨ peerId ∈ st.portalAllowed then
        st.registerPeer peerId connection order (decide (peerId ∉ st.allowed))
      else (st, .notAllowed) := by
  have hunfolded : st.handleConnection certs connection order =
      if !decide (peerId ∈ st.allowed) &&
          !(!decide (peerId ∈ st.allowed) && decide (peerId ∈ st.portalAllowed)) then
        (st, .notAllowed)
      else st.registerPeer peerId connection order
        (!decide (peerId ∈ st.allowed) && decide (peerId ∈ st.portalAllowed)) := by
    unfold handleConnection
    rw [hid]
    rfl
  rw [hunfolded]
  by_cases hallowed : peerId ∈ st.allowed
  · simp [hallowed]
  · by_cases hportal : peerId ∈ st.portalAllowed
    · simp [hallowed, hportal]
    · simp [hallowed, hportal]

end RelayState

/-! ### Turns -/

inductive RelayTurn where
  | event (e : RelayEvent)
  /-- The registration of a connection that has been let in. -/
  | register (peerId : String) (connection : Nat) (order : List String) (portalOnly : Bool)
  /-- The removal by a task that has found its connection registered. -/
  | remove (peerId : String)

namespace RelayServer

variable (srv : RelayServer)

def registerPeer (peerId : String) (connection : Nat) (order : List String)
    (portalOnly : Bool) : RelayServer :=
  let r := srv.state.registerPeer peerId connection order portalOnly
  let next := { srv with state := r.1 }
  match r.2 with
  | .registered .. | .noIndex => if peerId ∈ srv.state.peers then next.clearQuotas peerId else next
  | _ => next

def turn (P : Platform) : RelayTurn → RelayServer × List RelayOutput
  | .event e => srv.handle P e
  | .register p connection order portalOnly =>
    (srv.registerPeer p connection order portalOnly, [])
  | .remove p => ({ srv with state := srv.state.removePeer p }.clearQuotas p, [])

def afterTurn (P : Platform) (srv : RelayServer) (t : RelayTurn) : RelayServer :=
  (srv.turn P t).1

/-- The relay after its first turns. -/
def reached (P : Platform) (features : FeatureRegistry) (roomAudioBridge gameRelayBridge : Bool)
    (ts : List RelayTurn) : RelayServer :=
  run (afterTurn P) (.start features roomAudioBridge gameRelayBridge) ts

end RelayServer

end ConquerD.Supernode
