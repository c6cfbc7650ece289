import ConquerD.Lib.Roster
import ConquerD.Supernode.Crypto
import ConquerD.Supernode.Tls

/-!
# Supernode: the QUIC relay

The relay's shared state and the functions that write it: grants, connection
set-up and tear-down, room and game-session membership, video subscriptions.
Peers are keyed by the bare id. A connection is named by its stable id. The
order in which the room table is iterated is not fixed by the source; where it
matters it is an argument.
-/

namespace ConquerD.Supernode

open Std (ExtTreeMap ExtTreeSet)
open Lib.Rosters Wire

def maxPeers : Nat := 255

structure RelayPeer where
  peerIndex : Nat
  connection : Nat
  roomId : Option String
  deriving DecidableEq

structure RelayState where
  /-- Peers with full relay access. -/
  allowed : ExtTreeSet String
  /-- Portal-only guests. -/
  portalAllowed : ExtTreeSet String
  peers : ExtTreeMap String RelayPeer
  indexToPeer : ExtTreeMap Nat String
  rooms : Roster String String
  gameSessions : Roster String String
  peerGameSession : ExtTreeMap String String
  videoSubs : Roster String String
  nextIndex : Nat

namespace RelayState

def new : RelayState where
  allowed := ∅
  portalAllowed := ∅
  peers := ∅
  indexToPeer := ∅
  rooms := ∅
  gameSessions := ∅
  peerGameSession := ∅
  videoSubs := ∅
  nextIndex := 1

/-- The indices in the order `allocateIndex` tries them: from `nextIndex` up to
254, then from 1 again. -/
def indexOrder (st : RelayState) : List Nat :=
  (List.range 254).map fun k => (st.nextIndex - 1 + k) % 254 + 1

/-- The next free peer index, and the state with `nextIndex` moved past it. -/
def allocateIndex (st : RelayState) : Option (Nat × RelayState) :=
  match st.indexOrder.find? fun idx => !st.indexToPeer.contains idx with
  | none => none
  | some idx => some (idx, { st with nextIndex := if idx = 254 then 1 else idx + 1 })

def removePeer (st : RelayState) (peerId : String) : RelayState :=
  let st := { st with videoSubs := st.videoSubs.erase (normalizePublicId peerId) }
  let st :=
    match st.peers[peerId]? with
    | none => st
    | some peer =>
      { st with
        peers := st.peers.erase peerId
        indexToPeer := st.indexToPeer.erase peer.peerIndex
        rooms :=
          match peer.roomId with
          | none => st.rooms
          | some roomId => removeMember st.rooms roomId peerId }
  -- entries a join made before the relay connection was up
  let st := { st with rooms := removeEverywhere st.rooms peerId }
  match st.peerGameSession[peerId]? with
  | some sessionId =>
    { st with
      peerGameSession := st.peerGameSession.erase peerId
      gameSessions := removeMember st.gameSessions sessionId peerId }
  | none => { st with gameSessions := removeEverywhere st.gameSessions peerId }

/-! ## Grants -/

def allowPeer (st : RelayState) (peerId : String) : RelayState :=
  { st with allowed := st.allowed.insert (bare peerId) }

def allowPeerUpdate (st : RelayState) (peerId : String) : RelayState :=
  { st with
    portalAllowed := st.portalAllowed.erase (bare peerId)
    allowed := st.allowed.insert (bare peerId) }

def allowPortalPeer (st : RelayState) (peerId : String) : RelayState :=
  { st with portalAllowed := st.portalAllowed.insert (bare peerId) }

/-! ## Rooms and game sessions -/

def joinRoom (st : RelayState) (peerId roomId : String) : RelayState :=
  let peerId := bare peerId
  let oldRoom := st.peers[peerId]?.bind (·.roomId)
  let rooms :=
    match oldRoom with
    | none => st.rooms
    | some old => removeMember st.rooms old peerId
  { st with
    peers := st.peers.modify peerId fun peer => { peer with roomId := some roomId }
    rooms := addMember rooms roomId peerId }

/-- Takes the peer out of the room its connection is in. The caller names no
room. -/
def leaveRoom (st : RelayState) (peerId : String) : RelayState :=
  let peerId := bare peerId
  match st.peers[peerId]? with
  | none => st
  | some peer =>
    match peer.roomId with
    | none => st
    | some roomId =>
      { st with
        peers := st.peers.insert peerId { peer with roomId := none }
        rooms := removeMember st.rooms roomId peerId }

def joinGameSession (st : RelayState) (peerId sessionId : String) : RelayState :=
  let peerId := bare peerId
  if sessionId = "" ∨ sessionId.utf8ByteSize > 128 then st
  else
    let sessions :=
      match st.peerGameSession[peerId]? with
      | none => st.gameSessions
      | some old => if old = sessionId then st.gameSessions
        else removeMember st.gameSessions old peerId
    { st with
      gameSessions := addMember sessions sessionId peerId
      peerGameSession := st.peerGameSession.insert peerId sessionId }

def leaveGameSession (st : RelayState) (peerId : String) : RelayState :=
  let peerId := bare peerId
  match st.peerGameSession[peerId]? with
  | none => st
  | some sessionId =>
    { st with
      peerGameSession := st.peerGameSession.erase peerId
      gameSessions := removeMember st.gameSessions sessionId peerId }

def setVideoSubscriptions (st : RelayState) (subscriber : String) (senders : List String) :
    RelayState :=
  { st with
    videoSubs := st.videoSubs.insert (normalizePublicId subscriber)
      (ExtTreeSet.ofList (senders.map normalizePublicId)) }

end RelayState

/-! ## Connections -/

inductive ConnectionOutcome where
  /-- No identity could be read: the handler returns an error. -/
  | noPeerId (error : PeerIdError)
  | notAllowed
  | full
  /-- No index was free: the handler returns an error, after a previous
  connection of the peer has been dropped. -/
  | noIndex
  | registered (peerId : String) (index : Nat) (portalOnly : Bool)
  deriving DecidableEq

namespace RelayState

/-- The first room, in iteration order, that lists the peer. `order` says which
rooms come first; every iteration order of the table is some `order`. -/
def findRoomOf (st : RelayState) (order : List String) (peerId : String) : Option String :=
  (order ++ st.rooms.keys).find? fun roomId => decide (Listed st.rooms roomId peerId)

/-- The part of `handle_connection` that drops the peer's previous connection
and keeps its room. -/
def softReplace (st : RelayState) (peerId : String) : RelayState :=
  match st.peers[peerId]? with
  | none => st
  | some old =>
    { st with
      peers := st.peers.erase peerId
      indexToPeer := st.indexToPeer.erase old.peerIndex
      rooms :=
        match old.roomId with
        | none => st.rooms
        | some room => addMember st.rooms room peerId }

/-- Authorisation and registration of a completed handshake. -/
def handleConnection (st : RelayState) (certs : List (List UInt8)) (connection : Nat)
    (order : List String) : RelayState × ConnectionOutcome :=
  match extractPeerId certs with
  | .error e => (st, .noPeerId e)
  | .ok peerId =>
    let full := decide (peerId ∈ st.allowed)
    let portalOnly := !full && decide (peerId ∈ st.portalAllowed)
    if !full && !portalOnly then (st, .notAllowed)
    else if st.peers.size ≥ maxPeers then (st, .full)
    else
      let priorRoom := st.peers[peerId]?.bind (·.roomId)
      let st := st.softReplace peerId
      match st.allocateIndex with
      | none => (st, .noIndex)
      | some (idx, st) =>
        let existingRoom := priorRoom.orElse fun _ => st.findRoomOf order peerId
        ({ st with
            indexToPeer := st.indexToPeer.insert idx peerId
            peers := st.peers.insert peerId
              { peerIndex := idx, connection := connection, roomId := existingRoom } },
          .registered peerId idx portalOnly)

/-- The end of a connection: the entry is removed unless a newer connection of
the same peer has replaced it. -/
def connectionClosed (st : RelayState) (peerId : String) (connection : Nat) : RelayState :=
  match st.peers[peerId]? with
  | some peer => if peer.connection = connection then st.removePeer peerId else st
  | none => st

end RelayState

end ConquerD.Supernode
