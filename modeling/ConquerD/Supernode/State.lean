import ConquerD.Supernode.ClusterLink
import ConquerD.Supernode.PeerStore
import ConquerD.Supernode.Protocol
import ConquerD.Supernode.Relay
import ConquerD.Supernode.Sfu
import ConquerD.Supernode.Space

/-!
# Supernode: shared state and trust flow

The state the message handlers share, and the functions between the handlers
and the stores: tickets, the trust flow, room-guest admission, replicated
grants and proof-based Space admission. The SFU and the relay are both
running. What a step reads from outside (clock, random text, quota and access
verdicts, live sockets) is an `Env`. Disk writes, statistics, the endpoint
mailbox and hole punching are left out.
-/

namespace ConquerD.Supernode

open Std (ExtTreeMap)
open Wire

/-- Which SFU rooms peers may create. -/
structure SfuRoomCreationPolicy where
  allowPublic : Bool
  allowPrivate : Bool
  deriving DecidableEq

def SfuRoomCreationPolicy.denyReasonForNewRoom (policy : SfuRoomCreationPolicy) (isPublic : Bool) :
    Option String :=
  if isPublic && !policy.allowPublic then some "public_rooms_disabled"
  else if !isPublic && !policy.allowPrivate then some "private_rooms_disabled"
  else none

structure Config where
  /-- The node's own public id. -/
  publicId : String
  /-- The access controller's mode is `open`. -/
  openMode : Bool
  sfuRoomPolicy : SfuRoomCreationPolicy
  /-- A cluster link is running. -/
  clustered : Bool

/-- What one step reads from outside the state. -/
structure Env where
  /-- Wall clock, seconds. -/
  now : Rat
  /-- Wall clock, whole seconds. -/
  nowSecs : Nat
  /-- The next random text. -/
  nonce : String
  /-- Inbound quota verdict for a feature, a peer and a size. -/
  gateInbound : String → String → Nat → Bool
  /-- Outbound quota verdict for a feature, a peer and a size. -/
  gateOutbound : String → String → Nat → Bool
  /-- The access controller's verdict on a peer. -/
  checkAccess : String → Bool
  /-- The peer has a live signaling socket under this spelling. -/
  socketOpen : String → Bool
  /-- The peer's relay connection is not closed. -/
  relayOpen : String → Bool

/-- Quotas and gates that let everything through, at time zero. -/
def Env.permissive : Env where
  now := 0
  nowSecs := 0
  nonce := "nonce"
  gateInbound _ _ _ := true
  gateOutbound _ _ _ := true
  checkAccess _ := true
  socketOpen _ := true
  relayOpen _ := true

structure SupernodeState where
  config : Config
  peerStore : PeerStore
  handshake : HandshakeManager
  relay : RelayState
  sfu : SFURoomManager
  replicationSeen : SeenCache
  gameReplicationSeq : Nat
  spaceRoots : SpaceRootStore

/-- A node that has just started, with the peers loaded from disk and the
invites it has handed out. -/
def SupernodeState.start (config : Config) (peers : PeerStore) (handshake : HandshakeManager) :
    SupernodeState where
  config := config
  peerStore := peers
  handshake := handshake
  relay := peers.trustedPeerIds.foldl RelayState.allowPeer .new
  sfu := .new
  replicationSeen := .new 16384
  gameReplicationSeq := 0
  spaceRoots := .new

/-- A node that is open to everyone, just started. -/
def openNode : SupernodeState :=
  .start { publicId := "", openMode := true, sfuRoomPolicy := ⟨true, true⟩, clustered := false }
    ⟨∅⟩ ⟨"", ∅⟩

/-- A state and what was sent on the way to it. -/
abbrev Outcome := SupernodeState × List Outgoing

/-- Run the next function on the state reached, after what was sent so far. -/
def Outcome.andThen (o : Outcome) (f : SupernodeState → Outcome) : Outcome :=
  ((f o.1).1, o.2 ++ (f o.1).2)

@[simp] theorem Outcome.andThen_fst (o : Outcome) (f : SupernodeState → Outcome) :
    (o.andThen f).1 = (f o.1).1 := rfl

def roomGuestTranscriptMarker : String := "room-guest"
def replicatedDirectInviteMarker : String := "replicated-direct-invite"

def isDirectInviteTranscript (transcriptHash : String) : Bool :=
  transcriptHash != "" && transcriptHash != roomGuestTranscriptMarker

namespace SupernodeState

variable (P : Platform) (env : Env) (st : SupernodeState)

/-! ## Tickets and the trust flow -/

def checkPeerAccess (peerId : String) : Bool :=
  if st.config.openMode then
    match st.peerStore.getPeer peerId with
    | none => false
    | some p =>
      if p.revoked || p.blocked then false
      else if p.transcriptHash = roomGuestTranscriptMarker then env.checkAccess peerId
      else true
  else env.checkAccess peerId

def issueTicket (peerPub : String) (portalOnly : Bool) : Outcome :=
  ({ st with
      relay :=
        if portalOnly then st.relay.allowPortalPeer peerPub else st.relay.allowPeerUpdate peerPub },
    [.signed peerPub (.relayGranted portalOnly), .signed peerPub .supernodeInfo])

def issueTicketForAccessState (peerPub : String) : Outcome :=
  st.issueTicket peerPub (!st.checkPeerAccess env peerPub)

def replicatePeerAuth (identityPub : String) : List Outgoing :=
  if st.config.clustered then
    match st.peerStore.getPeer identityPub with
    | some p => [.peerAuth identityPub p.handle (isDirectInviteTranscript p.transcriptHash)]
    | none => [.peerAuth identityPub "" false]
  else []

def onPeerTrusted (identityPub : String) : Outcome :=
  Outcome.andThen
    (st, .signed identityPub .capabilityAnnounce :: st.replicatePeerAuth identityPub)
    fun st => st.issueTicketForAccessState env identityPub

/-- The record a room-admitted peer without one is given. -/
def roomGuestRecord (peerPub : String) : PeerRecord where
  peerId := ((P.b64urlDecode peerPub).map P.derivePeerId).getD ""
  identityPub := peerPub
  relayHints := []
  handle := ""
  blocked := false
  revoked := false
  autoConnect := false
  isSupernode := false
  transcriptHash := roomGuestTranscriptMarker
  createdAt := env.now
  lastSeenAt := env.now
  quicPort := 0

/-- Trusts a room-admitted peer that is not trusted yet, and issues a ticket. -/
def ensureRelayForRoomGuest (peerPub : String) : Outcome :=
  if st.peerStore.isTrusted peerPub then st.issueTicketForAccessState env peerPub
  else
    { st with peerStore := st.peerStore.addPeer (roomGuestRecord P env peerPub) }.onPeerTrusted
      env peerPub

/-- A live signaling socket under any spelling of the id. -/
def signalingPeerConnected (env : Env) (identityPub : String) : Bool :=
  env.socketOpen identityPub ||
    (bare identityPub != identityPub && env.socketOpen (bare identityPub)) ||
    (normalizePublicId identityPub != identityPub &&
      env.socketOpen (normalizePublicId identityPub))

/-- The store with a replicated grant merged in, and whether that made a record
or upgraded one. An existing record keeps its flags. -/
def mergePeerAuth (identityPub handle : String) (directInvite : Bool) : PeerStore × Bool :=
  let transcript :=
    if directInvite then replicatedDirectInviteMarker else roomGuestTranscriptMarker
  match st.peerStore.getPeer identityPub with
  | some existing =>
    let renamed := handle ≠ "" ∧ existing.handle ≠ handle
    let upgraded := directInvite ∧ ¬ isDirectInviteTranscript existing.transcriptHash
    let updated := if renamed then { existing with handle := handle } else existing
    let updated := if upgraded then { updated with transcriptHash := transcript } else updated
    (if renamed ∨ upgraded then st.peerStore.addPeer updated else st.peerStore, decide upgraded)
  | none =>
    (st.peerStore.addPeer
      { roomGuestRecord P env identityPub with handle := handle, transcriptHash := transcript },
      true)

/-- Applies a grant replicated from another cluster member. -/
def applyPeerAuth (identityPub handle : String) (directInvite : Bool) : Outcome :=
  let identityPub := normalizePublicId identityPub
  let (store, newlyOrUpgraded) := st.mergePeerAuth P env identityPub handle directInvite
  let st := { st with peerStore := store }
  let st := { st with
    relay :=
      if st.checkPeerAccess env identityPub then st.relay.allowPeer identityPub
      else st.relay.allowPortalPeer identityPub }
  if newlyOrUpgraded && signalingPeerConnected env identityPub then
    Outcome.andThen (st, [.signed identityPub .capabilityAnnounce]) fun st =>
      (st.issueTicketForAccessState env identityPub).andThen fun st =>
        (st, [.signed identityPub .sfuRoomList])
  else (st, [])

/-! ## Rooms -/

/-- The rosters of a room, to every chat recipient. -/
def broadcastSfuMembers (roomId : String) : List Outgoing :=
  let chatMembers := st.sfu.getChatRecipients roomId
  let members := ((st.sfu.getRoom roomId).map SFURoom.participantIds).getD []
  chatMembers.map fun peer => .signed peer (.sfuMembers ⟨roomId, members, chatMembers⟩)

/-- Creates the room if absent, without a creator, and allows the peer. -/
def localAllowRoomPeer (roomId roomName : String) (roomType : RoomType) (peer : String) :
    SupernodeState :=
  { st with
    sfu := ((st.sfu.createRoom roomId roomName roomType "" env.now).1).allowPeer roomId peer }

/-- A room another cluster member advertises. -/
structure RoomDescriptor where
  roomId : String
  roomName : String
  roomType : String
  creatorId : String
  invitePolicy : String

def applyRoomRoster (desc : RoomDescriptor) : SupernodeState :=
  { st with
    sfu := (st.sfu.createRoomWithPolicy desc.roomId desc.roomName
      (if desc.roomType = "public" then .publicRoom else .privateRoom) desc.creatorId
      desc.invitePolicy env.now).1 }

/-! ## Space admission -/

def acceptAndGossipSpaceRoot (root : SignedSpaceRoot) : Outcome :=
  let (roots, accepted) := st.spaceRoots.accept P root
  ({ st with spaceRoots := roots },
    if accepted && st.config.clustered then [.spaceRoot root] else [])

/-- The room type a proven node asks for. -/
def nodeRoomType (node : SpaceNode) : RoomType :=
  if node.nodeType = "private" then .privateRoom else .publicRoom

/-- The room a verified proof describes is created if absent, and a room without
a creator takes the proven owner. -/
def materializeProven (roomId : String) (node : SpaceNode) : SupernodeState :=
  { st with
    sfu := ((st.sfu.createRoomWithPolicy roomId node.name (nodeRoomType node) ""
      node.invitePolicy env.now).1).adoptCreatorIfEmpty roomId node.ownerPub }

/-- Admission by a Space proof carried in the payload; the Boolean says whether
the sender was admitted. -/
def trySpaceAdmission (sender roomId : String) (payload : Json) : Outcome × Bool :=
  match (payload.get? "space_proof").bind P.spaceProofFromValue with
  | none => ((st, []), false)
  | some proof =>
    if proof.node.nodeId ≠ roomId then ((st, []), false)
    else
      match (payload.get? "space_root").bind P.spaceRootFromValue with
      | none => ((st, []), false)
      | some carried =>
        let (st, out) := st.acceptAndGossipSpaceRoot P carried
        match st.spaceRoots.get carried.spaceId with
        | none => ((st, out), false)
        | some root =>
          if proof.verifyAgainst P root = false then ((st, out), false)
          else
            let st := st.materializeProven env roomId proof.node
            let grant := (payload.get? "space_grant").bind P.spaceGrantFromValue
            if spaceAdmissionOk P root proof grant sender roomId env.nowSecs = false then
              ((st, out), false)
            else
              ((st.localAllowRoomPeer env roomId proof.node.name (nodeRoomType proof.node) sender,
                out), true)

end SupernodeState

end ConquerD.Supernode
