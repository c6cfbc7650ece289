import ConquerD.Client.PeerStore
import ConquerD.Client.Protocol
import ConquerD.Lib.Visit

/-!
# Client: outbound routing

Which transport takes a message on its way out: the direct session of its
target, the relay stream or the WebSocket of the supernode the target resolves
to, or the WebSocket of every connected supernode. What a supernode only relays
is wrapped, as far as a pairwise key can be derived. Log lines are left out.
-/

namespace ConquerD.Client.Routing

open Lib.Encoding Lib.JsonText Lib.Visit Wire

/-! ## Classes of messages -/

def chatTag : UInt8 := 0x02
def fileTag : UInt8 := 0x03
def controlTag : UInt8 := 0x00

/-- The channel of a message on the stream of a direct session. -/
def channelTagFor : Protocol.MessageType → UInt8
  | .chatMessage | .chatAck | .chatTyping => chatTag
  | .fileTransferOffer | .fileTransferAccept | .fileTransferReject | .fileTransferChunk
  | .fileTransferComplete | .fileTransferAck | .fileTransferError => fileTag
  | _ => controlTag

/-- Room broadcasts that may take the relay stream of a supernode. -/
def isRelaySignalingType : Protocol.MessageType → Bool
  | .sfuChat | .sfuFileOffer | .sfuFileRequest | .sfuFileRevoke | .sfuFileChunk
  | .sfuFileComplete => true
  | _ => false

/-- Chunks and what ends them: these must stay on one transport. -/
def isOrderedFilePayload : Protocol.MessageType → Bool
  | .fileTransferChunk | .fileTransferComplete | .sfuFileChunk | .sfuFileComplete => true
  | _ => false

/-- The feature whose quota a message is counted in. -/
def featureGate : Protocol.MessageType → Option String
  | .chatMessage | .chatAck | .chatTyping => some "core.chat.v1"
  | .fileTransferOffer | .fileTransferAccept | .fileTransferReject | .fileTransferChunk
  | .fileTransferComplete | .fileTransferAck | .fileTransferError => some "core.file.v1"
  | .sfuFileOffer | .sfuFileRequest | .sfuFileRevoke | .sfuFileChunk
  | .sfuFileComplete => some "room.file.v1"
  | .sfuChat => some "room.chat.v1"
  | _ => none

/-- What a message is counted as: the bytes of its text fields, 64 at least. -/
def byteEstimate (payload : List (String × SerdeValue)) : Nat :=
  max ((payload.filterMap fun e => valueStr? e.2).map String.utf8ByteSize).sum 64

/-- Whom a chat message goes to, and its id. -/
def chatAttempt (msg : Protocol.SignalingMessage) : Option (String × String) :=
  if msg.msgType = .chatMessage then
    msg.target.bind fun peerId =>
      ((msg.payload.lookup "message_id").bind valueStr?).map fun messageId => (peerId, messageId)
  else none

/-! ## Sessions -/

/-- A session with a peer. -/
structure DirectSession where
  /-- Tells this connection from every other. -/
  connection : Nat
  connected : Bool
  /-- The queue of the stream, and whether it has room. -/
  quicOut : Option Bool

/-- A WebSocket session with a supernode. -/
structure SupernodeSession where
  connection : Nat
  connected : Bool
  /-- Whether the queue is open and has room. -/
  accepts : Bool

/-- A QUIC relay session with a supernode. -/
structure RelaySession where
  connection : Nat
  portalOnly : Bool
  isAlive : Bool
  signalLive : Bool
  /-- The queue of the signaling stream, and whether it has room. -/
  signalTx : Option Bool

/-- The longest frame of the signaling stream of a relay. -/
def signalMaxFrame : Nat := 262144

namespace RelaySession

variable (relay : RelaySession)

def signalingUsable : Bool :=
  !relay.portalOnly && relay.isAlive && relay.signalLive && relay.signalTx.isSome

def sendSignaling (json : String) : Bool :=
  if relay.portalOnly then false
  else if !relay.isAlive then false
  else if !relay.signalLive then false
  else if json.utf8ByteSize > signalMaxFrame then false
  else relay.signalTx.getD false

end RelaySession

/-- The keys of the client. -/
structure Identity where
  publicId : String
  sign : Bytes → Bytes
  /-- The key shared with an identity; none when that is no key. -/
  derivePairwiseRelayKey : String → Option Bytes
  /-- Seals under a key, with the nonce drawn for it. -/
  encryptBlob : Bytes → Bytes → Bytes

/-- The client, as a message on its way out meets it. -/
structure ConnectionManager where
  identity : Identity
  peers : VisitMap DirectSession
  supernodes : VisitMap SupernodeSession
  quicRelays : VisitMap RelaySession
  /-- The identities in the roster verified for a supernode. -/
  clusterMembers : VisitMap (List String)
  peerStore : PeerStore
  /-- The peer ids, in the order the store is visited. -/
  peerOrder : List String
  peerOrder_complete : ∀ peerId, peerId ∈ peerOrder ↔ (peerStore.get peerId).isSome
  /-- Whether the quota of a feature lets so many bytes for a target pass. -/
  gateThroughFeature : String → String → Nat → Bool

/-! ## Frames, events -/

/-- A frame a queue took. -/
inductive Sent where
  | direct (connection : Nat) (tag : UInt8) (json : String)
  | relay (connection : Nat) (json : String)
  | ws (connection : Nat) (json : String)
  deriving DecidableEq

/-- The session a frame is handed to. -/
inductive Carrier where
  | direct (connection : Nat)
  | relay (connection : Nat)
  | ws (connection : Nat)
  deriving DecidableEq

def Carrier.isSupernode : Carrier → Bool
  | .direct _ => false
  | _ => true

namespace Sent

def carrier : Sent → Carrier
  | .direct n _ _ => .direct n
  | .relay n _ => .relay n
  | .ws n _ => .ws n

def json : Sent → String
  | .direct _ _ json => json
  | .relay _ json => json
  | .ws _ json => json

end Sent

inductive Event where
  | chatSendFailed (peerId messageId reason : String)
  deriving DecidableEq

/-- How a dispatch ends. -/
structure Outcome where
  /-- The frame was handed to a transport. -/
  delivered : Bool
  sent : List Sent
  events : List Event
  /-- The frames a WebSocket queue refused, as they are counted. -/
  outboundDrops : Nat
  deriving DecidableEq

namespace Outcome

def deliveredBy (sent : List Sent) (outboundDrops : Nat) : Outcome :=
  ⟨true, sent, [], outboundDrops⟩

/-- Nothing is sent. For a chat message, the failure is told. -/
def failed (attempt : Option (String × String)) (reason : String) (outboundDrops : Nat) : Outcome :=
  ⟨false, [], (attempt.map fun a => .chatSendFailed a.1 a.2 reason).toList, outboundDrops⟩

/-- Nothing is sent, and nothing is told. -/
def refused (outboundDrops : Nat) : Outcome :=
  ⟨false, [], [], outboundDrops⟩

end Outcome

namespace ConnectionManager

variable (c : ConnectionManager)

/-! ## Targets -/

/-- The session of a supernode, connected or not. -/
def resolveSupernodeSessionKey (target : String) : Option String :=
  if c.supernodes.contains target then some target
  else
    match (if bare target ≠ target then c.supernodes.keys.find? fun k => bare k == bare target
      else none) with
    | some key => some key
    | none =>
      (c.peerStore.resolveSupernodeIdentityPub c.peerOrder target).bind fun canon =>
        if c.supernodes.contains canon then some canon
        else c.supernodes.keys.find? fun k => bare k == bare canon

/-- Whether a supernode has a session that is up. -/
def isConnected (supernodeId : String) : Bool :=
  ((c.supernodes.get? supernodeId).map (·.connected)).getD false

/-- The members of the clusters that an identity is in, by their roster. -/
def clusterMemberIds (offlineId : String) : List String :=
  (c.clusterMembers.entries.filter fun e =>
      bare e.1 == bare offlineId || e.2.any fun m => bare m == bare offlineId).flatMap
    fun e => e.1 :: e.2

def liveClusterSiblingSession (offlineId : String) : Option String :=
  ((c.clusterMemberIds offlineId).filter fun candidate =>
      bare candidate != bare offlineId).findSome? fun candidate =>
      (c.supernodes.entries.find? fun e => e.2.connected && bare e.1 == bare candidate).map Prod.fst

/-- The session that takes what is meant for a supernode. -/
def resolveSupernodeWsTarget (target : String) : Option String :=
  (c.resolveSupernodeSessionKey target).map fun preferred =>
    if c.isConnected preferred then preferred
    else (c.liveClusterSiblingSession preferred).getD preferred

def relayAvailable : Bool :=
  c.supernodes.values.any (·.connected)

/-! ## Signing and wrapping -/

variable (S : FloatSyntax FiniteF64) (now : F64)

def signed (msg : Protocol.SignalingMessage) : Protocol.SignalingMessage :=
  { msg with signature := some (b64UrlEncodePadded (c.identity.sign (msg.canonicalBytes S))) }

/-- The key that a message for a target is sealed under, if it is. -/
def relayKey (target : String) : Option Bytes :=
  if c.peerStore.isSupernodeId c.peerOrder target then none
  else
    ((c.peerStore.get target).or (c.peerStore.getByIdentity c.peerOrder target)).bind fun record =>
      if record.identityPub = "" then none
      else c.identity.derivePairwiseRelayKey record.identityPub

/-- The message a sealed one is carried in. -/
def envelope (key : Bytes) (target innerJson : String) : Protocol.SignalingMessage where
  msgType := .encryptedSignal
  sender := c.identity.publicId
  payload := [("ciphertext",
    .str (b64UrlEncodePadded (c.identity.encryptBlob key (utf8Bytes innerJson))))]
  timestamp := now
  target := some target
  signature := none
  protocolVersion := 2

def maybeWrapForRelay (inner : Protocol.SignalingMessage) (innerJson : String) : Option String :=
  if inner.msgType = .encryptedSignal then none
  else
    inner.target.bind fun target =>
      (c.relayKey target).map fun key =>
        (c.signed S (c.envelope now key target innerJson)).toJson S

/-! ## Routes -/

/-- The session of a peer that is up and has a stream. -/
def directSession (target : String) : Option (Nat × Bool) :=
  (c.peers.get? target).bind fun peer =>
    if peer.connected then peer.quicOut.map fun room => (peer.connection, room) else none

/-- Over the session of the target. Nothing when the other routes are left. -/
def directRoute (attempt : Option (String × String)) (msgType : Protocol.MessageType)
    (target json : String) : Option Outcome :=
  (c.directSession target).bind fun session =>
    if session.2 then
      some (.deliveredBy [.direct session.1 (channelTagFor msgType) json] 0)
    else if isOrderedFilePayload msgType then some (.refused 0)
    else if c.relayAvailable then none
    else some (.failed attempt "connection busy" 0)

/-- Over the relay stream of a supernode. Nothing when its WebSocket is left. -/
def relayRoute (msgType : Protocol.MessageType) (supernodeId json : String) : Option Outcome :=
  if isRelaySignalingType msgType then
    (c.quicRelays.get? supernodeId).bind fun relay =>
      if !relay.isAlive then none
      else if relay.sendSignaling json then some (.deliveredBy [.relay relay.connection json] 0)
      else if relay.signalingUsable && isOrderedFilePayload msgType then some (.refused 0)
      else none
  else none

/-- Over the WebSocket of a supernode. -/
def wsRoute (attempt : Option (String × String)) (supernodeId json : String) : Outcome :=
  match c.supernodes.get? supernodeId with
  | some sn =>
    if sn.connected then
      if sn.accepts then .deliveredBy [.ws sn.connection json] 0 else .refused 1
    else .failed attempt "supernode is offline" 0
  | none => .failed attempt "supernode is offline" 0

def supernodeRoute (attempt : Option (String × String)) (msgType : Protocol.MessageType)
    (supernodeId json : String) : Outcome :=
  (c.relayRoute msgType supernodeId json).getD (c.wsRoute attempt supernodeId json)

/-- The WebSocket sessions that are up, in the order visited. -/
def connectedSupernodes : List SupernodeSession :=
  c.supernodes.values.filter (·.connected)

/-- Over the WebSocket of every connected supernode. -/
def fanOut (attempt : Option (String × String)) (relayJson : String) : Outcome :=
  let takers := c.connectedSupernodes.filter (·.accepts)
  let drops := (c.connectedSupernodes.filter fun sn => !sn.accepts).length
  if takers.isEmpty then .failed attempt "peer is offline" drops
  else .deliveredBy (takers.map fun sn => .ws sn.connection relayJson) drops

/-- Over the first WebSocket that takes it. -/
def firstAccepting (relayJson : String) : Outcome :=
  match c.connectedSupernodes.find? (·.accepts) with
  | some sn => .deliveredBy [.ws sn.connection relayJson] 0
  | none => .refused 0

/-- Whether what missed the direct session goes to every supernode. -/
def shouldFanoutPeerRelay (hasTarget targetIsSupernodeSession : Bool) : Bool :=
  hasTarget && !targetIsSupernodeSession

/-- What ends a dispatch before the message is signed. -/
def gate (msg : Protocol.SignalingMessage) : Option Outcome :=
  let attempt := chatAttempt msg
  if attempt.any fun a =>
      !((c.peers.get? a.1).map (·.connected)).getD false && !c.relayAvailable then
    some (.failed attempt "peer is offline" 0)
  else if (msg.target.bind fun target => (featureGate msg.msgType).map fun fid =>
      c.gateThroughFeature fid target (byteEstimate msg.payload)) = some false then
    some (.failed attempt "quota exceeded" 0)
  else none

/-- Over one of the routes, in their order. -/
def route (attempt : Option (String × String)) (msgType : Protocol.MessageType)
    (target : Option String) (json relayJson : String) : Outcome :=
  (target.bind fun t => c.directRoute attempt msgType t json).getD <|
    match target.bind c.resolveSupernodeWsTarget with
    | some supernodeId => c.supernodeRoute attempt msgType supernodeId json
    | none =>
      if shouldFanoutPeerRelay target.isSome (target.bind c.resolveSupernodeWsTarget).isSome then
        c.fanOut attempt relayJson
      else c.firstAccepting relayJson

/-- Sends a message. The canonical bytes and the JSON of a message always exist,
so the exits for these are not here. -/
def dispatchOutbound (msg : Protocol.SignalingMessage) : Outcome :=
  (c.gate msg).getD <|
    let signedMsg := c.signed S msg
    let json := signedMsg.toJson S
    let relayJson := (c.maybeWrapForRelay S now signedMsg json).getD json
    c.route (chatAttempt msg) msg.msgType msg.target json relayJson

end ConnectionManager

/-! ## Bulk file data -/

/-- The chunks of one transfer and what ends them, between two peers or in a
room. -/
structure BulkTransfer where
  sender : String
  /-- The peer, or the supernode of the room. -/
  target : String
  inRoom : Bool
  chunks : List (List (String × SerdeValue))
  complete : List (String × SerdeValue)

namespace BulkTransfer

variable (b : BulkTransfer)

def chunkType : Protocol.MessageType :=
  if b.inRoom then .sfuFileChunk else .fileTransferChunk

def completeType : Protocol.MessageType :=
  if b.inRoom then .sfuFileComplete else .fileTransferComplete

/-- The frames, in the order they are sent. -/
def frames : List (Protocol.MessageType × List (String × SerdeValue)) :=
  b.chunks.map (fun payload => (b.chunkType, payload)) ++ [(b.completeType, b.complete)]

/-- A frame as it is sent now; a room seals the payload anew each time. -/
def message (now : F64) (reseal : List (String × SerdeValue) → List (String × SerdeValue))
    (frame : Protocol.MessageType × List (String × SerdeValue)) : Protocol.SignalingMessage where
  msgType := frame.1
  sender := b.sender
  payload := reseal frame.2
  timestamp := now
  target := some b.target
  signature := none
  protocolVersion := 2

end BulkTransfer

/-- What the next frame of a transfer meets: sessions and queues as they are then. -/
structure Turn where
  client : ConnectionManager
  now : F64
  reseal : List (String × SerdeValue) → List (String × SerdeValue)

/-- A transfer on its way out. -/
structure Stream where
  pending : List (Protocol.MessageType × List (String × SerdeValue))
  /-- The frames handed over so far, each with the sessions that took it. -/
  handed : List ((Protocol.MessageType × List (String × SerdeValue)) × List Carrier)

def BulkTransfer.start (b : BulkTransfer) : Stream :=
  ⟨b.frames, []⟩

/-- A frame that no transport took is held, and tried again with the rest behind
it. -/
def Stream.dispatchNext (S : FloatSyntax FiniteF64) (b : BulkTransfer) (s : Stream) (t : Turn) :
    Stream :=
  match s.pending with
  | [] => s
  | frame :: rest =>
    let out := t.client.dispatchOutbound S t.now (b.message t.now t.reseal frame)
    if out.delivered then
      ⟨rest, s.handed ++ [(frame, out.sent.map Sent.carrier)]⟩
    else s

end ConquerD.Client.Routing
