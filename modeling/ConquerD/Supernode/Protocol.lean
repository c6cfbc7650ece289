import ConquerD.Wire.Space
import Std.Data.ExtTreeMap

/-!
# Supernode: messages in and out

A signaling message has passed the signature, freshness and replay checks when
a handler sees it, so its sender is an authenticated public id in whatever
spelling the message used. Message types the handler leaves alone are one
constructor. What a handler sends is collected as a list of `Outgoing`.
-/

namespace ConquerD.Supernode

open Wire

/-- The room-file message types. -/
inductive FileMessage where
  | offer
  | request
  | revoke
  | chunk
  | complete
  deriving DecidableEq, Repr

/-- The message types `on_message` acts on. -/
inductive MessageType where
  | inviteHandshakeInit
  | relayRequest
  | sfuJoin
  | sfuLeave
  | sfuRoomList
  | sfuChat
  | sfuAudio
  | sfuFile (kind : FileMessage)
  | sfuVideoState
  | sfuVideoKeyframeRequest
  | sfuVideoSubscribe
  | sfuSubscribe
  | sfuUnsubscribe
  | sfuRoomCreate
  | sfuRoomInvite
  | sfuRoomInviteGenerate
  | spaceRootAnnounce
  | gameRelayJoin
  | gameRelayLeave
  | ping
  | other
  deriving DecidableEq, Repr

structure SignalingMessage where
  msgType : MessageType
  sender : PublicId
  payload : Json
  signature : Option String

/-- A room as the lists sent to a peer describe it, and the rosters of one
room. -/
structure RoomRosters where
  roomId : String
  members : List String
  chatMembers : List String
  deriving DecidableEq

/-- The signed messages the handlers send. Payloads that only restate the
node's own description (capabilities, version, ticket, room list) carry no
fields here. -/
inductive Reply where
  | inviteHandshakeAccept (inviteId transcriptHash : String)
  | inviteHandshakeReject (reason : String)
  | relayGranted (portalOnly : Bool)
  | supernodeInfo
  | capabilityAnnounce
  | versionAnnounce
  | buildAttestation
  | sfuRoomList
  | welcome (peers : List String)
  | pong
  | sfuJoinResult (roomId reason : String)
  | sfuMembers (rosters : RoomRosters)
  | sfuPeerJoined (peerId roomId : String)
  | sfuPeerLeft (peerId roomId : String)
  | sfuRoomCreated (roomId roomName : String) (inviteToken : Option String)
  | sfuRoomCreateDenied (roomName reason : String)
  | sfuRoomInviteResult (roomId : String) (accepted : Bool) (reason : String)
  | sfuInviteMinted (roomId token : String)
  | sfuInviteMintDenied (roomId reason : String)
  | gameRelayJoined (room sessionId : String)
  deriving DecidableEq

inductive Outgoing where
  /-- A message of the node's own, signed. -/
  | signed (target : String) (reply : Reply)
  /-- A client's frame, forwarded as received. -/
  | frame (target raw : String)
  /-- A client's audio frame as a relay datagram. -/
  | datagram (target raw : String)
  /-- A game payload as a relay datagram. -/
  | gameDatagram (target : String) (payload : Lib.Encoding.Bytes)
  /-- A frame handed to the cluster link. -/
  | replicate (roomId messageId raw : String)
  /-- A trust grant handed to the cluster link. -/
  | peerAuth (identityPub handle : String) (directInvite : Bool)
  /-- A root handed to the cluster link. -/
  | spaceRoot (root : SignedSpaceRoot)
  /-- A broadcast of the room list is owed. -/
  | roomListDirty
  deriving DecidableEq

/-!
## Supernode: the invite handshake

The pending invites and the processing of a joiner's first message.
-/

open Std (ExtTreeMap)
open Lib.Encoding

structure PendingInvite where
  ephemeralSecret : Bytes
  ephemeralPublic : Bytes
  expiresAt : Int
  deriving DecidableEq

structure HandshakeManager where
  /-- The node's own public id. -/
  publicId : String
  pending : ExtTreeMap String PendingInvite

/-- The result of a joiner's first message. -/
structure HandshakeAccept where
  inviteId : String
  transcriptHash : String
  joinerIdentityPub : String
  deriving DecidableEq, Repr

/-- Checks the invite and the joiner's fields. `now` is in seconds since the
epoch. The error is the reason sent back. -/
def HandshakeManager.processInit (P : Platform) (hs : HandshakeManager) (payload : Json)
    (now : Int) : Except String HandshakeAccept := do
  let some inviteId := payload.str? "invite_id" | .error "missing invite_id"
  let some pending := hs.pending[inviteId]? | .error ("unknown invite_id: " ++ inviteId)
  if pending.expiresAt < now then .error "invite_expired"
  let some joinerIdentityPub := payload.str? "joiner_identity_pub"
    | .error "missing joiner_identity_pub"
  let some _ := payload.str? "joiner_peer_id" | .error "missing joiner_peer_id"
  let some joinerEphemeral := payload.str? "joiner_ephemeral_pub"
    | .error "missing joiner_ephemeral_pub"
  let some ephemeral := P.b64urlDecode joinerEphemeral
    | .error (P.decodeErrorText joinerEphemeral)
  if ephemeral.length ≠ 32 then .error "joiner_ephemeral_pub must be 32 bytes"
  let sharedSecret := P.x25519Exchange pending.ephemeralSecret ephemeral
  if sharedSecret.all (· = 0) then .error "low-order X25519 point rejected"
  let transcript := Json.obj
    [("invite_id", .str inviteId),
      ("inviter_ephemeral_pub", .str (b64UrlEncode pending.ephemeralPublic)),
      ("inviter_identity_pub", .str hs.publicId),
      ("joiner_ephemeral_pub", .str joinerEphemeral),
      ("joiner_identity_pub", .str joinerIdentityPub)]
  return {
    inviteId := inviteId
    transcriptHash := P.sha256Hex (P.jsonToVec transcript)
    joinerIdentityPub := joinerIdentityPub }

end ConquerD.Supernode
