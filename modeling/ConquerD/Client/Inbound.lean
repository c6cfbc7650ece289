import ConquerD.Client.Invite
import ConquerD.Client.RoomSession

/-!
# Client: inbound messages

Every inbound message passes the signature and replay checks, whatever way it
came. Chat, call and file messages must come from a trusted peer; the rest are
dispatched by their type alone. A sealed envelope is opened once and what is
inside passes the same checks.
-/

namespace ConquerD.Client

open Std (ExtTreeMap ExtTreeSet)
open Lib.Encoding Lib.Rosters Wire

/-- Decoding of base64url text with exactly its padding or with none. -/
def b64urlDecode (P : Platform) (s : String) : Option Bytes :=
  (P.decodeB64Url s).orElse fun _ => P.decodeB64UrlNoPad s

def strings? (payload : Json) (field : String) : Option (List String) :=
  ((payload.get? field).bind Json.asArray?).map (·.filterMap Json.asStr?)

/-- The epoch a media frame was sealed under. -/
def mediaFrameEpoch (frame : Bytes) : Option Nat :=
  if frame.length < 13 then none else frame.head?.map UInt8.toNat

def PeerRecord.trusted (record : PeerRecord) : Bool :=
  !record.blocked && !record.revoked

namespace ConnectionManager

/-- The sender is in the store, under its id or by its identity, and is neither
blocked nor revoked. -/
def isTrustedSender (order : List String) (store : PeerStore) (sender : String) : Bool :=
  ((store.get sender).orElse fun _ => store.getByIdentity order sender).any PeerRecord.trusted

def canonicalPeerIdForSender (order : List String) (store : PeerStore) (sender : String) :
    String :=
  (((store.get sender).orElse fun _ => store.getByIdentity order sender).map
    PeerRecord.peerId).getD sender

variable (P : Platform) (env : Env) (c : ConnectionManager) (msg : SignalingMessage)

/-- The room a message is about. -/
def roomOf (msg : SignalingMessage) : String :=
  (msg.payload.str? "room_id").getD "default"

def sendRoomJoin (supernodeId roomId : String) : Outcome :=
  let route := env.liveRoomRoute supernodeId
  let c :=
    if c.currentRoomId = roomId ∨ c.currentRoomId = "" then
      { c with currentSupernodeId := route, currentRoomId := roomId }
    else c
  (c, [.roomJoin route roomId])

/-! ## Handles -/

def handleHandleUpdate : ConnectionManager :=
  let handle := (msg.payload.str? "handle").getD ""
  if handle = "" then c
  else
    let canonical := canonicalPeerIdForSender env.storeOrder c.peerStore msg.sender.text
    let key :=
      if (c.peerStore.get canonical).isSome then some canonical
      else (c.peerStore.getByIdentity env.storeOrder msg.sender.text).map PeerRecord.peerId
    match key.bind fun k => (c.peerStore.get k).map fun r => (k, r) with
    | none => c
    | some (k, record) =>
      { c with peerStore := ⟨c.peerStore.records.insert k { record with handle := handle }⟩ }

/-! ## Room keys -/

def handleSfuGroupKey : Outcome :=
  let roomId := (msg.payload.str? "room_id").getD ""
  match (msg.payload.get? "epoch").bind Json.asU64?, msg.payload.str? "key" with
  | some epoch, some keyB64 =>
    if roomId = "" then (c, [])
    else if !c.acceptGroupKeyFrom msg.sender.text roomId (epoch % 256) then (c, [])
    else
      match b64urlDecode P keyB64 with
      | some key =>
        if key.length = 32 then
          ({ c with groupKeys := c.groupKeys.install roomId env.nowMs (epoch % 256) key },
            sendGroupKeyAck env roomId (epoch % 256) msg.sender.text)
        else (c, [])
      | none => (c, [])
  | _, _ => (c, [])

def handleSfuGroupKeyAck : ConnectionManager :=
  let roomId := (msg.payload.str? "room_id").getD ""
  match (msg.payload.get? "epoch").bind Json.asU64? with
  | none => c
  | some epoch =>
    if roomId = "" then c
    else if (c.pendingGroupKeyAcks.lookup (roomId, msg.sender.text)).any
        (·.epoch == epoch % 256) then c.dropPending roomId msg.sender.text
    else c

/-- A frame that does not open tells where the room's keying is: the keyer
catches up, and a member left behind is sealed to again. -/
def noteUnopenedFrame (roomId : String) (epoch : Nat) : Outcome :=
  let c := { c with groupKeys := c.groupKeys.noteObservedEpoch roomId epoch }
  (c.rekeyRoomIfBehind env roomId).andThen fun c =>
    c.resealToLaggingMember P env roomId msg.sender.text epoch

def opensFrame (roomId : String) (epoch : Nat) : Bool :=
  (c.groupKeys.epochKey roomId P epoch).any env.opensUnder

def handleSfuChat : Outcome :=
  let roomId := roomOf msg
  if !(((msg.payload.get? "e2e").bind Json.asBool?).getD false) then (c, [])
  else
    match b64urlDecode P ((msg.payload.str? "body").getD "") with
    | none => (c, [])
    | some sealed =>
      match ((msg.payload.get? "epoch").bind Json.asU64?).filter (· < 256) with
      | none => (c, [])
      | some epoch =>
        if decide (sealed.length ≥ 12) && c.opensFrame P env roomId epoch then
          c.resealToLaggingMember P env roomId msg.sender.text epoch
        else c.noteUnopenedFrame P env msg roomId epoch

def handleSfuAudio : Outcome :=
  match P.decodeB64Url ((msg.payload.str? "audio").getD "") with
  | none => (c, [])
  | some raw =>
    if raw.isEmpty then (c, [])
    else if !(((msg.payload.get? "e2e").bind Json.asBool?).getD false) then (c, [])
    else
      let roomId := (msg.payload.str? "room_id").getD ""
      match mediaFrameEpoch raw with
      | none => (c, [])
      | some epoch =>
        if c.opensFrame P env roomId epoch then
          c.resealToLaggingMember P env roomId msg.sender.text epoch
        else c.noteUnopenedFrame P env msg roomId epoch

/-! ## Room membership -/

/-- A failover that awaits this room is confirmed by whoever answers for it. -/
def confirmFailover (roomId : String) : ConnectionManager :=
  if c.failoverPendingRoom = some roomId then
    { c with
      failoverPendingRoom := none
      currentSupernodeId := msg.sender.text
      currentRoomId := roomId }
  else c

def handleSfuMembers : Outcome :=
  let members := (strings? msg.payload "members").getD []
  let chatMembers := (strings? msg.payload "chat_members").getD members
  (c.confirmFailover msg (roomOf msg)).syncRoomMembership P env msg.sender.text (roomOf msg)
    chatMembers

def heldSnapshot : ExtTreeSet String :=
  (members c.roomGroupMembers (roomScopeKey msg.sender.text (roomOf msg))).insert c.publicId

def announcedPeer (msg : SignalingMessage) : String :=
  (msg.payload.str? "peer_id").getD msg.sender.text

def handleSfuPeerJoined : Outcome :=
  c.syncRoomMembership P env msg.sender.text (roomOf msg)
    ((c.heldSnapshot msg).insert (announcedPeer msg)).toList

def handleSfuPeerLeft : Outcome :=
  c.syncRoomMembership P env msg.sender.text (roomOf msg)
    ((c.heldSnapshot msg).erase (announcedPeer msg)).toList

/-- Local state of a room is dropped. -/
def forgetRoom (supernodeId roomId : String) : ConnectionManager :=
  { c with
    roomGroupMembers := c.roomGroupMembers.erase (roomScopeKey supernodeId roomId)
    groupKeys := c.groupKeys.forget roomId }.dropPendingOfRoom roomId

def handleSfuRoomCreated : Outcome :=
  let roomId := (msg.payload.str? "room_id").getD ""
  if ((msg.payload.get? "denied").bind Json.asBool?).getD false then (c, [])
  else if roomId = "" then (c, [])
  else if env.materializeOnly then
    let list : Outgoing := .roomListRequest msg.sender.text
    if (msg.payload.str? "room_type").getD "public" = "private" then
      ({ c with
          chatActiveRooms := c.chatActiveRooms.insert (roomScopeKey msg.sender.text roomId) },
        [list, .roomSubscribe msg.sender.text roomId])
    else (c, [list])
  else
    ({ c with currentSupernodeId := msg.sender.text, currentRoomId := roomId }.forgetRoom
      msg.sender.text roomId).sendRoomJoin env msg.sender.text roomId

/-! ## Handshakes -/

/-- The hint, when it is an address and a port. -/
def quicHint (field : String) : String :=
  ((msg.payload.str? field).filter fun h => (env.parseQuicLanHint h).isSome).getD ""

/-- The peer id a joiner gives itself. -/
def joinerPeerId (msg : SignalingMessage) : String :=
  (msg.payload.str? "joiner_peer_id").getD msg.sender.text

/-- The port a joiner listens on; zero when it is none. -/
def joinerQuicPort (msg : SignalingMessage) : Nat :=
  (((msg.payload.get? "joiner_quic_port").bind Json.asU64?).filter (· < 2 ^ 16)).getD 0

def addHint (hints : List String) (hint : String) : List String :=
  if hint ≠ "" ∧ hint ∉ hints then hints ++ [hint] else hints

/-- The record filed under the joiner's peer id, brought up to date. -/
def refreshedRecord (record : PeerRecord) : PeerRecord :=
  let handle := (msg.payload.str? "joiner_handle").getD ""
  { record with
    lastSeenAt := env.unixNow
    autoConnect := true
    handle := if handle = "" then record.handle else handle
    quicPort := if joinerQuicPort msg = 0 then record.quicPort else joinerQuicPort msg
    relayHints := addHint (addHint record.relayHints (quicHint env msg "joiner_lan_hint"))
      (quicHint env msg "joiner_public_hint") }

/-- The record of a joiner that has none. -/
def joinerRecord : PeerRecord :=
  { PeerRecord.default with
    peerId := joinerPeerId msg
    identityPub := msg.sender.text
    handle := (msg.payload.str? "joiner_handle").getD ""
    relayHints := [quicHint env msg "joiner_lan_hint", quicHint env msg "joiner_public_hint"].filter
      (· ≠ "")
    autoConnect := true
    quicPort := joinerQuicPort msg
    createdAt := env.unixNow
    lastSeenAt := env.unixNow }

/-- The inviter hears from a joiner. The invite id is echoed and not looked at. -/
def handleInviteHandshakeInit : Outcome :=
  let store :=
    match c.peerStore.get (joinerPeerId msg) with
    | some record =>
      ⟨c.peerStore.records.insert (joinerPeerId msg) (refreshedRecord env msg record)⟩
    | none => c.peerStore.upsert (joinerRecord env msg)
  ({ c with peerStore := store },
    [.inviteHandshakeAccept msg.sender.text ((msg.payload.str? "invite_id").getD "")])

/-- The identity an acceptance gives as the inviter's. -/
def acceptIdentityPub (msg : SignalingMessage) : String :=
  (msg.payload.str? "inviter_identity_pub").getD msg.sender.text

def acceptPeerId (msg : SignalingMessage) : String :=
  (msg.payload.str? "inviter_peer_id").getD (acceptIdentityPub msg)

def inviterRecord (pending : PendingInvite) : PeerRecord :=
  let priorHandle := (((c.peerStore.get (acceptPeerId msg)).orElse fun _ =>
    c.peerStore.getByIdentity env.storeOrder (acceptIdentityPub msg)).map PeerRecord.handle).getD ""
  let handle := (msg.payload.str? "inviter_handle").getD ""
  { PeerRecord.default with
    peerId := acceptPeerId msg
    identityPub := acceptIdentityPub msg
    handle := if handle = "" then priorHandle else handle
    relayHints := if pending.relayHint = "" then [] else [pending.relayHint]
    autoConnect := !pending.isSupernode
    quicPort := ((env.parseQuicLanHint pending.lanHint).map (·.2)).getD 0
    isSupernode := pending.isSupernode
    supernodeFromInvite := pending.isSupernode
    createdAt := env.unixNow
    lastSeenAt := env.unixNow }

/-- The joiner hears from an inviter. The invite is matched by its id, and the
inviter by what the payload says of it. -/
def handleInviteHandshakeAccept : ConnectionManager :=
  let inviteId := (msg.payload.str? "invite_id").getD ""
  match c.pendingInvites[inviteId]? with
  | none => c
  | some pending =>
    let c := { c with pendingInvites := c.pendingInvites.erase inviteId }
    if acceptIdentityPub msg ≠ pending.inviterIdentityPub ∨
        acceptPeerId msg ≠ pending.inviterPeerId then c
    else { c with peerStore := c.peerStore.upsertFromInvite (c.inviterRecord env msg pending) }

/-! ## Dispatch -/

/-- Signature and replay checks. Room audio is exempt from the replay check. -/
def passesChecks (env : Env) (msg : SignalingMessage) : Bool :=
  env.verifyInboundSignature msg && (msg.msgType == .sfuAudio || env.checkReplay msg)

/-- A message that passed its checks and is no envelope. -/
def dispatch : Outcome :=
  match msg.msgType with
  | .peerTraffic =>
    if isTrustedSender env.storeOrder c.peerStore msg.sender.text then
      (c, [.honoured msg.sender.text])
    else (c, [])
  | .handleUpdate => (c.handleHandleUpdate env msg, [])
  | .sfuGroupKey => c.handleSfuGroupKey P env msg
  | .sfuGroupKeyAck => (c.handleSfuGroupKeyAck msg, [])
  | .sfuMembers => c.handleSfuMembers P env msg
  | .sfuPeerJoined => c.handleSfuPeerJoined P env msg
  | .sfuPeerLeft => c.handleSfuPeerLeft P env msg
  | .sfuChat => c.handleSfuChat P env msg
  | .sfuAudio => c.handleSfuAudio P env msg
  | .sfuRoomCreated => c.handleSfuRoomCreated env msg
  | .inviteHandshakeInit => c.handleInviteHandshakeInit env msg
  | .inviteHandshakeAccept => (c.handleInviteHandshakeAccept env msg, [])
  | .encryptedSignal => (c, [])
  | .other => (c, [])

/-- The message that is dispatched: the one that arrived, or the one inside it.
The inner one has the outer one's sender and is no envelope again. -/
def dispatched (env : Env) (msg : SignalingMessage) : Option SignalingMessage :=
  if !passesChecks env msg then none
  else if msg.msgType ≠ .encryptedSignal then some msg
  else
    match env.openEnvelope msg with
    | none => none
    | some inner =>
      if inner.msgType = .encryptedSignal ∨ inner.sender ≠ msg.sender ∨ !passesChecks env inner then
        none
      else some inner

def handleInbound : Outcome :=
  match dispatched env msg with
  | none => (c, [])
  | some msg => c.dispatch P env msg

end ConnectionManager

end ConquerD.Client
