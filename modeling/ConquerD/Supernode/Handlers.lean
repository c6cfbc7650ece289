import ConquerD.Supernode.State

/-!
# Supernode: message handlers

`onMessage` dispatches an authenticated message to its handler; sockets that
open and close have handlers of their own. Each handler runs to its end before
the next one starts.
-/

namespace ConquerD.Supernode

open Wire

/-! ## Frames -/

/-- The recipient is the author of the frame, in any spelling. An empty sender
is nobody. -/
def isRoomFrameAuthor (recipient sender : String) : Bool :=
  sender != "" && normalizePublicId recipient == normalizePublicId sender

/-- The recipients of a room-file frame: the named member, or everyone but the
author. -/
def fileFrameRecipients (recipients : List String) (sender : String) (target : Option String) :
    List String :=
  match target with
  | some target =>
    (recipients.filter fun p => isRoomFrameAuthor p target && !isRoomFrameAuthor p sender).take 1
  | none => recipients.filter fun p => !isRoomFrameAuthor p sender

def filePayloadBypassesQuota : FileMessage → Bool
  | .chunk | .complete => true
  | _ => false

def sfuFileInboundByteCount (payload : Json) : FileMessage → Nat
  | .chunk => ((payload.str? "data").map String.utf8ByteSize).getD 0
  | _ => 64

def sfuChatByteCount (payload : Json) : Nat :=
  ((payload.str? "body").map String.utf8ByteSize).getD 0

def sfuAudioOpusByteCount (P : Platform) (payload : Json) : Nat :=
  (((payload.str? "audio").bind P.decodeB64Url).map List.length).getD 0

/-- The id an audio frame is replicated under: its signature, or room, sender
and sequence number when it has none. -/
def audioReplicationId (msg : SignalingMessage) : String :=
  match msg.signature.filter (· ≠ "") with
  | some sig => "a:" ++ sig
  | none =>
    let room := (msg.payload.str? "room_id").getD ""
    let seq := ((msg.payload.get? "seq").bind Json.asU64?).getD 0
    "a:" ++ room ++ ":" ++ msg.sender.text ++ ":" ++ toString seq

/-- A room type as the payload spells it. -/
def roomTypeFromValue : Json → Option RoomType
  | .str "public" => some .publicRoom
  | .str "private" => some .privateRoom
  | .obj [("public", .null)] => some .publicRoom
  | .obj [("private", .null)] => some .privateRoom
  | _ => none

def maxVideoSubscriptions : Nat := 32

namespace SupernodeState

variable (P : Platform) (env : Env) (st : SupernodeState) (msg : SignalingMessage) (raw : String)

/-- The room of a frame: the payload's, or the built-in one. -/
def frameRoom (msg : SignalingMessage) : String :=
  (msg.payload.str? "room_id").getD defaultRoomId

def replicateRoomChat (roomId : String) : List Outgoing :=
  if st.config.clustered then [.replicate roomId ((msg.payload.str? "message_id").getD "") raw]
  else []

def replicateRoomAudio (roomId : String) : List Outgoing :=
  if st.config.clustered then [.replicate roomId (audioReplicationId msg) raw] else []

/-! ## Room fan-out -/

def handleSfuBroadcast (kind : FileMessage) : Outcome :=
  let payloadBytes := sfuFileInboundByteCount msg.payload kind
  if payloadBytes = 0 then (st, [])
  else if !env.gateInbound "room.file.v1" msg.sender.text payloadBytes &&
      !filePayloadBypassesQuota kind then (st, [])
  else
    let roomId := frameRoom msg
    if !st.sfu.isChatSender roomId msg.sender.text then (st, [])
    else
      let targets := fileFrameRecipients (st.sfu.getChatRecipients roomId) msg.sender.text
        (msg.payload.str? "to")
      (st, (targets.filter fun peer => filePayloadBypassesQuota kind ||
        env.gateOutbound "room.file.v1" peer raw.utf8ByteSize).map (.frame · raw))

def handleSfuAudioBroadcast : Outcome :=
  let opusBytes := sfuAudioOpusByteCount P msg.payload
  if opusBytes = 0 then (st, [])
  else if !env.gateInbound "room.audio.sfu" msg.sender.text opusBytes then (st, [])
  else
    let roomId := frameRoom msg
    let (sfu, targets) := st.sfu.audioForwardTargets P.decay roomId msg.sender.text env.now
    let st := { st with sfu := sfu }
    match targets with
    | none => (st, [])
    | some recipients =>
      (st, ((recipients.filter fun peer => peer != msg.sender.text &&
          env.gateOutbound "room.audio.sfu" peer raw.utf8ByteSize).map (.frame · raw)) ++
        st.replicateRoomAudio msg raw roomId)

def handleSfuChatBroadcast : Outcome :=
  let bodyBytes := sfuChatByteCount msg.payload
  if bodyBytes = 0 then (st, [])
  else if !env.gateInbound "room.chat.v1" msg.sender.text bodyBytes then (st, [])
  else
    let roomId := frameRoom msg
    if !st.sfu.isChatSender roomId msg.sender.text then (st, [])
    else
      (st, (((st.sfu.getChatRecipients roomId).filter fun peer =>
          !isRoomFrameAuthor peer msg.sender.text &&
          env.gateOutbound "room.chat.v1" peer raw.utf8ByteSize).map (.frame · raw)) ++
        st.replicateRoomChat msg raw roomId)

def handleSfuVideoState : Outcome :=
  let roomId := frameRoom msg
  if !st.sfu.isChatSender roomId msg.sender.text then (st, [])
  else
    (st, ((st.sfu.getChatRecipients roomId).filter fun peer =>
      !isRoomFrameAuthor peer msg.sender.text).map (.frame · raw))

def handleSfuVideoKeyframeRequest : Outcome :=
  let roomId := frameRoom msg
  match msg.payload.nonemptyStr? "target_peer" with
  | none => (st, [])
  | some target =>
    if !st.sfu.isChatSender roomId msg.sender.text then (st, [])
    else
      match (st.sfu.getChatRecipients roomId).find? fun peer => isRoomFrameAuthor peer target with
      | none => (st, [])
      | some peer => (st, [.frame peer raw])

def handleSfuVideoSubscribe : Outcome :=
  let roomId := frameRoom msg
  if !st.sfu.isChatSender roomId msg.sender.text then (st, [])
  else
    match (msg.payload.get? "senders").bind Json.asArray? with
    | none => (st, [])
    | some list =>
      let senders := ((list.filterMap Json.asStr?).filter (· ≠ "")).take maxVideoSubscriptions
      ({ st with relay := st.relay.setVideoSubscriptions msg.sender.text senders }, [])

/-- The room-audio datagram bridge: a frame a relay peer sent for the room its
payload names. `fromPeer` is the relay's bare id; `parsed` is the frame as a
message, when it parses. -/
def roomAudioBridge (fromPeer roomId raw : String) (parsed : Option SignalingMessage) : Outcome :=
  let fromPeer := padBase64url fromPeer
  let (sfu, targets) := st.sfu.audioForwardTargets P.decay roomId fromPeer env.now
  let st := { st with sfu := sfu }
  match targets with
  | none => (st, [])
  | some members =>
    let out := (members.filter (· != fromPeer)).filterMap fun member =>
      if st.relay.peers.contains (bare member) && env.relayOpen (bare member) then
        -- the datagram is the frame behind an index byte and a tag byte
        if env.gateOutbound "room.audio.sfu" (bare member) (raw.utf8ByteSize + 2) then
          some (.datagram member raw)
        else none
      else if env.gateOutbound "room.audio.sfu" member raw.utf8ByteSize then
        some (.frame member raw)
      else none
    (st, out ++
      match parsed with
      | some msg => st.replicateRoomAudio msg raw roomId
      | none => [])

/-- A relay connection without a room takes the one a payload names. -/
def healRoom (fromPeer : String) (from_ : RelayPeer) (payloadRoom : Option String) :
    SupernodeState :=
  match from_.roomId, payloadRoom with
  | none, some rid =>
    { st with
      relay := { st.relay with
        peers := st.relay.peers.insert fromPeer { from_ with roomId := some rid }
        rooms := Lib.Rosters.addMember st.relay.rooms rid fromPeer } }
  | _, _ => st

/-- A room-audio broadcast datagram from a relay peer goes to the bridge, for the
room its payload names or else the one its connection is in. -/
def handleRoomAudioDatagram (fromPeer raw : String) (quotaBytes : Nat)
    (payloadRoom : Option String) (parsed : Option SignalingMessage) : Outcome :=
  if decide (quotaBytes > 0) && !env.gateInbound "room.audio.sfu" fromPeer quotaBytes then (st, [])
  else
    match st.relay.peers[fromPeer]? with
    | none => (st, [])
    | some from_ =>
      let st := st.healRoom fromPeer from_ payloadRoom
      match payloadRoom.orElse fun _ => from_.roomId with
      | none => (st, [])
      | some roomId => st.roomAudioBridge P env fromPeer roomId raw parsed

/-! ## Room membership -/

/-- The creator a re-seeded token is recorded under. -/
def tokenCreatedBy (roomId sender : String) : String :=
  match st.sfu.getRoom roomId with
  | none => sender
  | some room => if room.creatorId = "" then sender else room.creatorId

/-- The token a join carries is re-seeded and admits its bearer. -/
def admitByJoinToken (roomId sender token : String) : SupernodeState :=
  let (sfu, ok) := st.sfu.reregisterInviteToken roomId token (st.tokenCreatedBy roomId sender)
  { st with sfu := if ok then sfu.allowPeer roomId sender else sfu }

def handleSfuJoin : Outcome :=
  let sender := msg.sender.text
  let roomId := (msg.payload.str? "room_id").getD defaultRoomId
  let (st, out) := (st.trySpaceAdmission P env sender roomId msg.payload).1
  let st :=
    match msg.payload.nonemptyStr? "invite_token" with
    | none => st
    | some token => st.admitByJoinToken roomId sender token
  let (sfu, ok, members) := st.sfu.joinRoom sender roomId
  let st := { st with sfu := sfu }
  if !ok then
    (st, out ++ [.signed sender
      (.sfuJoinResult roomId (st.sfu.classifyJoinDenial sender roomId).reason)])
  else
    let st := { st with relay := st.relay.joinRoom sender roomId }
    let snapshot := Outgoing.signed sender
      (.sfuMembers ⟨roomId, members, st.sfu.getChatRecipients roomId⟩)
    let joined := (members.filter (· != sender)).map fun member =>
      .signed member (.sfuPeerJoined sender roomId)
    Outcome.andThen (st, out ++ snapshot :: joined ++ st.broadcastSfuMembers roomId) fun st =>
      (st.ensureRelayForRoomGuest P env sender).andThen fun st => (st, [.roomListDirty])

def handleSfuLeave : Outcome :=
  let sender := msg.sender.text
  let roomId := (msg.payload.str? "room_id").getD defaultRoomId
  let (sfu, remaining) := st.sfu.leaveRoom sender roomId env.now
  let st := { st with sfu := sfu, relay := st.relay.leaveRoom sender }
  (st, (remaining.map fun member => .signed member (.sfuPeerLeft sender roomId)) ++
    st.broadcastSfuMembers roomId ++ [.roomListDirty])

def handleSfuSubscribe : Outcome :=
  match msg.payload.nonemptyStr? "room_id" with
  | none => (st, [])
  | some roomId =>
    let (sfu, ok) := st.sfu.subscribe msg.sender.text roomId
    let st := { st with sfu := sfu }
    (st, if ok then st.broadcastSfuMembers roomId else [])

def handleSfuUnsubscribe : Outcome :=
  match msg.payload.nonemptyStr? "room_id" with
  | none => (st, [])
  | some roomId =>
    let st := { st with sfu := st.sfu.unsubscribe msg.sender.text roomId env.now }
    (st, st.broadcastSfuMembers roomId)

/-- The token a create message carries is re-seeded and admits its bearer. The
result carries the token to report. -/
def reseedOnCreate (sfu : SFURoomManager) (roomId createdBy sender : String)
    (clientToken : Option String) : SFURoomManager × Option String :=
  match clientToken with
  | none => (sfu, none)
  | some token =>
    let (sfu, reseeded) := sfu.reregisterInviteToken roomId token createdBy
    if reseeded then (sfu.allowPeer roomId sender, some token) else (sfu, none)

/-- The admission part of a create message, for a message that asks for a
private room: a token is re-seeded and admits its bearer; without one the
creator, or whoever created the room just now, is admitted. The result carries
the token to report. -/
def admitOnCreate (roomId roomCreator sender creatorId : String) (createdNew : Bool)
    (clientToken : Option String) : SupernodeState × Option String :=
  let (sfu, inviteToken) := reseedOnCreate st.sfu roomId
    (if roomCreator = "" then creatorId else roomCreator) sender clientToken
  if inviteToken.isNone ∧ (sender = roomCreator ∨ sender = creatorId ∨ createdNew) then
    let sfu := sfu.allowPeer roomId sender
    if createdNew then
      let (sfu, token) := sfu.generateInviteToken roomId creatorId env.nonce
      ({ st with sfu := sfu }, token)
    else ({ st with sfu := sfu }, none)
  else ({ st with sfu := sfu }, inviteToken)

/-- The fields of a create message with their defaults. -/
structure RoomCreateFields where
  roomName : String
  roomType : RoomType
  creatorId : String
  invitePolicy : String
  roomId : String
  inviteToken : Option String

def roomCreateFields : RoomCreateFields :=
  let roomName := (msg.payload.str? "room_name").getD "Room"
  let creatorId := (msg.payload.nonemptyStr? "creator_id").getD msg.sender.text
  { roomName := roomName
    roomType := ((msg.payload.get? "room_type").bind roomTypeFromValue).getD .publicRoom
    creatorId := creatorId
    invitePolicy := (msg.payload.str? "invite_policy").getD "owner"
    roomId := (msg.payload.str? "room_id").getD (P.deriveRoomId creatorId roomName)
    inviteToken := msg.payload.nonemptyStr? "invite_token" }

/-- The operator's refusal of a new room, when there is one. -/
def createDenied (f : RoomCreateFields) : Option String :=
  if (st.sfu.getRoom f.roomId).isNone && f.roomId != defaultRoomId then
    st.config.sfuRoomPolicy.denyReasonForNewRoom (f.roomType = .publicRoom)
  else none

def handleSfuRoomCreate : Outcome :=
  let sender := msg.sender.text
  let f := roomCreateFields P msg
  match st.createDenied f with
  | some reason => (st, [.signed sender (.sfuRoomCreateDenied f.roomName reason)])
  | none =>
    let (sfu, room, createdNew) := st.sfu.createRoomWithPolicy f.roomId f.roomName f.roomType
      f.creatorId f.invitePolicy env.now
    let st := { st with sfu := sfu }
    let (st, token) :=
      if f.roomType = .privateRoom then
        st.admitOnCreate env room.roomId room.creatorId sender f.creatorId createdNew f.inviteToken
      else (st, none)
    (st, [.signed sender (.sfuRoomCreated room.roomId room.roomName token)])

/-- The token of an invite message: re-seeded, then validated. -/
def redeemRoomInvite (roomId sender token : String) : SupernodeState × Bool :=
  let (sfu, _) := st.sfu.reregisterInviteToken roomId token (st.tokenCreatedBy roomId sender)
  let (sfu, ok) := sfu.validateRoomInvite roomId token sender
  ({ st with sfu := sfu }, ok)

def handleSfuRoomInvite : Outcome :=
  let sender := msg.sender.text
  let roomId := (msg.payload.str? "room_id").getD ""
  let token := (msg.payload.str? "invite_token").getD ""
  let alreadyMember := ((st.sfu.getRoom roomId).map (·.isPeerAllowed sender)).getD false
  let ((st, out), byProof) := st.trySpaceAdmission P env sender roomId msg.payload
  let (st, byToken) :=
    if !byProof && token != "" then st.redeemRoomInvite roomId sender token else (st, false)
  let valid := byProof || byToken || alreadyMember
  match st.sfu.getRoom roomId with
  | none => (st, out)
  | some _ =>
    Outcome.andThen (st, out ++ [.signed sender
      (.sfuRoomInviteResult roomId valid (if valid then "" else "invalid_token"))]) fun st =>
      if valid then st.ensureRelayForRoomGuest P env sender else (st, [])

def handleSfuInviteGenerate : Outcome :=
  let sender := msg.sender.text
  let roomId := (msg.payload.str? "room_id").getD ""
  match st.sfu.generateInviteTokenChecked roomId sender env.nonce with
  | (sfu, .ok token) => ({ st with sfu := sfu }, [.signed sender (.sfuInviteMinted roomId token)])
  | (_, .notAuthorized) => (st, [.signed sender (.sfuInviteMintDenied roomId "not_room_creator")])
  | (_, .roomNotFound) => (st, [.signed sender (.sfuInviteMintDenied roomId "room_not_found")])

/-! ## Trust, relay and the rest -/

def handshakeRecord (accept : HandshakeAccept) : PeerRecord where
  peerId := (msg.payload.str? "joiner_peer_id").getD ""
  identityPub := accept.joinerIdentityPub
  relayHints :=
    match (msg.payload.str? "joiner_listener").getD "" with
    | "" => []
    | listener => [listener]
  handle := (msg.payload.str? "joiner_handle").getD ""
  blocked := false
  revoked := false
  autoConnect := false
  isSupernode := false
  transcriptHash := accept.transcriptHash
  createdAt := env.now
  lastSeenAt := env.now
  quicPort := ((msg.payload.get? "joiner_quic_port").bind Json.asU64?).getD 0 % 2 ^ 16

def handleHandshakeInit : Outcome :=
  match st.handshake.processInit P msg.payload env.nowSecs with
  | .ok accept =>
    let joiner := accept.joinerIdentityPub
    let st := { st with peerStore := st.peerStore.addPeer (handshakeRecord env msg accept) }
    Outcome.andThen
      (st, [.signed joiner (.inviteHandshakeAccept accept.inviteId accept.transcriptHash)])
      fun st => (st.onPeerTrusted env joiner).andThen fun st =>
        (st, [.signed joiner .versionAnnounce, .signed joiner .buildAttestation,
          .signed joiner .sfuRoomList, .signed joiner (.welcome st.peerStore.trustedPeerIds)])
  | .error reason => (st, [.signed msg.sender.text (.inviteHandshakeReject reason)])

def handleRelayRequest : Outcome :=
  let sender := msg.sender.text
  let trusted := st.peerStore.isTrusted sender
  let roomAuthorized := st.sfu.isRoomAuthorizedPeer sender
  if trusted || roomAuthorized then
    if roomAuthorized && !trusted then st.ensureRelayForRoomGuest P env sender
    else st.issueTicketForAccessState env sender
  else (st, [])

def handleSpaceRootAnnounce : Outcome :=
  match (msg.payload.get? "root").bind P.spaceRootFromValue with
  | none => (st, [])
  | some root =>
    if bare root.signer ≠ bare msg.sender.text then (st, [])
    else st.acceptAndGossipSpaceRoot P root

/-- The session a game join names, under the prefix that keeps game lobbies
apart from rooms. -/
def gameSessionId (room : String) : String :=
  if "game:".toList.isPrefixOf room.toList then room else "game:" ++ room

def handleGameRelayJoin : Outcome :=
  let room := (((msg.payload.get? "room").orElse fun _ => msg.payload.get? "room_id").bind
    Json.asStr?).getD "default"
  if st.peerStore.isTrusted msg.sender.text then
    ({ st with relay := st.relay.joinGameSession msg.sender.text (gameSessionId room) },
      [.signed msg.sender.text (.gameRelayJoined room (gameSessionId room))])
  else (st, [])

def onMessage : Outcome :=
  match msg.msgType with
  | .inviteHandshakeInit => st.handleHandshakeInit P env msg
  | .relayRequest => st.handleRelayRequest P env msg
  | .sfuJoin => st.handleSfuJoin P env msg
  | .sfuLeave => st.handleSfuLeave env msg
  | .sfuRoomList => (st, [.signed msg.sender.text .sfuRoomList])
  | .sfuChat => st.handleSfuChatBroadcast env msg raw
  | .sfuAudio => st.handleSfuAudioBroadcast P env msg raw
  | .sfuFile kind => st.handleSfuBroadcast env msg raw kind
  | .sfuVideoState => st.handleSfuVideoState msg raw
  | .sfuVideoKeyframeRequest => st.handleSfuVideoKeyframeRequest msg raw
  | .sfuVideoSubscribe => st.handleSfuVideoSubscribe msg
  | .sfuSubscribe => st.handleSfuSubscribe msg
  | .sfuUnsubscribe => st.handleSfuUnsubscribe env msg
  | .sfuRoomCreate => st.handleSfuRoomCreate P env msg
  | .sfuRoomInvite => st.handleSfuRoomInvite P env msg
  | .sfuRoomInviteGenerate => st.handleSfuInviteGenerate env msg
  | .spaceRootAnnounce => st.handleSpaceRootAnnounce P msg
  | .gameRelayJoin => st.handleGameRelayJoin msg
  | .gameRelayLeave =>
    ({ st with relay := st.relay.leaveGameSession msg.sender.text }, [])
  | .ping => (st, [.signed msg.sender.text .pong])
  | .other => (st, [])

/-! ## Sockets -/

def onPeerConnected (identityPub : String) : Outcome :=
  if st.peerStore.isTrusted identityPub then
    let st := { st with peerStore := st.peerStore.touchPeer identityPub env.now }
    (st.onPeerTrusted env identityPub).andThen fun st =>
      (st, [.signed identityPub .versionAnnounce, .signed identityPub .buildAttestation,
        .signed identityPub .sfuRoomList])
  else (st, [])

/-- A closed signaling socket: the peer leaves every SFU room. The relay is not
told. -/
def onPeerDisconnected (identityPub : String) : Outcome :=
  let (sfu, leftRooms) := st.sfu.removePeerFromAll identityPub env.now
  let st := { st with sfu := sfu }
  if leftRooms.isEmpty then (st, [])
  else
    (st, (leftRooms.flatMap fun e =>
      (e.2.map fun member => .signed member (.sfuPeerLeft identityPub e.1)) ++
        st.broadcastSfuMembers e.1) ++ [.roomListDirty])

end SupernodeState

end ConquerD.Supernode
