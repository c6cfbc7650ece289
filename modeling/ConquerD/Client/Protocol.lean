import ConquerD.Wire.Serde
import Mathlib.Data.List.Nodup

/-!
# Client: the signaling message

The message as the protocol module of the client has it: every message type,
the payload as a parsed object, the timestamp as a double. What is signed is the
JSON of all fields but the signature, keys in order.
-/

namespace ConquerD.Client.Protocol

open Lib.Encoding Lib.JsonText Wire

/-! ## Message types -/

inductive MessageType where
  | hello | welcome | roomJoin | roomLeave | roomState | roomPeerJoined | roomPeerLeft
  | roomListRequest | roomListResponse | inviteHandshakeInit | inviteHandshakeAccept
  | inviteHandshakeReject | encryptedSignal | presenceUpdate | speakingState | chatMessage
  | chatAck | chatTyping | callRequest | callAccept | callReject | callEnd | endpointUpdate
  | handleUpdate | avatarConfig | fileTransferOffer | fileTransferAccept | fileTransferReject
  | fileTransferChunk | fileTransferComplete | fileTransferAck | fileTransferError | relayRequest
  | relayGranted | relayRevoke | relayPaymentRequired | relayAccessGranted | relayAccessDenied
  | supernodeInfo | supernodeInfoRequest | punchRegister | punchReady | sfuRoomList | sfuJoin
  | sfuJoinResult | sfuLeave | sfuMembers | sfuPeerJoined | sfuPeerLeft | sfuOffer | sfuAnswer
  | sfuChat | sfuFileOffer | sfuFileRequest | sfuFileRevoke | sfuFileChunk | sfuFileComplete
  | sfuAudio | sfuVideoKeyframeRequest | sfuVideoState | sfuVideoSubscribe | sfuGroupKey
  | sfuGroupKeyAck | spaceRootAnnounce | sfuRoomCreate | sfuRoomCreated | sfuRoomInvite
  | sfuRoomInviteResult | sfuRoomInviteGenerate | sfuSubscribe | sfuUnsubscribe | peerRoomInvite
  | trustRequest | trustAccept | ping | pong | versionAnnounce | buildAttestation
  | attestationResponse | capabilityAnnounce | capabilityInvoke | gameRelayJoin | gameRelayLeave
  | gameRelayJoined | error
  deriving DecidableEq

/-- The name on the wire. -/
def MessageType.asWireStr : MessageType → String
  | .hello => "hello"
  | .welcome => "welcome"
  | .roomJoin => "room_join"
  | .roomLeave => "room_leave"
  | .roomState => "room_state"
  | .roomPeerJoined => "room_peer_joined"
  | .roomPeerLeft => "room_peer_left"
  | .roomListRequest => "room_list_request"
  | .roomListResponse => "room_list_response"
  | .inviteHandshakeInit => "invite_handshake_init"
  | .inviteHandshakeAccept => "invite_handshake_accept"
  | .inviteHandshakeReject => "invite_handshake_reject"
  | .encryptedSignal => "encrypted_signal"
  | .presenceUpdate => "presence_update"
  | .speakingState => "speaking_state"
  | .chatMessage => "chat_message"
  | .chatAck => "chat_ack"
  | .chatTyping => "chat_typing"
  | .callRequest => "call_request"
  | .callAccept => "call_accept"
  | .callReject => "call_reject"
  | .callEnd => "call_end"
  | .endpointUpdate => "endpoint_update"
  | .handleUpdate => "handle_update"
  | .avatarConfig => "avatar_config"
  | .fileTransferOffer => "file_transfer_offer"
  | .fileTransferAccept => "file_transfer_accept"
  | .fileTransferReject => "file_transfer_reject"
  | .fileTransferChunk => "file_transfer_chunk"
  | .fileTransferComplete => "file_transfer_complete"
  | .fileTransferAck => "file_transfer_ack"
  | .fileTransferError => "file_transfer_error"
  | .relayRequest => "relay_request"
  | .relayGranted => "relay_granted"
  | .relayRevoke => "relay_revoke"
  | .relayPaymentRequired => "relay_payment_required"
  | .relayAccessGranted => "relay_access_granted"
  | .relayAccessDenied => "relay_access_denied"
  | .supernodeInfo => "supernode_info"
  | .supernodeInfoRequest => "supernode_info_request"
  | .punchRegister => "punch_register"
  | .punchReady => "punch_ready"
  | .sfuRoomList => "sfu_room_list"
  | .sfuJoin => "sfu_join"
  | .sfuJoinResult => "sfu_join_result"
  | .sfuLeave => "sfu_leave"
  | .sfuMembers => "sfu_members"
  | .sfuPeerJoined => "sfu_peer_joined"
  | .sfuPeerLeft => "sfu_peer_left"
  | .sfuOffer => "sfu_offer"
  | .sfuAnswer => "sfu_answer"
  | .sfuChat => "sfu_chat"
  | .sfuFileOffer => "sfu_file_offer"
  | .sfuFileRequest => "sfu_file_request"
  | .sfuFileRevoke => "sfu_file_revoke"
  | .sfuFileChunk => "sfu_file_chunk"
  | .sfuFileComplete => "sfu_file_complete"
  | .sfuAudio => "sfu_audio"
  | .sfuVideoKeyframeRequest => "sfu_video_keyframe_request"
  | .sfuVideoState => "sfu_video_state"
  | .sfuVideoSubscribe => "sfu_video_subscribe"
  | .sfuGroupKey => "sfu_group_key"
  | .sfuGroupKeyAck => "sfu_group_key_ack"
  | .spaceRootAnnounce => "space_root_announce"
  | .sfuRoomCreate => "sfu_room_create"
  | .sfuRoomCreated => "sfu_room_created"
  | .sfuRoomInvite => "sfu_room_invite"
  | .sfuRoomInviteResult => "sfu_room_invite_result"
  | .sfuRoomInviteGenerate => "sfu_room_invite_generate"
  | .sfuSubscribe => "sfu_subscribe"
  | .sfuUnsubscribe => "sfu_unsubscribe"
  | .peerRoomInvite => "peer_room_invite"
  | .trustRequest => "trust_request"
  | .trustAccept => "trust_accept"
  | .ping => "ping"
  | .pong => "pong"
  | .versionAnnounce => "version_announce"
  | .buildAttestation => "build_attestation"
  | .attestationResponse => "attestation_response"
  | .capabilityAnnounce => "capability_announce"
  | .capabilityInvoke => "capability_invoke"
  | .gameRelayJoin => "game_relay_join"
  | .gameRelayLeave => "game_relay_leave"
  | .gameRelayJoined => "game_relay_joined"
  | .error => "error"

def MessageType.all : List MessageType :=
  [.hello, .welcome, .roomJoin, .roomLeave, .roomState, .roomPeerJoined, .roomPeerLeft,
   .roomListRequest, .roomListResponse, .inviteHandshakeInit, .inviteHandshakeAccept,
   .inviteHandshakeReject, .encryptedSignal, .presenceUpdate, .speakingState, .chatMessage,
   .chatAck, .chatTyping, .callRequest, .callAccept, .callReject, .callEnd, .endpointUpdate,
   .handleUpdate, .avatarConfig, .fileTransferOffer, .fileTransferAccept, .fileTransferReject,
   .fileTransferChunk, .fileTransferComplete, .fileTransferAck, .fileTransferError,
   .relayRequest, .relayGranted, .relayRevoke, .relayPaymentRequired, .relayAccessGranted,
   .relayAccessDenied, .supernodeInfo, .supernodeInfoRequest, .punchRegister, .punchReady,
   .sfuRoomList, .sfuJoin, .sfuJoinResult, .sfuLeave, .sfuMembers, .sfuPeerJoined, .sfuPeerLeft,
   .sfuOffer, .sfuAnswer, .sfuChat, .sfuFileOffer, .sfuFileRequest, .sfuFileRevoke,
   .sfuFileChunk, .sfuFileComplete, .sfuAudio, .sfuVideoKeyframeRequest, .sfuVideoState,
   .sfuVideoSubscribe, .sfuGroupKey, .sfuGroupKeyAck, .spaceRootAnnounce, .sfuRoomCreate,
   .sfuRoomCreated, .sfuRoomInvite, .sfuRoomInviteResult, .sfuRoomInviteGenerate, .sfuSubscribe,
   .sfuUnsubscribe, .peerRoomInvite, .trustRequest, .trustAccept, .ping, .pong, .versionAnnounce,
   .buildAttestation, .attestationResponse, .capabilityAnnounce, .capabilityInvoke,
   .gameRelayJoin, .gameRelayLeave, .gameRelayJoined, .error]

theorem MessageType.mem_all (t : MessageType) : t ∈ all := by
  cases t <;> decide

theorem MessageType.asWireStr_injective : Function.Injective asWireStr := by
  have hnodup : (all.map asWireStr).Nodup := by decide +kernel
  exact fun t u h => List.inj_on_of_nodup_map hnodup t.mem_all u.mem_all h

/-- The type with this name; the derived names are those of `asWireStr`. -/
def MessageType.ofName (name : String) : Option MessageType :=
  all.find? fun t => t.asWireStr == name

theorem MessageType.ofName_eq_some_iff {name : String} {t : MessageType} :
    ofName name = some t ↔ t.asWireStr = name := by
  constructor
  · intro h
    have hfound := List.find?_some h
    exact beq_iff_eq.mp hfound
  · rintro rfl
    rcases Option.eq_none_or_eq_some (ofName t.asWireStr) with hnone | ⟨u, hu⟩
    · exact absurd (beq_self_eq_true _) (List.find?_eq_none.mp hnone t t.mem_all)
    · have hfound := List.find?_some hu
      rw [hu, asWireStr_injective (beq_iff_eq.mp hfound)]

/-! ## The message -/

structure SignalingMessage where
  msgType : MessageType
  sender : String
  /-- The fields of an object, in the order of their keys. -/
  payload : List (String × SerdeValue)
  timestamp : F64
  target : Option String
  signature : Option String
  protocolVersion : UInt32

variable (S : FloatSyntax FiniteF64) (m : SignalingMessage)

/-- The timestamp as a JSON number; zero when it is not finite. -/
def SignalingMessage.timestampNumber : Number FiniteF64 :=
  (numberFromF64 m.timestamp).getD (.int 0 (by decide))

/-- What is signed, by field name. -/
def SignalingMessage.canonicalFields : List (String × SerdeValue) :=
  [("payload", .obj m.payload), ("sender", .str m.sender)] ++
    (m.target.map fun t => ("target", .str t)).toList ++
    [("timestamp", .num m.timestampNumber), ("type", .str m.msgType.asWireStr),
      ("v", .num (.int m.protocolVersion.toNat (fits64_uint32 m.protocolVersion)))]

def SignalingMessage.canonicalBytes : Bytes :=
  toVec S (.obj m.canonicalFields)

/-! ## In and out of JSON -/

/-- The fields of the message by the names they have on the wire, in the order
they are declared. -/
def fieldNames : List String :=
  ["type", "sender", "payload", "timestamp", "target", "signature", "v"]

/-- The fields of a struct: an object, or an array with the fields in order. -/
def structFields : Doc → Option (List (String × Doc))
  | .obj fields => some fields
  | .arr items => if items.length ≤ fieldNames.length then some (fieldNames.zip items) else none
  | _ => none

/-- No known field is there twice. -/
def knownOnce (fields : List (String × Doc)) : Bool :=
  fieldNames.all fun k => (fields.filter fun e => e.1 == k).length ≤ 1

/-- Containers within a payload field nest no deeper: the text may nest 127 deep,
and message and payload are two of these. -/
def payloadDepth : Nat := 125

def readPayload : Option Doc → Option (List (String × SerdeValue))
  | none => some []
  | some (.obj fields) => (readFields (readValue (Number.ofLiteral S) payloadDepth) fields).map sortFields
  | some _ => none

/-- A timestamp that is missing is the time of reading. -/
def readTimestamp (now : FiniteF64) : Option Doc → Option FiniteF64
  | none => some now
  | some (.num l) => S.read l
  | some _ => none

def readOptionalStr : Option Doc → Option (Option String)
  | none => some none
  | some .null => some none
  | some (.str s) => some (some s)
  | some _ => none

/-- A version that is missing is the current one. -/
def readVersion : Option Doc → Option UInt32
  | none => some 2
  | some (.num l) => l.whole?.bind fun n =>
    if 0 ≤ n ∧ n < 2 ^ 32 then some (.ofNat n.toNat) else none
  | some _ => none

def SignalingMessage.fromFields (now : FiniteF64) (fields : List (String × Doc)) :
    Option SignalingMessage := do
  let msgType ← ((fields.lookup "type").bind variantName).bind MessageType.ofName
  let sender ← (fields.lookup "sender").bind valueStr?
  let payload ← readPayload S (fields.lookup "payload")
  let timestamp ← readTimestamp S now (fields.lookup "timestamp")
  let target ← readOptionalStr (fields.lookup "target")
  let signature ← readOptionalStr (fields.lookup "signature")
  let protocolVersion ← readVersion (fields.lookup "v")
  some { msgType, sender, payload, timestamp := timestamp.val, target, signature, protocolVersion }

def SignalingMessage.fromDoc (now : FiniteF64) (d : Doc) : Option SignalingMessage :=
  (structFields d).bind fun fields => if knownOnce fields then fromFields S now fields else none

def SignalingMessage.fromJson (J : JsonSyntax) (now : FiniteF64) (raw : String) :
    Option SignalingMessage :=
  (J.read raw).bind (fromDoc S now)

/-- A double as a field; nothing when it is not finite. -/
def timestampDoc (x : F64) : Doc :=
  ((numberFromF64 x).map fun n => Value.num (n.toLiteral S)).getD .null

def SignalingMessage.jsonFields : List (String × Doc) :=
  [("type", .str m.msgType.asWireStr), ("sender", .str m.sender),
    ("payload", toDoc S (.obj m.payload)), ("timestamp", timestampDoc S m.timestamp)] ++
    (m.target.map fun t => ("target", .str t)).toList ++
    (m.signature.map fun s => ("signature", .str s)).toList ++
    [("v", .num (.ofInt m.protocolVersion.toNat))]

def SignalingMessage.toJson : String :=
  docText (.obj (m.jsonFields S))

end ConquerD.Client.Protocol
