import ConquerD.Wire.Serde

/-!
# Supernode: the signaling message

The message as the protocol module of the supernode has it. The supernode keeps
numbers as their texts, and the timestamp both as a double and as it stood on the
wire. It reads the fields it needs out of a parsed value, with a default for most
that are missing or of another type.
-/

namespace ConquerD.Supernode.Protocol

open Lib.Encoding Lib.JsonText Wire

def messageTypeNames : List String :=
  ["hello", "welcome", "room_join", "room_leave", "room_state", "room_peer_joined",
    "room_peer_left", "room_list_request", "room_list_response", "invite_handshake_init",
    "invite_handshake_accept", "invite_handshake_reject", "encrypted_signal", "presence_update",
    "speaking_state", "chat_message", "chat_ack", "chat_typing", "call_request", "call_accept",
    "call_reject", "call_end", "endpoint_update", "handle_update", "version_announce",
    "update_offer", "update_accept", "update_reject", "file_transfer_offer",
    "file_transfer_accept", "file_transfer_reject", "file_transfer_chunk",
    "file_transfer_complete", "file_transfer_ack", "file_transfer_error", "relay_request",
    "relay_granted", "relay_revoke", "relay_payment_required", "relay_access_granted",
    "relay_access_denied", "supernode_info", "supernode_info_request", "punch_register",
    "punch_ready", "sfu_room_list", "sfu_join", "sfu_join_result", "sfu_leave", "sfu_members",
    "sfu_peer_joined", "sfu_peer_left", "sfu_offer", "sfu_answer", "sfu_chat", "sfu_file_offer",
    "sfu_file_request", "sfu_file_revoke", "sfu_file_chunk", "sfu_file_complete", "sfu_audio",
    "sfu_video_keyframe_request", "sfu_video_state", "sfu_video_subscribe",
    "space_root_announce", "sfu_room_create", "sfu_room_created", "sfu_room_invite",
    "sfu_room_invite_result", "sfu_room_invite_generate", "sfu_subscribe", "sfu_unsubscribe",
    "trust_request", "trust_accept", "peer_room_invite", "build_attestation",
    "attestation_response", "ping", "pong", "capability_announce", "capability_invoke",
    "game_relay_join", "game_relay_leave", "game_relay_joined", "error"]

abbrev MessageType := { name : String // name ∈ messageTypeNames }

def MessageType.ofName (name : String) : Option MessageType :=
  if h : name ∈ messageTypeNames then some ⟨name, h⟩ else none

structure SignalingMessage where
  msgType : MessageType
  sender : String
  payload : Doc
  timestamp : F64
  target : Option String
  signature : Option String
  protocolVersion : UInt32
  /-- The timestamp as it stood on the wire. -/
  timestampRaw : Option Doc

/-- The key an object has that stands for a number. -/
def numberKey : String := "$serde_json::private::Number"

/-- How deep a text may nest. -/
def maxDepth : Nat := 127

variable (S : FloatSyntax FiniteF64) (J : JsonSyntax) (m : SignalingMessage)

/-- A double as a number; null when it is not finite. -/
def timestampDoc (x : F64) : Doc :=
  ((numberFromF64 x).map fun n => Value.num (n.toLiteral S)).getD .null

/-- What is signed, by field name. The timestamp is the one of the wire, if there
is one. -/
def SignalingMessage.canonicalFields : List (String × Doc) :=
  [("payload", m.payload), ("sender", .str m.sender)] ++
    (m.target.map fun t => ("target", .str t)).toList ++
    [("timestamp", m.timestampRaw.getD (timestampDoc S m.timestamp)),
      ("type", .str m.msgType.val), ("v", .num (.ofInt m.protocolVersion.toNat))]

def SignalingMessage.canonicalBytes : Bytes :=
  utf8Bytes (docText (.obj (m.canonicalFields S)))

/-- The fields by key. The timestamp is the double. -/
def SignalingMessage.jsonFields : List (String × Doc) :=
  [("payload", m.payload), ("sender", .str m.sender)] ++
    (m.signature.map fun s => ("signature", .str s)).toList ++
    (m.target.map fun t => ("target", .str t)).toList ++
    [("timestamp", timestampDoc S m.timestamp), ("type", .str m.msgType.val),
      ("v", .num (.ofInt m.protocolVersion.toNat))]

def SignalingMessage.toJson : String :=
  docText (.obj (m.jsonFields S))

def asF64 : Doc → Option FiniteF64
  | .num l => S.read l
  | _ => none

def asU64 : Doc → Option Nat
  | .num l => l.whole?.bind fun n => if 0 ≤ n ∧ n < 2 ^ 64 then some n.toNat else none
  | _ => none

/-- The message in the fields of an object. A version too large loses its high
bits. -/
def SignalingMessage.fromFields (fields : List (String × Doc)) : Option SignalingMessage := do
  let msgType ← ((fields.lookup "type").bind variantName).bind MessageType.ofName
  some {
    msgType
    sender := ((fields.lookup "sender").bind valueStr?).getD ""
    payload := (fields.lookup "payload").getD (.obj [])
    timestamp := (((fields.lookup "timestamp").bind (asF64 S)).getD F64.zero).val
    target := (fields.lookup "target").bind valueStr?
    signature := (fields.lookup "signature").bind valueStr?
    protocolVersion := .ofNat (((fields.lookup "v").bind asU64).getD 2)
    timestampRaw := fields.lookup "timestamp" }

def objectFields : Doc → Option (List (String × Doc))
  | .obj fields => some fields
  | _ => none

def SignalingMessage.fromDoc (d : Doc) : Option SignalingMessage :=
  ((readRaw J numberKey maxDepth d).bind objectFields).bind (fromFields S)

def SignalingMessage.fromJson (raw : String) : Option SignalingMessage :=
  (J.read raw).bind (fromDoc S J)

end ConquerD.Supernode.Protocol
