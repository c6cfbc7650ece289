import ConquerD.Supernode.Handlers

/-!
# Supernode: replicated frames

What a node does with a frame another cluster member handed over, and the ids
game frames are handed over under. One cache of seen ids serves chat, audio and
game frames.
-/

namespace ConquerD.Supernode

open Lib.Rosters Wire

/-- The names of the message types on the wire. -/
def messageTypeNames : List String :=
  ["hello", "welcome", "room_join", "room_leave", "room_state", "room_peer_joined",
    "room_peer_left", "room_list_request", "room_list_response", "invite_handshake_init",
    "invite_handshake_accept", "invite_handshake_reject", "encrypted_signal", "presence_update",
    "speaking_state", "chat_message", "chat_ack", "chat_typing", "call_request", "call_accept",
    "call_reject", "call_end", "endpoint_update", "handle_update", "version_announce",
    "update_offer", "update_accept", "update_reject", "file_transfer_offer",
    "file_transfer_accept", "file_transfer_reject", "file_transfer_chunk",
    "file_transfer_complete", "file_transfer_ack", "file_transfer_error", "relay_request",
    "relay_granted", "relay_revoke", "relay_payment_required", "relay_access_granted",
    "relay_access_denied", "supernode_info", "supernode_info_request", "punch_register",
    "punch_ready", "sfu_room_list", "sfu_join", "sfu_join_result", "sfu_leave", "sfu_members",
    "sfu_peer_joined", "sfu_peer_left", "sfu_offer", "sfu_answer", "sfu_chat", "sfu_file_offer",
    "sfu_file_request", "sfu_file_revoke", "sfu_file_chunk", "sfu_file_complete", "sfu_audio",
    "sfu_video_keyframe_request", "sfu_video_state", "sfu_video_subscribe",
    "space_root_announce", "sfu_room_create", "sfu_room_created", "sfu_room_invite",
    "sfu_room_invite_result", "sfu_room_invite_generate", "sfu_subscribe", "sfu_unsubscribe",
    "trust_request", "trust_accept", "peer_room_invite", "build_attestation",
    "attestation_response", "ping", "pong", "capability_announce", "capability_invoke",
    "game_relay_join", "game_relay_leave", "game_relay_joined", "error"]

/-- The id of a node's game frame with this number. -/
def gameFrameId (publicId : String) (seq : Nat) : String :=
  "game:" ++ publicId ++ ":" ++ toString seq

section Envelope

variable (P : Platform) (raw : String)

/-- The sender of an envelope; empty when it does not parse as a message. -/
def envelopeSender : String :=
  match P.jsonFromStr raw with
  | some (.obj fields) =>
    match (fields.lookup "type").bind Json.asStr? with
    | some ty =>
      if ty ∈ messageTypeNames then ((fields.lookup "sender").bind Json.asStr?).getD "" else ""
    | none => ""
  | _ => ""

/-- The wire type of the envelope is the audio one. -/
def envelopeIsAudio : Bool :=
  (((P.jsonFromStr raw).bind fun v => v.str? "type").map (· == "sfu_audio")).getD false

end Envelope

namespace SupernodeState

variable (P : Platform) (env : Env) (st : SupernodeState)

/-- The id the next game frame is handed over under. -/
def gameMessageId : String :=
  gameFrameId st.config.publicId st.gameReplicationSeq

/-- The envelope a game payload is wrapped in. -/
def gameEnvelope (sessionId sender : String) (payload : Lib.Encoding.Bytes) : Json :=
  .obj [("message_id", .str st.gameMessageId), ("payload_b64", .str (P.encodeB64Std payload)),
    ("sender", .str sender), ("session_id", .str sessionId),
    ("type", .str "game_relay_datagram")]

def replicateGameDatagram (sessionId sender : String) (payload : Lib.Encoding.Bytes) : Outcome :=
  if st.config.clustered then
    ({ st with gameReplicationSeq := (st.gameReplicationSeq + 1) % 2 ^ 64 },
      [.replicate sessionId st.gameMessageId
        (P.jsonToString (st.gameEnvelope P sessionId sender payload))])
  else (st, [])

/-- A live relay connection takes the datagram, of `size` bytes, and drops it when
it is over quota. Without one the answer is nothing. -/
def sendFeatureDatagram (recipient feature : String) (size : Nat) (datagram : Outgoing) :
    Option (List Outgoing) :=
  if st.relay.peers.contains (bare recipient) && env.relayOpen (bare recipient) then
    some (if env.gateOutbound feature (bare recipient) size then [datagram] else [])
  else none

/-- Record a replicated id; the Boolean says whether it is new. -/
def insertSeen (messageId : String) : SupernodeState × Bool :=
  ({ st with replicationSeen := (st.replicationSeen.insertNew messageId).1 },
    (st.replicationSeen.insertNew messageId).2)

/-- The recipients of a replicated game frame: the local members of the session
but the sender. -/
def deliverReplicatedGameDatagram (sessionId messageId raw : String) : Outcome :=
  let (st, isNew) := st.insertSeen messageId
  if !isNew then (st, [])
  else
    match P.jsonFromStr raw with
    | none => (st, [])
    | some envelope =>
      match (envelope.str? "payload_b64").bind P.decodeB64Std with
      | none => (st, [])
      | some payload =>
        let sender := (envelope.str? "sender").getD ""
        (st, ((members st.relay.gameSessions sessionId).toList.filter fun member =>
          bare member ≠ bare sender).flatMap fun member =>
            (st.sendFeatureDatagram env member "game.relay.v1" (payload.length + 1)
              (.gameDatagram member payload)).getD [])

def deliverReplicatedChat (roomId messageId raw : String) : Outcome :=
  let (st, isNew) := st.insertSeen messageId
  if !isNew then (st, [])
  else
    let sender := envelopeSender P raw
    (st, ((st.sfu.getChatRecipients roomId).filter fun peer =>
      !isRoomFrameAuthor peer sender &&
        env.gateOutbound "room.chat.v1" peer raw.utf8ByteSize).map (.frame · raw))

def deliverReplicatedAudio (roomId messageId raw : String) : Outcome :=
  let (st, isNew) := st.insertSeen messageId
  if !isNew then (st, [])
  else
    let sender := envelopeSender P raw
    let recipients := ((st.sfu.getRoom roomId).map SFURoom.participantIds).getD []
    (st, (recipients.filter fun peer => !isRoomFrameAuthor peer sender).flatMap fun peer =>
      match st.sendFeatureDatagram env peer "room.audio.sfu" (raw.utf8ByteSize + 2)
        (.datagram peer raw) with
      | some out => out
      | none =>
        if env.gateOutbound "room.audio.sfu" peer raw.utf8ByteSize then [.frame peer raw]
        else [])

/-- A replicated frame goes to the path its room id and its type ask for. -/
def deliverReplicatedRoomFrame (roomId messageId raw : String) : Outcome :=
  if "game:".toList.isPrefixOf roomId.toList then
    st.deliverReplicatedGameDatagram P env roomId messageId raw
  else if envelopeIsAudio P raw then st.deliverReplicatedAudio P env roomId messageId raw
  else st.deliverReplicatedChat P env roomId messageId raw

end SupernodeState

end ConquerD.Supernode
