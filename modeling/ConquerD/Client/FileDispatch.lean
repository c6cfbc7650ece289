import ConquerD.Client.FileTransfer

/-!
# Client: file frames on their way out

What a file manager wants sent goes out frame by frame. Once a chunk did not go
out, the rest of its batch is held back; the manager is told to count the chunks
that were not sent again, and which streams made progress or reached no
transport. A room's file is streamed to the member that asked for it.
-/

namespace ConquerD.Client

open Lib.Encoding Wire

/-! ## Dispatch -/

/-- What the frames of a batch meet on their way out. -/
structure Transport where
  /-- A real key of the room is held. -/
  hasRealKey : Bool
  /-- The chunk can be sealed under the key of the room. -/
  seals : FileMessage → Bool
  /-- The frame is handed to a transport. -/
  sends : FileMessage → Bool

/-- Adds a name to a set. -/
def insertName (name : String) (names : List String) : List String :=
  if name ∈ names then names else names ++ [name]

/-- Counts one more for a name. -/
def bump (name : String) : List (String × Nat) → List (String × Nat)
  | [] => [(name, 1)]
  | (other, n) :: rest => if other = name then (other, n + 1) :: rest else (other, n) :: bump name rest

/-- A batch that is being dispatched. -/
structure Batch where
  manager : FileTransferManager
  /-- A chunk did not go out, so the rest of the file data waits. -/
  holdFileData : Bool
  unsentChunks : List (String × Nat)
  stalled : List String
  progressed : List String
  sent : List FileMessage

namespace Batch

def new (m : FileTransferManager) : Batch := ⟨m, false, [], [], [], []⟩

/-- A frame of file data did not go out. -/
def miss (b : Batch) (transferId : String) (isChunk : Bool) : Batch :=
  if transferId = "" then b
  else
    { b with
      stalled := insertName transferId b.stalled
      unsentChunks := if isChunk then bump transferId b.unsentChunks else b.unsentChunks }

variable (env : FileEnv) (ready sends : FileMessage → Bool)

/-- One frame; a chunk must be ready to be sent. -/
def dispatch (b : Batch) (f : FileMessage) : Batch :=
  match f with
  | .chunk transferId _ _ _ =>
    if b.holdFileData then b.miss transferId true
    else if ready f && sends f then
      { b with
        progressed := if transferId = "" then b.progressed else insertName transferId b.progressed
        sent := b.sent ++ [f] }
    else { b.miss transferId true with holdFileData := true }
  | .complete transferId _ =>
    if b.holdFileData then b.miss transferId false
    else if sends f then
      { b with
        manager := b.manager.markOutboundComplete env transferId
        sent := b.sent ++ [f] }
    else b.miss transferId false
  | f => if sends f then { b with sent := b.sent ++ [f] } else b

/-- What the manager is told at the end of a batch. -/
def finish (b : Batch) : FileTransferManager :=
  let m := b.unsentChunks.foldl (fun m p => m.unsendChunks p.1 p.2) b.manager
  let m := (b.progressed.filter fun t => t ∉ b.stalled).foldl (fun m t => m.noteSendProgress t) m
  b.stalled.foldl (fun m t => (m.noteSendStalled env t).1) m

end Batch

/-- The messages among what happened. -/
def messagesOf (evs : List TransferEvent) : List FileMessage :=
  evs.filterMap fun
    | .sendMessage _ f => some f
    | _ => none

/-- Dispatches the messages of a kind, and gives what went out. -/
def dispatchBatch (env : FileEnv) (ready sends : FileMessage → Bool) (m : FileTransferManager)
    (fs : List FileMessage) : FileTransferManager × List FileMessage :=
  let b := fs.foldl (Batch.dispatch env ready sends) (Batch.new m)
  (b.finish env, b.sent)

/-- Between two peers every message is sent as it is. -/
def dispatchTransferEvents (env : FileEnv) (net : Transport) (m : FileTransferManager)
    (evs : List TransferEvent) : FileTransferManager × List FileMessage :=
  dispatchBatch env (fun _ => true) net.sends m (messagesOf evs)

/-- A room's files are offered, streamed and completed; other messages have no
counterpart there. -/
def FileMessage.isRoomMessage : FileMessage → Bool
  | .offer .. | .chunk .. | .complete .. => true
  | _ => false

/-- A room's chunk goes out sealed under a real key of the room. -/
def Transport.chunkReady (P : Platform) (net : Transport) : FileMessage → Bool
  | .chunk transferId index data toPeer =>
    net.hasRealKey &&
      ((P.decodeB64Std data).isNone || net.seals (.chunk transferId index data toPeer))
  | _ => true

def dispatchRoomTransferEvents (P : Platform) (env : FileEnv) (net : Transport)
    (m : FileTransferManager) (evs : List TransferEvent) :
    FileTransferManager × List FileMessage :=
  dispatchBatch env (net.chunkReady P) net.sends m
    ((messagesOf evs).filter FileMessage.isRoomMessage)

/-! ## Requests and the pump -/

/-- A file message of a peer, its signature verified. -/
structure FileSignal where
  sender : PublicId
  payload : Json

/-- Equal up to padding. -/
def samePad (a b : String) : Bool :=
  a == b || bare a == bare b

inductive RequestOutcome where
  /-- Not for us, or of no transfer. -/
  | ignored
  /-- The offer is gone, and the requester is told. -/
  | refused (transferId requester : String)
  | streaming (transferId requester : String) (manager : FileTransferManager)
      (sent : List FileMessage)

section Room

variable (P : Platform) (env : FileEnv) (disk : Disk) (net : Transport) (me : String)

/-- A member asks for a file of ours. -/
def handleSfuFileRequest (m : FileTransferManager) (msg : FileSignal) : RequestOutcome :=
  let transferId := (msg.payload.str? "transfer_id").getD ""
  let toPeer := (msg.payload.str? "to").getD ""
  if transferId = "" then .ignored
  else if toPeer ≠ "" ∧ !samePad toPeer me then .ignored
  else if !m.hasOutbound transferId then .refused transferId msg.sender.text
  else
    let started := m.startStreamFor P env disk transferId msg.sender.text roomFileChunkBudget
    let out := dispatchRoomTransferEvents P env net started.1 started.2
    .streaming transferId msg.sender.text out.1 out.2

/-- The next slice of one stream. -/
def pumpRoomFileStream (m : FileTransferManager) (transferId : String) :
    FileTransferManager × List FileMessage :=
  let slice := m.pumpStream P env disk transferId roomFileChunkBudget
  if slice.2.1.isEmpty then (slice.1, [])
  else dispatchRoomTransferEvents P env net slice.1 slice.2.1

/-- The next slice of every stream of a room's file. -/
def pumpRoomFileStreams (m : FileTransferManager) : FileTransferManager × List FileMessage :=
  (m.activeOutboundStreams env).foldl (fun out transferId =>
    let next := pumpRoomFileStream P env disk net out.1 transferId
    (next.1, out.2 ++ next.2)) (m, [])

end Room

/-!
## Client: file messages that arrive

The messages between two peers go to one file manager, those of rooms to
another. Each message is of the transfer it names; its signature is verified
before it gets here, and quotas and the opening of sealed chunks are told from
outside.
-/

inductive FileMessageType where
  | fileTransferOffer
  | fileTransferAccept
  | fileTransferReject
  | fileTransferChunk
  | fileTransferComplete
  | fileTransferAck
  | fileTransferError
  | sfuFileOffer
  | sfuFileRequest
  | sfuFileRevoke
  | sfuFileChunk
  | sfuFileComplete
  deriving DecidableEq

/-- What the handling of a file message reads from outside. -/
structure FileInboundEnv where
  file : FileEnv
  net : Transport
  /-- The quota of the feature admits the message. -/
  gateThroughFeature : Bool
  /-- `openFileChunk room sender transfer index epoch sealed`. -/
  openFileChunk : String → String → String → Nat → Nat → Bytes → Option Bytes

/-- The two file managers and the disk they share. -/
structure FileState where
  fileMgr : FileTransferManager
  roomFileMgr : FileTransferManager
  disk : Disk

/-! ### Fields -/

def transferIdOf (msg : FileSignal) : String :=
  (msg.payload.str? "transfer_id").getD ""

def chunkIndexOf (msg : FileSignal) : Nat :=
  ((msg.payload.get? "chunk_index").bind Json.asU64?).getD 0

def boolOf (msg : FileSignal) (field : String) : Bool :=
  ((msg.payload.get? field).bind Json.asBool?).getD false

/-- An offer as a message has it; without id, hash or size it is dropped. -/
def offerFields (msg : FileSignal) (relPathDefault purposeDefault : String) :
    Option FileTransferManager.OfferFields := do
  let transferId ← msg.payload.nonemptyStr? "transfer_id"
  let sha256 ← msg.payload.nonemptyStr? "sha256"
  let size ← (msg.payload.get? "size").bind Json.asU64?
  return {
    transferId
    relPath := (msg.payload.str? "rel_path").getD relPathDefault
    sha256
    size
    totalChunks := ((msg.payload.get? "total_chunks").bind Json.asU64?).getD 1
    purpose := (msg.payload.str? "purpose").getD purposeDefault
    compressed := boolOf msg "compressed"
    isDelta := boolOf msg "is_delta"
    baseSha256 := (msg.payload.str? "base_sha256").getD "" }

def roomIdOf (msg : FileSignal) : String :=
  (msg.payload.str? "room_id").getD "default"

/-- Who offers a room's file: the originator it is stamped with, or the sender
of the message when it is stamped with none or with the room. -/
def originOf (msg : FileSignal) : String :=
  ((msg.payload.str? "origin_id").filter fun s => s ≠ "" ∧ s ≠ roomIdOf msg).getD msg.sender.text

section Handlers

variable (P : Platform) (Z : Zlib) (env : FileInboundEnv) (me : String) (s : FileState)
  (msg : FileSignal)

/-- The file manager acted between peers, with what happened. -/
def FileState.direct (o : FileOutcome) : FileState :=
  { s with
    fileMgr := (dispatchTransferEvents env.file env.net o.1 o.2.2).1
    disk := o.2.1 }

/-- The file manager of rooms acted, with what happened. -/
def FileState.room (o : FileOutcome) : FileState :=
  { s with
    roomFileMgr := (dispatchRoomTransferEvents P env.file env.net o.1 o.2.2).1
    disk := o.2.1 }

/-! ### Between peers -/

def handleFileTransferOffer : FileState :=
  if !env.gateThroughFeature then s
  else
    match offerFields msg "" "file" with
    | none => s
    | some o => s.direct env (s.fileMgr.onOfferReceived env.file s.disk msg.sender.text o)

/-- A peer that accepts an offer that is gone is told so. -/
def handleFileTransferAccept : FileState :=
  let transferId := transferIdOf msg
  if !s.fileMgr.hasOutbound transferId then s
  else
    let accepted := s.fileMgr.onTransferAccepted P env.file s.disk transferId
    s.direct env (accepted.1, s.disk, accepted.2)

def handleFileTransferReject : FileState :=
  let rejected := s.fileMgr.onTransferRejected (transferIdOf msg)
  s.direct env (rejected.1, s.disk, rejected.2)

/-- A chunk of a transfer that is not known pays for its size. -/
def handleFileTransferChunk : FileState :=
  let transferId := transferIdOf msg
  if !s.fileMgr.hasInbound transferId && !env.gateThroughFeature then s
  else
    s.direct env (s.fileMgr.onChunkReceived P Z env.file s.disk transferId (chunkIndexOf msg)
      ((msg.payload.str? "data").getD ""))

def handleFileTransferComplete : FileState :=
  s.direct env (s.fileMgr.onCompleteReceived P Z env.file s.disk (transferIdOf msg))

def handleFileTransferAck : FileState :=
  let acked := s.fileMgr.onTransferAck env.file (transferIdOf msg)
  s.direct env (acked.1, s.disk, acked.2)

def handleFileTransferError : FileState :=
  let failed := s.fileMgr.onTransferError (transferIdOf msg)
    ((msg.payload.str? "reason").getD "unknown")
  s.direct env (failed.1, s.disk, failed.2)

/-! ### In rooms -/

def handleSfuFileOffer (supernodeId : String) : FileState :=
  if !env.gateThroughFeature then s
  else
    match offerFields msg "file" "room_file" with
    | none => s
    | some o =>
      s.room P env (s.roomFileMgr.onOfferReceivedWithRoom env.file s.disk (originOf msg)
        (roomIdOf msg) supernodeId o)

/-- Only the peer who advertised a file may revoke it. -/
def handleSfuFileRevoke : FileState :=
  let transferId := transferIdOf msg
  if transferId = "" then s
  else
    match s.roomFileMgr.inboundRoute transferId with
    | none => s
    | some (origin, _, _) =>
      if origin = msg.sender.text then
        let discarded := s.roomFileMgr.discardInbound s.disk transferId
        { s with roomFileMgr := discarded.1, disk := discarded.2 }
      else s

def openedChunk : Option Bytes :=
  if !boolOf msg "e2e" then none
  else
    (P.decodeB64Std ((msg.payload.str? "data").getD "")).bind fun sealedData =>
      ((msg.payload.get? "epoch").bind Json.asU64?).bind fun epoch =>
        if epoch < 256 then
          env.openFileChunk (roomIdOf msg) msg.sender.text (transferIdOf msg) (chunkIndexOf msg)
            epoch sealedData
        else none

def handleSfuFileChunk : FileState :=
  let transferId := transferIdOf msg
  if !s.roomFileMgr.hasInbound transferId && !env.gateThroughFeature then s
  else
    match openedChunk P env msg with
    | none => s
    | some plain =>
      s.room P env (s.roomFileMgr.onChunkBytesReceived P Z env.file s.disk transferId
        (chunkIndexOf msg) plain)

def handleSfuFileComplete : FileState :=
  s.room P env (s.roomFileMgr.onCompleteReceived P Z env.file s.disk (transferIdOf msg))

def handleFileMessage (supernodeId : String) : FileMessageType → FileState
  | .fileTransferOffer => handleFileTransferOffer env s msg
  | .fileTransferAccept => handleFileTransferAccept P env s msg
  | .fileTransferReject => handleFileTransferReject env s msg
  | .fileTransferChunk => handleFileTransferChunk P Z env s msg
  | .fileTransferComplete => handleFileTransferComplete P Z env s msg
  | .fileTransferAck => handleFileTransferAck env s msg
  | .fileTransferError => handleFileTransferError env s msg
  | .sfuFileOffer => handleSfuFileOffer P env s msg supernodeId
  | .sfuFileRequest =>
    match handleSfuFileRequest P env.file s.disk env.net me s.roomFileMgr msg with
    | .streaming _ _ m _ => { s with roomFileMgr := m }
    | _ => s
  | .sfuFileRevoke => handleSfuFileRevoke s msg
  | .sfuFileChunk => handleSfuFileChunk P Z env s msg
  | .sfuFileComplete => handleSfuFileComplete P Z env s msg

end Handlers

end ConquerD.Client
