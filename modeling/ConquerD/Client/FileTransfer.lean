import ConquerD.Client.ReceivedFiles
import ConquerD.Lib.Chunks
import ConquerD.Lib.Slice
import ConquerD.Wire.Platform
import Mathlib.Algebra.Order.Ring.Rat

/-!
# Client: file transfers

A file is offered, accepted and sent in chunks. A small one is held in memory on
both sides, compressed or as a delta; a large one is read from its source on
demand and written by the receiver straight to its place in a partial file.
Either side keeps a record of every transfer by its id.
-/

namespace ConquerD.Client

open Std (ExtTreeMap)
open Lib.Chunks Lib.Encoding Lib.Slice Wire

/-- 64 KiB. -/
def chunkSize : Nat := 65536

/-- Largest file carried entirely in memory: 8 MiB. -/
def inlineMax : Nat := 8 * 1024 * 1024

/-- How long a finished transfer lingers, in seconds. -/
def transferRetainSecs : Rat := 300

/-- Chunks emitted in one turn of the pump. -/
def roomFileChunkBudget : Nat := 8

/-- First pause after a turn that reached no transport, in seconds. -/
def stallBackoffBaseSecs : Rat := 1 / 10

/-- Longest pause, in seconds. -/
def stallBackoffMaxSecs : Rat := 5

/-- How long a stream may reach no transport before it is failed, in seconds. -/
def stallGiveUpSecs : Rat := 120

/-- How long an offer stays answerable, in seconds. -/
def offerTtlSecs : Rat := 3600

inductive TransferState where
  | pending
  | transferring
  | verifying
  | complete
  | failed
  | rejected
  | cancelled
  deriving DecidableEq, Repr

/-- A state that is never left. -/
def isTerminal : TransferState → Bool
  | .complete | .failed | .rejected | .cancelled => true
  | .pending | .transferring | .verifying => false

def TransferState.asStr : TransferState → String
  | .pending => "pending"
  | .transferring => "transferring"
  | .verifying => "verifying"
  | .complete => "complete"
  | .failed => "failed"
  | .rejected => "rejected"
  | .cancelled => "cancelled"

/-! ## Messages and events -/

/-- A file message, as the manager hands it over. -/
inductive FileMessage where
  | offer (transferId relPath sha256 : String) (size payloadSize totalChunks : Nat)
      (purpose : String) (compressed isDelta : Bool) (baseSha256 : String)
  | accept (transferId : String)
  | reject (transferId reason : String)
  /-- The addressee is left out of the frame when it is empty. -/
  | chunk (transferId : String) (chunkIndex : Nat) (data toPeer : String)
  | complete (transferId toPeer : String)
  | ack (transferId : String)
  | error (transferId reason : String)
  deriving DecidableEq

/-- The verified content of a transfer. -/
inductive TransferPayload where
  | bytes (data : Bytes)
  | savedAt (path : String) (len : Nat)
  deriving DecidableEq

inductive TransferEvent where
  | offered (transferId peerId relPath : String) (size : Nat) (purpose : String)
  | progress (transferId : String) (progress : Rat)
  | complete (transferId peerId roomId supernodeId purpose : String) (payload : TransferPayload)
      (relPath : String)
  | failed (transferId reason : String)
  | stateChanged (transferId : String) (state : TransferState)
  | sendMessage (peerId : String) (message : FileMessage)
  deriving DecidableEq

/-! ## Outbound transfers -/

/-- Where the bytes that are chunked come from. -/
inductive TransferSource where
  | inline (data : Bytes)
  | filePath (path : String) (len : Nat)
  deriving DecidableEq

namespace TransferSource

def payloadLen : TransferSource → Nat
  | inline data => data.length
  | filePath _ len => len

def isStreaming : TransferSource → Bool
  | inline _ => false
  | filePath .. => true

/-- A chunk; nothing past the end or when the source cannot be read. -/
def readChunk (env : FileEnv) (disk : Disk) (source : TransferSource) (index : Nat) :
    Option Bytes :=
  let offset := index * chunkSize
  let total := source.payloadLen
  if offset ≥ total ∧ ¬ (total = 0 ∧ index = 0) then none
  else
    let want := min chunkSize (total - offset)
    match source with
    | inline data => some ((data.drop offset).take want)
    | filePath path _ =>
      if env.canRead index then
        (disk[path]?.filter fun content => offset + want ≤ content.length).map fun content =>
          (content.drop offset).take want
      else none

end TransferSource

structure OutboundTransfer where
  transferId : String
  peerId : String
  relPath : String
  source : TransferSource
  /-- Of the original content. -/
  sha256 : String
  totalChunks : Nat
  chunksSent : Nat
  state : TransferState
  purpose : String
  compressed : Bool
  isDelta : Bool
  createdAt : Rat
  /-- The member a room file is streamed to; empty before anybody asked. -/
  toPeer : String
  finishedAt : Option Rat
  /-- Turns in a row that reached no transport. -/
  stallCount : Nat
  stalledSince : Option Rat
  retryAfter : Rat
  deriving DecidableEq

/-- A chunk number at which progress is told: about every hundredth, and the
last. -/
def progressIsReportable (sent total : Nat) : Bool :=
  if total = 0 then false
  else if sent ≥ total then true
  else sent % max (total / 100) 1 == 0

section Emit

variable (P : Platform) (env : FileEnv) (disk : Disk)

/-- The frame of a chunk. -/
def OutboundTransfer.chunkEvent (x : OutboundTransfer) (chunk : Bytes) : TransferEvent :=
  .sendMessage x.peerId (.chunk x.transferId x.chunksSent (P.encodeB64Std chunk) x.toPeer)

/-- At most `budget` chunks from where the transfer stands; false when the
source could not be read. -/
def emitChunks : (budget : Nat) → OutboundTransfer → OutboundTransfer × List TransferEvent × Bool
  | 0, x => (x, [], true)
  | budget + 1, x =>
    if x.chunksSent < x.totalChunks then
      match x.source.readChunk env disk x.chunksSent with
      | none =>
        ({ x with state := .failed, finishedAt := some env.now },
          [.failed x.transferId "source file unreadable"], false)
      | some chunk =>
        let next := { x with chunksSent := x.chunksSent + 1 }
        let progress : List TransferEvent :=
          if progressIsReportable next.chunksSent x.totalChunks then
            [.progress x.transferId (next.chunksSent / x.totalChunks)]
          else []
        let (x', evs, read) := emitChunks budget next
        (x', x.chunkEvent P chunk :: progress ++ evs, read)
    else (x, [], true)

/-- The next slice of a stream, with COMPLETE when it is the last. -/
def nextChunkEvents (budget : Nat) (x : OutboundTransfer) :
    OutboundTransfer × List TransferEvent × Bool :=
  match emitChunks P env disk budget x with
  | (x, evs, false) => (x, evs, true)
  | (x, evs, true) =>
    if x.chunksSent ≥ x.totalChunks then
      (x, evs ++ [.sendMessage x.peerId (.complete x.transferId x.toPeer)], true)
    else (x, evs, false)

/-- Everything that is left, at once. -/
def buildChunkEvents (x : OutboundTransfer) : OutboundTransfer × List TransferEvent :=
  let (x, evs, _) := nextChunkEvents P env disk x.totalChunks x
  (x, evs)

end Emit

/-! ## Inbound transfers -/

/-- Where arriving chunks accumulate. -/
inductive TransferSink where
  | memory (chunks : ExtTreeMap Nat Bytes)
  /-- `isOpen` is false once the writer is closed. -/
  | partFile (isOpen : Bool) (path : String) (received : List Bool) (count : Nat)

def TransferSink.receivedCount : TransferSink → Nat
  | memory chunks => chunks.size
  | partFile _ _ _ count => count

structure InboundTransfer where
  transferId : String
  /-- The peer that offered the file. -/
  peerId : String
  /-- Empty when it is no room's. -/
  roomId : String
  supernodeId : String
  relPath : String
  expectedSha256 : String
  expectedSize : Nat
  totalChunks : Nat
  state : TransferState
  purpose : String
  compressed : Bool
  isDelta : Bool
  baseSha256 : String
  createdAt : Rat
  finishedAt : Option Rat
  sink : TransferSink
  /-- COMPLETE came before the last chunk. -/
  completeRequested : Bool

namespace InboundTransfer

def isStreaming (x : InboundTransfer) : Bool :=
  match x.sink with
  | .memory _ => false
  | .partFile .. => true

/-- Stores a chunk, and tells whether it is a new one. -/
def storeChunk (env : FileEnv) (disk : Disk) (x : InboundTransfer) (index : Nat) (data : Bytes) :
    InboundTransfer × Disk × Bool :=
  if index ≥ x.totalChunks then (x, disk, false)
  else
    match x.sink with
    | .memory chunks =>
      if chunks.contains index then (x, disk, false)
      else ({ x with sink := .memory (chunks.insert index data) }, disk, true)
    | .partFile isOpen path received count =>
      if received.getD index true then (x, disk, false)
      else if !isOpen then (x, disk, false)
      else if !env.canWrite then (x, disk, false)
      else
        -- fixed offsets, since what is streamed is never compressed
        ({ x with sink := .partFile isOpen path (received.set index true) (count + 1) },
          disk.alter path fun content? =>
            content?.map fun content => writeAt 0 content (index * chunkSize) data, true)

def chunksReceived (x : InboundTransfer) : Nat :=
  x.sink.receivedCount

def progress (x : InboundTransfer) : Rat :=
  if x.totalChunks = 0 then 0 else x.chunksReceived / x.totalChunks

/-- The chunks in order. -/
def reassemble (x : InboundTransfer) : Bytes :=
  match x.sink with
  | .memory chunks => (List.range x.totalChunks).flatMap fun i => chunks[i]?.getD []
  | .partFile .. => []

end InboundTransfer

/-! ## The manager -/

/-- What an offer says of a file, beside its name. -/
structure OfferMeta where
  transferId : String
  originalSha : String
  originalSize : Nat
  payloadLen : Nat
  purpose : String
  compressed : Bool
  isDelta : Bool
  baseSha256 : String

structure FileTransferManager where
  outbound : ExtTreeMap String OutboundTransfer
  inbound : ExtTreeMap String InboundTransfer
  /-- Old contents by name, for deltas. -/
  oldDataStore : ExtTreeMap String Bytes

/-- A manager, the disk and what happened. -/
abbrev FileOutcome := FileTransferManager × Disk × List TransferEvent

namespace FileTransferManager

def new : FileTransferManager where
  outbound := ∅
  inbound := ∅
  oldDataStore := ∅

variable (P : Platform) (Z : Zlib) (env : FileEnv) (disk : Disk) (m : FileTransferManager)

def setOutbound (transferId : String) (x : OutboundTransfer) : FileTransferManager :=
  { m with outbound := m.outbound.insert transferId x }

def setInbound (transferId : String) (x : InboundTransfer) : FileTransferManager :=
  { m with inbound := m.inbound.insert transferId x }

def setOldFileData (relPath : String) (data : Bytes) : FileTransferManager :=
  { m with oldDataStore := m.oldDataStore.insert relPath data }

def getOldData (relPath : String) : Option Bytes :=
  m.oldDataStore[relPath]?

/-! ### Lifecycle -/

/-- A record is kept while it is young, or finished a short time ago. -/
def keeps (createdAt : Rat) (finishedAt : Option Rat) : Bool :=
  match finishedAt with
  | some t => decide (env.now - t < transferRetainSecs)
  | none => decide (env.now - createdAt < offerTtlSecs)

/-- The time a record finished, noted now if it is finished and has none. -/
def stamped (state : TransferState) (finishedAt : Option Rat) : Option Rat :=
  if finishedAt.isNone && isTerminal state then some env.now else finishedAt

/-- The paths of the partial files of a transfer. -/
def partPaths (x : InboundTransfer) : List String :=
  match x.sink with
  | .memory _ => []
  | .partFile _ path _ _ => [path]

/-- Drops finished transfers and stale ones, and the partial files of the
latter. -/
def gc : FileTransferManager × Disk :=
  let outbound := m.outbound.map fun _ x =>
    { x with finishedAt := stamped env x.state x.finishedAt }
  let inbound := m.inbound.map fun _ x =>
    { x with finishedAt := stamped env x.state x.finishedAt }
  let dropped := (inbound.filter fun _ x => !keeps env x.createdAt x.finishedAt).toList
  ({ m with
      outbound := outbound.filter fun _ x => keeps env x.createdAt x.finishedAt
      inbound := inbound.filter fun _ x => keeps env x.createdAt x.finishedAt },
    (dropped.flatMap fun p => partPaths p.2).foldl (fun disk path => disk.erase path) disk)

/-! ### Streaming on demand -/

/-- A member asked for a file: its stream starts, from the top. -/
def startStreamFor (transferId requester : String) (budget : Nat) :
    FileTransferManager × List TransferEvent :=
  match m.outbound[transferId]? with
  | none => (m, [])
  | some x =>
    let (x, evs, _) := nextChunkEvents P env disk budget
      { x with chunksSent := 0, toPeer := requester, state := .transferring, finishedAt := none }
    (m.setOutbound transferId x, evs)

/-- The next slice of a stream, and whether there is nothing more to pump. -/
def pumpStream (transferId : String) (budget : Nat) :
    FileTransferManager × List TransferEvent × Bool :=
  match m.outbound[transferId]? with
  | none => (m, [], true)
  | some x =>
    if x.state ≠ .transferring then (m, [], true)
    else
      let (x, evs, done) := nextChunkEvents P env disk budget x
      (m.setOutbound transferId x, evs, done)

/-- Where an inbound offer came from: its originator, room and supernode. -/
def inboundRoute (transferId : String) : Option (String × String × String) :=
  m.inbound[transferId]?.map fun x => (x.peerId, x.roomId, x.supernodeId)

def outboundRoute (transferId : String) : Option (String × String) :=
  m.outbound[transferId]?.map fun x => (x.peerId, "")

def revokeOutbound (transferId : String) : FileTransferManager × Bool :=
  ({ m with outbound := m.outbound.erase transferId }, m.outbound.contains transferId)

def hasOutbound (transferId : String) : Bool :=
  m.outbound.contains transferId

def hasInbound (transferId : String) : Bool :=
  m.inbound.contains transferId

/-- Drops an inbound offer and its partial file. -/
def discardInbound (transferId : String) : FileTransferManager × Disk :=
  ({ m with inbound := m.inbound.erase transferId },
    ((m.inbound[transferId]?.map partPaths).getD []).foldl (fun disk path => disk.erase path) disk)

/-- The transfers the pump may touch now. -/
def activeOutboundStreams : List String :=
  (m.outbound.toList.filter fun p =>
    p.2.state == .transferring && decide (p.2.retryAfter ≤ env.now)).map Prod.fst

/-- A turn reached no transport: the stream pauses, or is given up. -/
def noteSendStalled (transferId : String) : FileTransferManager × Option String :=
  match m.outbound[transferId]? with
  | none => (m, none)
  | some x =>
    let since := x.stalledSince.getD env.now
    let stallCount := min (x.stallCount + 1) (2 ^ 32 - 1)
    let x := { x with stalledSince := some since, stallCount := stallCount }
    if env.now - since ≥ stallGiveUpSecs then
      (m.setOutbound transferId { x with state := .failed, finishedAt := some env.now },
        some "no transport available to send on")
    else
      let steps := min stallCount 16 - 1
      let backoff := min (stallBackoffBaseSecs * 2 ^ steps) stallBackoffMaxSecs
      (m.setOutbound transferId { x with retryAfter := env.now + backoff }, none)

/-- A frame went out: the stream resumes its pace. -/
def noteSendProgress (transferId : String) : FileTransferManager :=
  match m.outbound[transferId]? with
  | none => m
  | some x =>
    m.setOutbound transferId { x with stallCount := 0, stalledSince := none, retryAfter := 0 }

/-- Takes back chunks that were counted and not sent. -/
def unsendChunks (transferId : String) (n : Nat) : FileTransferManager :=
  match m.outbound[transferId]? with
  | none => m
  | some x =>
    let x := { x with chunksSent := x.chunksSent - n }
    m.setOutbound transferId
      (if x.state = .complete then { x with state := .transferring, finishedAt := none } else x)

/-- COMPLETE was handed to a transport. -/
def markOutboundComplete (transferId : String) : FileTransferManager :=
  match m.outbound[transferId]? with
  | none => m
  | some x =>
    m.setOutbound transferId { x with state := .complete, finishedAt := some env.now }

/-! ### Offers -/

/-- Records an outbound transfer and makes its offer. -/
def insertOffer (peerId relPath : String) (source : TransferSource) (info : OfferMeta)
    (autoPush : Bool) : FileTransferManager × String × List TransferEvent :=
  let totalChunks := chunkCount chunkSize info.payloadLen
  let x : OutboundTransfer :=
    { transferId := info.transferId
      peerId := peerId
      relPath := relPath
      source := source
      sha256 := info.originalSha
      totalChunks := totalChunks
      chunksSent := 0
      state := .pending
      purpose := info.purpose
      compressed := info.compressed
      isDelta := info.isDelta
      createdAt := env.now
      toPeer := ""
      finishedAt := none
      stallCount := 0
      stalledSince := none
      retryAfter := 0 }
  let offer : TransferEvent := .sendMessage peerId
    (.offer info.transferId relPath info.originalSha info.originalSize info.payloadLen totalChunks
      info.purpose info.compressed info.isDelta info.baseSha256)
  if autoPush then
    let pushed := buildChunkEvents P env disk { x with state := .transferring }
    (m.setOutbound info.transferId pushed.1, info.transferId, offer :: pushed.2)
  else (m.setOutbound info.transferId x, info.transferId, [offer])

/-- The id of a new transfer: the caller's, or a random one. -/
def newTransferId (transferId : Option String) : String :=
  transferId.getD (String.ofList (env.uuid.toList.take 16))

/-- The payload for some content: a delta against the old content where it pays,
else the content, compressed where it pays. With it whether it is compressed,
whether it is a delta, and what it is a delta against. -/
def payloadFor (data : Bytes) (oldData : Option Bytes) : Bytes × Bool × Bool × String :=
  match oldData with
  | some old =>
    match createDelta Z old data with
    | some delta => (delta, false, true, P.sha256Hex old)
    | none => ((compressData Z data).1, (compressData Z data).2, false, "")
  | none => ((compressData Z data).1, (compressData Z data).2, false, "")

/-- Offers content that is held in memory. -/
def offerFileWithId (peerId relPath : String) (data : Bytes) (purpose : String)
    (oldData : Option Bytes) (autoPush : Bool) (transferId : Option String) :
    Except String (FileTransferManager × String × List TransferEvent) :=
  if data.length > inlineMax then
    .error ("File too large for the in-memory path (" ++ toString data.length ++ " bytes, max " ++
      toString inlineMax ++ "); use offer_file_from_path")
  else
    let (payload, compressed, isDelta, baseSha256) := payloadFor P Z data oldData
    .ok (m.insertOffer P env disk peerId relPath (.inline payload)
      { transferId := newTransferId env transferId
        originalSha := P.sha256Hex data
        originalSize := data.length
        payloadLen := payload.length
        purpose := purpose
        compressed := compressed
        isDelta := isDelta
        baseSha256 := baseSha256 } autoPush)

def offerFile (peerId relPath : String) (data : Bytes) (purpose : String) (oldData : Option Bytes)
    (autoPush : Bool) : Except String (FileTransferManager × String × List TransferEvent) :=
  m.offerFileWithId P Z env disk peerId relPath data purpose oldData autoPush none

/-- Offers a file on disk, which is sent as it is. -/
def offerFileFromPathWithId (peerId relPath path purpose : String) (autoPush : Bool)
    (transferId : Option String) :
    Except String (FileTransferManager × String × List TransferEvent) :=
  match disk[path]? with
  | none => .error ("Cannot stat " ++ path ++ ": " ++ env.ioError)
  | some content =>
    if content.length > maxTransferSize then
      .error ("File too large (" ++ toString content.length ++ " bytes, max " ++
        toString maxTransferSize ++ ")")
    else
      .ok (m.insertOffer P env disk peerId relPath (.filePath path content.length)
        { transferId := newTransferId env transferId
          originalSha := P.sha256Hex content
          originalSize := content.length
          payloadLen := content.length
          purpose := purpose
          compressed := false
          isDelta := false
          baseSha256 := "" } autoPush)

def offerFileFromPath (peerId relPath path purpose : String) (autoPush : Bool) :
    Except String (FileTransferManager × String × List TransferEvent) :=
  m.offerFileFromPathWithId P env disk peerId relPath path purpose autoPush none

/-! ### The sender hears from the peer -/

/-- The peer accepted: chunks are sent, all at once or the first slice. -/
def onTransferAccepted (transferId : String) : FileTransferManager × List TransferEvent :=
  match m.outbound[transferId]? with
  | none => (m, [])
  | some x =>
    if x.state ≠ .pending then (m, [])
    else
      let x := { x with state := .transferring }
      let (x, evs) :=
        if x.source.isStreaming then
          let (x, evs, _) := nextChunkEvents P env disk roomFileChunkBudget x
          (x, evs)
        else buildChunkEvents P env disk x
      (m.setOutbound transferId x, .stateChanged transferId .transferring :: evs)

def onTransferRejected (transferId : String) : FileTransferManager × List TransferEvent :=
  match m.outbound[transferId]? with
  | none => (m, [])
  | some x =>
    (m.setOutbound transferId { x with state := .rejected },
      [.failed transferId "rejected by peer", .stateChanged transferId .rejected])

/-- What the sender shows of a file it sent. -/
def ackPayload : TransferSource → TransferPayload
  | .filePath path len => .savedAt path len
  | .inline data => .savedAt "" data.length

def onTransferAck (transferId : String) : FileTransferManager × List TransferEvent :=
  match m.outbound[transferId]? with
  | none => (m, [])
  | some x =>
    (m.setOutbound transferId { x with state := .complete, finishedAt := some env.now },
      [.complete transferId x.peerId "" "" x.purpose (ackPayload x.source) x.relPath,
        .stateChanged transferId .complete])

def onTransferError (transferId reason : String) : FileTransferManager × List TransferEvent :=
  match m.outbound[transferId]? with
  | none => (m, [])
  | some x =>
    (m.setOutbound transferId { x with state := .failed },
      [.failed transferId reason, .stateChanged transferId .failed])

/-! ### The receiver hears from the sender -/

/-- An offer as it arrives. -/
structure OfferFields where
  transferId : String
  relPath : String
  sha256 : String
  size : Nat
  totalChunks : Nat
  purpose : String
  compressed : Bool
  isDelta : Bool
  baseSha256 : String
  deriving DecidableEq

/-- The record of an offer. -/
def newInbound (peerId roomId supernodeId : String) (o : OfferFields) (sink : TransferSink) :
    InboundTransfer where
  transferId := o.transferId
  peerId := peerId
  roomId := roomId
  supernodeId := supernodeId
  relPath := o.relPath
  expectedSha256 := o.sha256
  expectedSize := o.size
  totalChunks := o.totalChunks
  state := if o.purpose = "update" then .transferring else .pending
  purpose := o.purpose
  compressed := o.compressed
  isDelta := o.isDelta
  baseSha256 := o.baseSha256
  createdAt := env.now
  finishedAt := none
  sink := sink
  completeRequested := false

/-- Where the chunks of an offer go, or why it is rejected. -/
def offerSink (o : OfferFields) : Except String (Disk × TransferSink) :=
  if o.size > maxTransferSize then .error "file_too_large"
  else if o.totalChunks = 0 ∨ o.totalChunks > chunkCount chunkSize o.size + 1 then
    .error "invalid_chunk_count"
  else if o.size > inlineMax ∧ !o.compressed ∧ !o.isDelta then
    match openPartFile env disk o.relPath o.transferId with
    | .ok (disk, path) => .ok (disk, .partFile true path (List.replicate o.totalChunks false) 0)
    | .error _ => .error "storage_unavailable"
  else if o.size > inlineMax then .error "file_too_large"
  else .ok (disk, .memory ∅)

def onOfferReceivedWithRoom (peerId roomId supernodeId : String) (o : OfferFields) : FileOutcome :=
  match offerSink env disk o with
  | .error reason => (m, disk, [.sendMessage peerId (.reject o.transferId reason)])
  | .ok (disk, sink) =>
    let offered : TransferEvent := .offered o.transferId peerId o.relPath o.size o.purpose
    let accept : List TransferEvent :=
      if o.purpose = "update" then [.sendMessage peerId (.accept o.transferId)] else []
    (m.setInbound o.transferId (newInbound env peerId roomId supernodeId o sink), disk,
      offered :: accept)

def onOfferReceived (peerId : String) (o : OfferFields) : FileOutcome :=
  m.onOfferReceivedWithRoom env disk peerId "" "" o

def acceptTransfer (transferId : String) : FileTransferManager × List TransferEvent :=
  match m.inbound[transferId]? with
  | none => (m, [])
  | some x =>
    if x.state ≠ .pending then (m, [])
    else
      (m.setInbound transferId { x with state := .transferring },
        [.stateChanged transferId .transferring, .sendMessage x.peerId (.accept transferId)])

/-- Accepting a room's file tells the sender nothing yet. -/
def acceptTransferLocally (transferId : String) : FileTransferManager × List TransferEvent :=
  match m.inbound[transferId]? with
  | none => (m, [])
  | some x =>
    if x.state ≠ .pending then (m, [])
    else
      (m.setInbound transferId { x with state := .transferring },
        [.stateChanged transferId .transferring])

def rejectTransfer (transferId reason : String) : FileTransferManager × List TransferEvent :=
  match m.inbound[transferId]? with
  | none => (m, [])
  | some x =>
    (m.setInbound transferId { x with state := .rejected },
      [.stateChanged transferId .rejected, .sendMessage x.peerId (.reject transferId reason)])

def cancelOutbound (transferId : String) : FileTransferManager × List TransferEvent :=
  match m.outbound[transferId]? with
  | none => (m, [])
  | some x =>
    if x.state = .pending ∨ x.state = .transferring then
      (m.setOutbound transferId { x with state := .cancelled },
        [.failed transferId "cancelled", .stateChanged transferId .cancelled])
    else (m, [])

def cancelTransfer (transferId : String) : FileTransferManager × List TransferEvent :=
  match m.inbound[transferId]? with
  | none => m.cancelOutbound transferId
  | some x =>
    match x.state with
    | .pending => m.rejectTransfer transferId "cancelled"
    | .transferring =>
      (m.setInbound transferId { x with state := .cancelled },
        [.failed transferId "cancelled", .stateChanged transferId .cancelled,
          .sendMessage x.peerId (.error transferId "cancelled")])
    | _ => m.cancelOutbound transferId

/-! ### Chunks and COMPLETE -/

/-- The record of a failed transfer. -/
def failedInbound (x : InboundTransfer) : InboundTransfer :=
  { x with
    state := .failed
    finishedAt := some env.now
    sink :=
      match x.sink with
      | .memory chunks => .memory chunks
      | .partFile _ path received count => .partFile false path received count }

def failInbound (transferId reason : String) : FileOutcome :=
  match m.inbound[transferId]? with
  | none => (m, disk, [])
  | some x =>
    (m.setInbound transferId (failedInbound env x),
      (partPaths x).foldl (fun disk path => disk.erase path) disk,
      [.failed transferId reason, .stateChanged transferId .failed,
        .sendMessage x.peerId (.error transferId reason)])

/-- The first 16 bytes of a hash, as a message shows them. -/
def shortHash (hash : String) : String :=
  String.ofList (takeBytes 16 hash.toList)

/-- The content assembled from a payload, or why it is none. -/
def assemble (x : InboundTransfer) (payload : Bytes) : Except String Bytes := do
  let payload ← if x.compressed then
      match zlibDecompress Z payload with
      | .ok d => .ok d
      | .error e => .error ("decompression failed: " ++ e)
    else .ok payload
  let payload ← if x.isDelta then
      match m.oldDataStore[x.relPath]? with
      | none => .error ("delta requires old file data for " ++ x.relPath)
      | some old =>
        match applyDelta Z old payload with
        | .ok d => .ok d
        | .error e => .error ("delta apply failed: " ++ e)
    else .ok payload
  if payload.length ≠ x.expectedSize then
    .error ("size mismatch: " ++ toString payload.length ++ " vs " ++ toString x.expectedSize)
  else if P.sha256Hex payload ≠ x.expectedSha256 then
    .error ("hash mismatch: " ++ shortHash (P.sha256Hex payload) ++ "… vs " ++
      shortHash x.expectedSha256 ++ "…")
  else .ok payload

/-- What a transfer that is complete and verified tells. -/
def completeEvents (transferId : String) (x : InboundTransfer) (payload : TransferPayload) :
    List TransferEvent :=
  [.sendMessage x.peerId (.ack transferId),
    .complete transferId x.peerId x.roomId x.supernodeId x.purpose payload x.relPath,
    .stateChanged transferId .complete]

/-- The disk with the partial file cut to length and checked, or why not. -/
def verifyPart (path : String) (x : InboundTransfer) : Except String Disk :=
  if !env.canFinalize then .error ("finalize failed: " ++ env.ioError)
  else
    match disk[path]? with
    | none => .error ("cannot stat received file: " ++ env.ioError)
    | some content =>
      let content := setLen 0 content x.expectedSize
      if !env.canReadBack then .error ("Read failed on " ++ path ++ ": " ++ env.ioError)
      else if P.sha256Hex content ≠ x.expectedSha256 then
        .error ("hash mismatch: " ++ shortHash (P.sha256Hex content) ++ "… vs " ++
          shortHash x.expectedSha256 ++ "…")
      else .ok (disk.insert path content)

/-- All chunks of a large file are in place. -/
def finishStreaming (transferId : String) : FileOutcome :=
  match m.inbound[transferId]? with
  | none => (m, disk, [])
  | some x =>
    match x.sink with
    | .memory _ => (m, disk, [])
    | .partFile isOpen path received count =>
      if !isOpen then (m, disk, [])
      else
        let x := { x with sink := .partFile false path received count }
        let m := m.setInbound transferId x
        match verifyPart P env disk path x with
        | .error reason => m.failInbound env disk transferId reason
        | .ok disk =>
          match promotePartFile env disk path x.relPath with
          | .error e => m.failInbound env disk transferId ("could not save received file: " ++ e)
          | .ok (disk, finalPath) =>
            (m.setInbound transferId { x with state := .complete, finishedAt := some env.now },
              disk, completeEvents transferId x (.savedAt finalPath x.expectedSize))

/-- All chunks are in: the content is verified and handed over. -/
def finishInbound (transferId : String) : FileOutcome :=
  match m.inbound[transferId]? with
  | none => (m, disk, [])
  | some x =>
    if x.state ≠ .transferring ∨ x.chunksReceived ≠ x.totalChunks then (m, disk, [])
    else if x.isStreaming then m.finishStreaming P env disk transferId
    else
      let m := m.setInbound transferId { x with state := .verifying }
      match m.assemble P Z x x.reassemble with
      | .error reason => m.failInbound env disk transferId reason
      | .ok assembled =>
        (m.setInbound transferId { x with state := .complete, finishedAt := some env.now }, disk,
          completeEvents transferId x (.bytes assembled))

/-- A decoded chunk arrives. -/
def onChunkBytesReceived (transferId : String) (chunkIndex : Nat) (chunk : Bytes) : FileOutcome :=
  match m.inbound[transferId]? with
  | none => (m, disk, [])
  | some x =>
    if x.state ≠ .transferring then (m, disk, [])
    else if chunkIndex ≥ x.totalChunks then
      m.failInbound env disk transferId
        ("chunk_index " ++ toString chunkIndex ++ " out of range")
    else
      match x.storeChunk env disk chunkIndex chunk with
      | (_, disk, false) => (m, disk, [])
      | (x, disk, true) =>
        let m := m.setInbound transferId x
        if x.completeRequested && x.chunksReceived == x.totalChunks then
          m.finishInbound P Z env disk transferId
        else if progressIsReportable x.chunksReceived x.totalChunks then
          (m, disk, [.progress transferId x.progress])
        else (m, disk, [])

def onChunkReceived (transferId : String) (chunkIndex : Nat) (dataB64 : String) : FileOutcome :=
  match P.decodeB64Std dataB64 with
  | some chunk => m.onChunkBytesReceived P Z env disk transferId chunkIndex chunk
  | none => m.failInbound env disk transferId "invalid base64 chunk"

/-- COMPLETE arrives; it waits for chunks that are still missing. -/
def onCompleteReceived (transferId : String) : FileOutcome :=
  match m.inbound[transferId]? with
  | none => (m, disk, [])
  | some x =>
    if x.state ≠ .transferring then (m, disk, [])
    else if x.chunksReceived ≠ x.totalChunks then
      (m.setInbound transferId { x with completeRequested := true }, disk, [])
    else m.finishInbound P Z env disk transferId

end FileTransferManager

end ConquerD.Client
