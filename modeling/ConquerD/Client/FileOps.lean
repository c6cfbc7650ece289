import ConquerD.Client.FileTransfer

/-!
# Client: the calls of a file manager

Everything that is asked of a file manager, by peers, by the user, by the pump
and by the dispatch of frames, is one of the calls below. A log follows a
manager through any list of them, and notes beside it what its transfers owe:
which were accepted, of which an end was told, and which must send nothing more.
-/

namespace ConquerD.Client

open Lib.Encoding Wire

inductive FileOp where
  | setOldFileData (relPath : String) (data : Bytes)
  | gc
  | startStreamFor (transferId requester : String) (budget : Nat)
  | pumpStream (transferId : String) (budget : Nat)
  | revokeOutbound (transferId : String)
  | discardInbound (transferId : String)
  | noteSendStalled (transferId : String)
  | noteSendProgress (transferId : String)
  | unsendChunks (transferId : String) (n : Nat)
  | markOutboundComplete (transferId : String)
  | offerFile (peerId relPath : String) (data : Bytes) (purpose : String)
      (oldData : Option Bytes) (autoPush : Bool) (transferId : Option String)
  | offerFileFromPath (peerId relPath path purpose : String) (autoPush : Bool)
      (transferId : Option String)
  | onTransferAccepted (transferId : String)
  | onTransferRejected (transferId : String)
  | onTransferAck (transferId : String)
  | onTransferError (transferId reason : String)
  | onOfferReceived (peerId roomId supernodeId : String) (o : FileTransferManager.OfferFields)
  | acceptTransfer (transferId : String)
  | acceptTransferLocally (transferId : String)
  | rejectTransfer (transferId reason : String)
  | cancelTransfer (transferId : String)
  | onChunkReceived (transferId : String) (chunkIndex : Nat) (dataB64 : String)
  | onChunkBytesReceived (transferId : String) (chunkIndex : Nat) (chunk : Bytes)
  | onCompleteReceived (transferId : String)
  /-- Somebody else changes the disk. -/
  | touchDisk (disk : Disk)

namespace FileOp

variable (P : Platform) (Z : Zlib) (env : FileEnv) (disk : Disk) (m : FileTransferManager)

/-- What an offer of ours leaves; a refused one changes nothing. -/
def offered (r : Except String (FileTransferManager × String × List TransferEvent)) :
    FileOutcome :=
  match r with
  | .ok made => (made.1, disk, made.2.2)
  | .error _ => (m, disk, [])

/-- The call, as the manager answers it. -/
def apply : FileOp → FileOutcome
  | setOldFileData relPath data => (m.setOldFileData relPath data, disk, [])
  | gc => ((m.gc env disk).1, (m.gc env disk).2, [])
  | startStreamFor t requester budget =>
    ((m.startStreamFor P env disk t requester budget).1, disk,
      (m.startStreamFor P env disk t requester budget).2)
  | pumpStream t budget =>
    ((m.pumpStream P env disk t budget).1, disk, (m.pumpStream P env disk t budget).2.1)
  | revokeOutbound t => ((m.revokeOutbound t).1, disk, [])
  | discardInbound t => ((m.discardInbound disk t).1, (m.discardInbound disk t).2, [])
  | noteSendStalled t => ((m.noteSendStalled env t).1, disk, [])
  | noteSendProgress t => (m.noteSendProgress t, disk, [])
  | unsendChunks t n => (m.unsendChunks t n, disk, [])
  | markOutboundComplete t => (m.markOutboundComplete env t, disk, [])
  | offerFile peerId relPath data purpose oldData autoPush t =>
    offered disk m (m.offerFileWithId P Z env disk peerId relPath data purpose oldData autoPush t)
  | offerFileFromPath peerId relPath path purpose autoPush t =>
    offered disk m (m.offerFileFromPathWithId P env disk peerId relPath path purpose autoPush t)
  | onTransferAccepted t =>
    ((m.onTransferAccepted P env disk t).1, disk, (m.onTransferAccepted P env disk t).2)
  | onTransferRejected t => ((m.onTransferRejected t).1, disk, (m.onTransferRejected t).2)
  | onTransferAck t => ((m.onTransferAck env t).1, disk, (m.onTransferAck env t).2)
  | onTransferError t reason =>
    ((m.onTransferError t reason).1, disk, (m.onTransferError t reason).2)
  | onOfferReceived peerId roomId supernodeId o =>
    m.onOfferReceivedWithRoom env disk peerId roomId supernodeId o
  | acceptTransfer t => ((m.acceptTransfer t).1, disk, (m.acceptTransfer t).2)
  | acceptTransferLocally t =>
    ((m.acceptTransferLocally t).1, disk, (m.acceptTransferLocally t).2)
  | rejectTransfer t reason => ((m.rejectTransfer t reason).1, disk, (m.rejectTransfer t reason).2)
  | cancelTransfer t => ((m.cancelTransfer t).1, disk, (m.cancelTransfer t).2)
  | onChunkReceived t i data => m.onChunkReceived P Z env disk t i data
  | onChunkBytesReceived t i chunk => m.onChunkBytesReceived P Z env disk t i chunk
  | onCompleteReceived t => m.onCompleteReceived P Z env disk t
  | touchDisk disk => (m, disk, [])

/-- The transfer a call offers to others. -/
def offers : FileOp → Option String
  | offerFile _ _ data _ _ _ t =>
    if data.length > inlineMax then none else some (FileTransferManager.newTransferId env t)
  | offerFileFromPath _ _ path _ _ t =>
    match disk[path]? with
    | none => none
    | some content =>
      if content.length > maxTransferSize then none
      else some (FileTransferManager.newTransferId env t)
  | _ => none

/-- The inbound transfer a call puts in. -/
def admits : FileOp → Option String
  | onOfferReceived _ _ _ o =>
    match FileTransferManager.offerSink env disk o with
    | .ok _ => some o.transferId
    | .error _ => none
  | _ => none

/-- The transfer the user accepts. -/
def accepts : FileOp → Option String
  | acceptTransfer t | acceptTransferLocally t => some t
  | _ => none

/-- The outbound transfer a call ends for good: it is cancelled, rejected or
revoked. -/
def stops : FileOp → Option String
  | revokeOutbound t => if m.outbound.contains t then some t else none
  | onTransferRejected t => if m.outbound.contains t then some t else none
  | cancelTransfer t =>
    if ((m.cancelTransfer t).1.outbound[t]?.map OutboundTransfer.state) = some .cancelled then some t
    else none
  | _ => none

/-- The call acts on an inbound transfer, so that an end it tells is the end of
that. -/
def endsInbound : FileOp → Bool
  | onChunkReceived .. | onChunkBytesReceived .. | onCompleteReceived .. => true
  | cancelTransfer t => (m.inbound[t]?.map InboundTransfer.state) == some .transferring
  | _ => false

end FileOp

/-- The transfers whose end is told. -/
def endsTold (evs : List TransferEvent) : List String :=
  evs.filterMap fun
    | .complete transferId .. => some transferId
    | .failed transferId _ => some transferId
    | _ => none

def fileDataSent (evs : List TransferEvent) : List String :=
  evs.filterMap fun
    | .sendMessage _ (.chunk transferId ..) => some transferId
    | .sendMessage _ (.complete transferId _) => some transferId
    | _ => none

/-- A manager and its disk, with what its transfers owe. -/
structure FileLog where
  manager : FileTransferManager
  disk : Disk
  /-- Inbound transfers the user accepted since they were offered. -/
  accepted : List String
  /-- Inbound transfers whose end was told since they were offered. -/
  ended : List String
  /-- Outbound transfers cancelled, rejected or revoked since they were
  offered. -/
  stopped : List String
  /-- File data sent of such transfers. -/
  strays : List String

namespace FileLog

def start (disk : Disk) : FileLog := ⟨.new, disk, [], [], [], []⟩

/-- The names but one. -/
def forget (t : Option String) (names : List String) : List String :=
  names.filter fun name => t ≠ some name

def step (P : Platform) (Z : Zlib) (L : FileLog) (s : FileEnv × FileOp) : FileLog :=
  let out := s.2.apply P Z s.1 L.disk L.manager
  let accepted := forget (s.2.admits s.1 L.disk) L.accepted
  let ended := forget (s.2.admits s.1 L.disk) L.ended
  let stopped := forget (s.2.offers s.1 L.disk) L.stopped
  { manager := out.1
    disk := out.2.1
    accepted := (s.2.accepts).toList ++ accepted
    ended := (if s.2.endsInbound L.manager then endsTold out.2.2 else []) ++ ended
    stopped := (s.2.stops L.manager).toList ++ stopped
    strays := L.strays ++ (fileDataSent out.2.2).filter (· ∈ stopped) }

end FileLog

/-!
## Client: file transfers that may panic

The calls of a file manager once more, with the slices, indices, capacities and sums
of machine words that depend on what peers send checked where the program computes
them: nothing is left when one is out of bounds, since the program panics there. Our
own deltas are made and texts compressed as before.
-/

open Lib.Chunks Lib.Slice

/-! ### Deltas -/

/-- Four bytes of a stream as a number. -/
def readU32 (raw : Bytes) (off : Nat) : Option Nat := do
  let stop ← addUsize off 4
  let word ← slice? raw off stop
  return fromBeBytes word

/-- Runs the opcodes from an offset of the stream on. -/
def applyOpcodesChecked (old raw : Bytes) :
    (turns off : Nat) → (out : Bytes) → Option (Except String Bytes)
  | 0, _, out => some (.ok out)
  | turns + 1, off, out =>
    if off < raw.length then do
      let tag ← raw[off]?
      let off ← addUsize off 1
      if tag = 0 then do
        let stop ← addUsize off 8
        if stop > raw.length then some (.error "truncated COPY")
        else do
          let src ← readU32 raw off
          let len ← readU32 raw (off + 4)
          if src + len > old.length then some (.error "COPY out of range")
          else if out.length + len > maxTransferSize then
            some (.error "delta output exceeds MAX_TRANSFER_SIZE")
          else do
            let seg ← slice? old src (src + len)
            applyOpcodesChecked old raw turns stop (out ++ seg)
      else if tag = 1 then do
        let body ← addUsize off 4
        if body > raw.length then some (.error "truncated INSERT")
        else do
          let len ← readU32 raw off
          let stop ← addUsize body len
          if stop > raw.length then some (.error "INSERT past end")
          else if out.length + len > maxTransferSize then
            some (.error "delta output exceeds MAX_TRANSFER_SIZE")
          else do
            let seg ← slice? raw body stop
            applyOpcodesChecked old raw turns stop (out ++ seg)
      else some (.error s!"Unknown opcode: {tag}")
    else some (.ok out)

def applyDeltaChecked (Z : Zlib) (old delta : Bytes) : Option (Except String Bytes) :=
  if delta.length < deltaMagic.length then some (.error "Invalid delta magic")
  else do
    let magic ← slice? delta 0 4
    if magic ≠ deltaMagic then some (.error "Invalid delta magic")
    else do
      let body ← slice? delta 4 delta.length
      match zlibDecompress Z body with
      | .error e => some (.error e)
      | .ok raw =>
        if raw.isEmpty then some (.error "Empty delta opcode stream")
        else applyOpcodesChecked old raw raw.length 0 []

/-! ### Sources and chunks -/

section Outbound

variable (P : Platform) (env : FileEnv) (disk : Disk)

def TransferSource.readAtChecked (source : TransferSource) (index offset : Nat) :
    Option (Option Bytes) :=
  let total := source.payloadLen
  if offset ≥ total ∧ ¬ (total = 0 ∧ index = 0) then some none
  else do
    let left ← subUsize total offset
    let want := min chunkSize left
    match source with
    | inline data => do
      let stop ← addUsize offset want
      let chunk ← slice? data offset stop
      return some chunk
    | filePath path _ =>
      some (if env.canRead index then
        (disk[path]?.filter fun content => offset + want ≤ content.length).map fun content =>
          (content.drop offset).take want
      else none)

/-- A chunk of a source; an index whose offset is no machine word has none. -/
def TransferSource.readChunkChecked (source : TransferSource) (index : Nat) :
    Option (Option Bytes) :=
  (mulUsize index chunkSize).elim (some none) fun offset =>
    source.readAtChecked env disk index offset

def emitChunksChecked :
    (budget : Nat) → OutboundTransfer → Option (OutboundTransfer × List TransferEvent × Bool)
  | 0, x => some (x, [], true)
  | budget + 1, x =>
    if x.chunksSent < x.totalChunks then do
      match ← x.source.readChunkChecked env disk x.chunksSent with
      | none =>
        return ({ x with state := .failed, finishedAt := some env.now },
          [.failed x.transferId "source file unreadable"], false)
      | some chunk =>
        let sent ← addUsize x.chunksSent 1
        let next := { x with chunksSent := sent }
        let progress : List TransferEvent :=
          if progressIsReportable next.chunksSent x.totalChunks then
            [.progress x.transferId (next.chunksSent / x.totalChunks)]
          else []
        let (x', evs, read) ← emitChunksChecked budget next
        return (x', x.chunkEvent P chunk :: progress ++ evs, read)
    else some (x, [], true)

/-- More bytes than an event takes. -/
def eventBytes : Nat := 256

/-- The next slice of a stream; room for its events is asked for first. -/
def nextChunkEventsChecked (budget : Nat) (x : OutboundTransfer) :
    Option (OutboundTransfer × List TransferEvent × Bool) := do
  let room ← mulUsize budget 2
  let room ← addUsize room 1
  let bytes ← mulUsize room eventBytes
  let _ ← withCapacity bytes
  match ← emitChunksChecked P env disk budget x with
  | (x, evs, false) => return (x, evs, true)
  | (x, evs, true) =>
    if x.chunksSent ≥ x.totalChunks then
      return (x, evs ++ [.sendMessage x.peerId (.complete x.transferId x.toPeer)], true)
    else return (x, evs, false)

end Outbound

/-! ### What arrives -/

section Inbound

variable (P : Platform) (Z : Zlib) (env : FileEnv) (disk : Disk) (m : FileTransferManager)

/-- Stores a chunk at its offset. -/
def InboundTransfer.storeChunkChecked (x : InboundTransfer) (index : Nat) (data : Bytes) :
    Option (InboundTransfer × Disk × Bool) :=
  if index ≥ x.totalChunks then some (x, disk, false)
  else
    match x.sink with
    | .memory chunks =>
      if chunks.contains index then some (x, disk, false)
      else some ({ x with sink := .memory (chunks.insert index data) }, disk, true)
    | .partFile isOpen path received count =>
      if received.getD index true then some (x, disk, false)
      else if !isOpen then some (x, disk, false)
      else do
        let offset ← mulUsize index chunkSize
        if !env.canWrite then some (x, disk, false)
        else do
          let _ ← received[index]?
          let count ← addUsize count 1
          return ({ x with sink := .partFile isOpen path (received.set index true) count },
            disk.alter path fun content? =>
              content?.map fun content => writeAt 0 content offset data, true)

/-- A payload decompressed if it needs to be. -/
def decompressed (x : InboundTransfer) (payload : Bytes) : Except String Bytes :=
  if x.compressed then
    match zlibDecompress Z payload with
    | .ok d => .ok d
    | .error e => .error ("decompression failed: " ++ e)
  else .ok payload

def unpackChecked (x : InboundTransfer) (payload : Bytes) : Option (Except String Bytes) :=
  match decompressed Z x payload with
  | .error e => some (.error e)
  | .ok payload =>
    if x.isDelta then
      match m.oldDataStore[x.relPath]? with
      | none => some (.error ("delta requires old file data for " ++ x.relPath))
      | some old => do
        match ← applyDeltaChecked Z old payload with
        | .ok d => return .ok d
        | .error e => return .error ("delta apply failed: " ++ e)
    else some (.ok payload)

/-- The text for two hashes that differ, each cut by the given cut. -/
def hashMismatch (cut : String → Option String) (actual expected : String) : Option String := do
  let a ← cut actual
  let e ← cut expected
  return "hash mismatch: " ++ a ++ "… vs " ++ e ++ "…"

/-- The content assembled in memory; a text that is shown is cut at its sixteenth
byte. -/
def assembleChecked (x : InboundTransfer) (payload : Bytes) : Option (Except String Bytes) := do
  match ← unpackChecked Z m x payload with
  | .error e => return .error e
  | .ok content =>
    if content.length ≠ x.expectedSize then
      return .error
        ("size mismatch: " ++ toString content.length ++ " vs " ++ toString x.expectedSize)
    else if P.sha256Hex content ≠ x.expectedSha256 then
      let reason ← hashMismatch (sliceTo? · 16) (P.sha256Hex content) x.expectedSha256
      return .error reason
    else return .ok content

/-- The partial file checked; here a short text is shown whole. -/
def verifyPartChecked (path : String) (x : InboundTransfer) : Option (Except String Disk) :=
  if !env.canFinalize then some (.error ("finalize failed: " ++ env.ioError))
  else
    match disk[path]? with
    | none => some (.error ("cannot stat received file: " ++ env.ioError))
    | some content =>
      let content := setLen 0 content x.expectedSize
      if !env.canReadBack then some (.error ("Read failed on " ++ path ++ ": " ++ env.ioError))
      else if P.sha256Hex content ≠ x.expectedSha256 then do
        let reason ← hashMismatch (sliceUpTo? · 16) (P.sha256Hex content) x.expectedSha256
        return .error reason
      else some (.ok (disk.insert path content))

def finishStreamingChecked (transferId : String) : Option FileOutcome :=
  match m.inbound[transferId]? with
  | none => some (m, disk, [])
  | some x =>
    match x.sink with
    | .memory _ => some (m, disk, [])
    | .partFile isOpen path received count =>
      if !isOpen then some (m, disk, [])
      else do
        let x := { x with sink := .partFile false path received count }
        let m := m.setInbound transferId x
        match ← verifyPartChecked P env disk path x with
        | .error reason => return m.failInbound env disk transferId reason
        | .ok disk =>
          match promotePartFile env disk path x.relPath with
          | .error e =>
            return m.failInbound env disk transferId ("could not save received file: " ++ e)
          | .ok (disk, finalPath) =>
            return (m.setInbound transferId { x with state := .complete, finishedAt := some env.now },
              disk, FileTransferManager.completeEvents transferId x
                (.savedAt finalPath x.expectedSize))

def finishInboundChecked (transferId : String) : Option FileOutcome :=
  match m.inbound[transferId]? with
  | none => some (m, disk, [])
  | some x =>
    if x.state ≠ .transferring ∨ x.chunksReceived ≠ x.totalChunks then some (m, disk, [])
    else if x.isStreaming then finishStreamingChecked P env disk m transferId
    else do
      let m := m.setInbound transferId { x with state := .verifying }
      match ← assembleChecked P Z m x x.reassemble with
      | .error reason => return m.failInbound env disk transferId reason
      | .ok assembled =>
        return (m.setInbound transferId { x with state := .complete, finishedAt := some env.now },
          disk, FileTransferManager.completeEvents transferId x (.bytes assembled))

def onChunkBytesReceivedChecked (transferId : String) (chunkIndex : Nat) (chunk : Bytes) :
    Option FileOutcome :=
  match m.inbound[transferId]? with
  | none => some (m, disk, [])
  | some x =>
    if x.state ≠ .transferring then some (m, disk, [])
    else if chunkIndex ≥ x.totalChunks then
      some (m.failInbound env disk transferId
        ("chunk_index " ++ toString chunkIndex ++ " out of range"))
    else do
      match ← x.storeChunkChecked env disk chunkIndex chunk with
      | (_, disk, false) => return (m, disk, [])
      | (x, disk, true) =>
        let m := m.setInbound transferId x
        if x.completeRequested && x.chunksReceived == x.totalChunks then
          finishInboundChecked P Z env disk m transferId
        else if progressIsReportable x.chunksReceived x.totalChunks then
          return (m, disk, [.progress transferId x.progress])
        else return (m, disk, [])

def onChunkReceivedChecked (transferId : String) (chunkIndex : Nat) (dataB64 : String) :
    Option FileOutcome :=
  match P.decodeB64Std dataB64 with
  | some chunk => onChunkBytesReceivedChecked P Z env disk m transferId chunkIndex chunk
  | none => some (m.failInbound env disk transferId "invalid base64 chunk")

def onCompleteReceivedChecked (transferId : String) : Option FileOutcome :=
  match m.inbound[transferId]? with
  | none => some (m, disk, [])
  | some x =>
    if x.state ≠ .transferring then some (m, disk, [])
    else if x.chunksReceived ≠ x.totalChunks then
      some (m.setInbound transferId { x with completeRequested := true }, disk, [])
    else finishInboundChecked P Z env disk m transferId

/-- Where the chunks of an offer go; the flags of a partial file are a buffer. -/
def offerSinkChecked (o : FileTransferManager.OfferFields) :
    Option (Except String (Disk × TransferSink)) :=
  if o.size > maxTransferSize then some (.error "file_too_large")
  else do
    let maxChunks ← addUsize (chunkCount chunkSize o.size) 1
    if o.totalChunks = 0 ∨ o.totalChunks > maxChunks then return .error "invalid_chunk_count"
    else if o.size > inlineMax ∧ !o.compressed ∧ !o.isDelta then
      match openPartFile env disk o.relPath o.transferId with
      | .ok (disk, path) =>
        let _ ← withCapacity o.totalChunks
        return .ok (disk, .partFile true path (List.replicate o.totalChunks false) 0)
      | .error _ => return .error "storage_unavailable"
    else if o.size > inlineMax then return .error "file_too_large"
    else return .ok (disk, .memory ∅)

/-- An offer arrives. -/
def onOfferReceivedChecked (peerId roomId supernodeId : String)
    (o : FileTransferManager.OfferFields) : Option FileOutcome := do
  match ← offerSinkChecked env disk o with
  | .error reason => return (m, disk, [.sendMessage peerId (.reject o.transferId reason)])
  | .ok (disk, sink) =>
    let offered : TransferEvent := .offered o.transferId peerId o.relPath o.size o.purpose
    let accept : List TransferEvent :=
      if o.purpose = "update" then [.sendMessage peerId (.accept o.transferId)] else []
    return (m.setInbound o.transferId
        (FileTransferManager.newInbound env peerId roomId supernodeId o sink), disk,
      offered :: accept)

end Inbound

/-! ### Calls -/

section Calls

variable (P : Platform) (Z : Zlib) (env : FileEnv) (disk : Disk) (m : FileTransferManager)

/-- A stream started or taken further. -/
def streamChecked (transferId : String) (budget : Nat) (x : OutboundTransfer)
    (told : List TransferEvent) : Option FileOutcome := do
  let (x, evs, _) ← nextChunkEventsChecked P env disk budget x
  return (m.setOutbound transferId x, disk, told ++ evs)

/-- Records an outbound transfer and makes its offer. -/
def insertOfferChecked (peerId relPath : String) (source : TransferSource) (info : OfferMeta)
    (autoPush : Bool) : Option FileOutcome :=
  let totalChunks := chunkCount chunkSize info.payloadLen
  let x : OutboundTransfer :=
    { transferId := info.transferId
      peerId := peerId
      relPath := relPath
      source := source
      sha256 := info.originalSha
      totalChunks := totalChunks
      chunksSent := 0
      state := .pending
      purpose := info.purpose
      compressed := info.compressed
      isDelta := info.isDelta
      createdAt := env.now
      toPeer := ""
      finishedAt := none
      stallCount := 0
      stalledSince := none
      retryAfter := 0 }
  let offer : TransferEvent := .sendMessage peerId
    (.offer info.transferId relPath info.originalSha info.originalSize info.payloadLen totalChunks
      info.purpose info.compressed info.isDelta info.baseSha256)
  if autoPush then
    streamChecked P env disk m info.transferId totalChunks { x with state := .transferring } [offer]
  else some (m.setOutbound info.transferId x, disk, [offer])

/-- The call, with what it checks. -/
def FileOp.applyChecked : FileOp → Option FileOutcome
  | startStreamFor t requester budget =>
    match m.outbound[t]? with
    | none => some (m, disk, [])
    | some x =>
      streamChecked P env disk m t budget
        { x with chunksSent := 0, toPeer := requester, state := .transferring, finishedAt := none } []
  | pumpStream t budget =>
    match m.outbound[t]? with
    | none => some (m, disk, [])
    | some x =>
      if x.state ≠ .transferring then some (m, disk, [])
      else streamChecked P env disk m t budget x []
  | onTransferAccepted t =>
    match m.outbound[t]? with
    | none => some (m, disk, [])
    | some x =>
      if x.state ≠ .pending then some (m, disk, [])
      else
        streamChecked P env disk m t
          (if x.source.isStreaming then roomFileChunkBudget else x.totalChunks)
          { x with state := .transferring } [.stateChanged t .transferring]
  | offerFile peerId relPath data purpose oldData autoPush t =>
    if data.length > inlineMax then some (m, disk, [])
    else
      let (payload, compressed, isDelta, baseSha256) :=
        FileTransferManager.payloadFor P Z data oldData
      insertOfferChecked P env disk m peerId relPath (.inline payload)
        { transferId := FileTransferManager.newTransferId env t
          originalSha := P.sha256Hex data
          originalSize := data.length
          payloadLen := payload.length
          purpose := purpose
          compressed := compressed
          isDelta := isDelta
          baseSha256 := baseSha256 } autoPush
  | offerFileFromPath peerId relPath path purpose autoPush t =>
    match disk[path]? with
    | none => some (m, disk, [])
    | some content =>
      if content.length > maxTransferSize then some (m, disk, [])
      else
        insertOfferChecked P env disk m peerId relPath (.filePath path content.length)
          { transferId := FileTransferManager.newTransferId env t
            originalSha := P.sha256Hex content
            originalSize := content.length
            payloadLen := content.length
            purpose := purpose
            compressed := false
            isDelta := false
            baseSha256 := "" } autoPush
  | onOfferReceived peerId roomId supernodeId o =>
    onOfferReceivedChecked env disk m peerId roomId supernodeId o
  | onChunkReceived t i data => onChunkReceivedChecked P Z env disk m t i data
  | onChunkBytesReceived t i chunk => onChunkBytesReceivedChecked P Z env disk m t i chunk
  | onCompleteReceived t => onCompleteReceivedChecked P Z env disk m t
  | op => some (op.apply P Z env disk m)

end Calls

/-- The log after a call with its outcome. -/
def FileLog.after (L : FileLog) (s : FileEnv × FileOp) (out : FileOutcome) : FileLog :=
  let stopped := forget (s.2.offers s.1 L.disk) L.stopped
  { manager := out.1
    disk := out.2.1
    accepted := (s.2.accepts).toList ++ forget (s.2.admits s.1 L.disk) L.accepted
    ended := (if s.2.endsInbound L.manager then endsTold out.2.2 else []) ++
      forget (s.2.admits s.1 L.disk) L.ended
    stopped := (s.2.stops L.manager).toList ++ stopped
    strays := L.strays ++ (fileDataSent out.2.2).filter (· ∈ stopped) }

def FileLog.stepChecked (P : Platform) (Z : Zlib) (L : FileLog) (s : FileEnv × FileOp) :
    Option FileLog := do
  let out ← s.2.applyChecked P Z s.1 L.disk L.manager
  return L.after s out

end ConquerD.Client
