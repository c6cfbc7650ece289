import ConquerD.Client.Verify.Delta
import ConquerD.Client.Verify.FileReceiver
import ConquerD.Wire.Signaling

/-!
# A file offered, accepted and sent arrives

Content held in memory is packed as it is, compressed or as a delta; a file on
disk is sent as it is. The receiver finds the announced number of chunks
plausible, and what it puts together is the content, whatever the sender does
after its offer and in whatever order and however often its frames arrive.
-/

namespace ConquerD.Client

open Std (ExtTreeMap)
open Lib.Run (run)
open Lib.Chunks Lib.Encoding Wire

/-! ## Packing -/

/-- Compression makes nothing longer than by a chunk. -/
def Zlib.ExpandsLittle (Z : Zlib) : Prop :=
  ∀ data compressed, data.length ≤ inlineMax → Z.compress data 6 = .ok compressed →
    compressed.length ≤ data.length + chunkSize

/-- How a payload stands for some content. -/
inductive Packs (Z : Zlib) (oldData : Option Bytes) (data : Bytes) :
    (payload : Bytes) → (compressed isDelta : Bool) → Prop where
  | plain : Packs Z oldData data data false false
  | compressed {payload : Bytes} (h : zlibDecompress Z payload = .ok data) :
    Packs Z oldData data payload true false
  | delta {payload old : Bytes} (hold : oldData = some old)
    (h : applyDelta Z old payload = .ok data) : Packs Z oldData data payload false true

section Pack

variable {P : Platform} {Z : Zlib} {oldData : Option Bytes} {data payload : Bytes}

theorem compressData_packs (oldData : Option Bytes) (hZ : Z.RoundTrips)
    (hlen : data.length ≤ maxTransferSize) :
    Packs Z oldData data (compressData Z data).1 (compressData Z data).2 false ∧
      (compressData Z data).1.length ≤ data.length := by
  unfold compressData
  split
  · exact ⟨.plain, le_refl _⟩
  · split
    · next compressed hcompressed =>
      split
      · next hless =>
        refine ⟨.compressed (zlibDecompress_of_roundTrips hZ hcompressed hlen), ?_⟩
        simp only
        omega
      · exact ⟨.plain, le_refl _⟩
    · exact ⟨.plain, le_refl _⟩

theorem length_of_createDelta (hexpands : Z.ExpandsLittle) (hlen : data.length ≤ inlineMax)
    {old delta : Bytes} (h : createDelta Z old data = some delta) :
    delta.length ≤ data.length + chunkSize := by
  unfold createDelta at h
  split at h
  · cases h
  · simp only at h
    split at h
    · cases h
    · next full hfull =>
      split at h
      · next hsmaller =>
        cases h
        have hbound := hexpands data full hlen hfull
        omega
      · cases h

theorem payloadFor_packs (oldData : Option Bytes) (hZ : Z.RoundTrips) (hexpands : Z.ExpandsLittle)
    (hlen : data.length ≤ inlineMax) :
    ∃ payload compressed isDelta base,
      FileTransferManager.payloadFor P Z data oldData = (payload, compressed, isDelta, base) ∧
      Packs Z oldData data payload compressed isDelta ∧
      payload.length ≤ data.length + chunkSize := by
  have hshort : data.length + 9 ≤ maxTransferSize := by
    simp only [inlineMax, maxTransferSize] at hlen ⊢
    omega
  obtain ⟨hpacks, hsmall⟩ :=
    compressData_packs oldData hZ ((Nat.le_add_right _ _).trans hshort)
  rcases oldData with _ | old
  · exact ⟨_, _, _, _, rfl, hpacks, by omega⟩
  · cases hdelta : createDelta Z old data with
    | none =>
      refine ⟨_, _, _, "", ?_, hpacks, by omega⟩
      simp only [FileTransferManager.payloadFor, hdelta]
    | some delta =>
      refine ⟨delta, false, true, P.sha256Hex old, ?_, .delta rfl (applyDelta_createDelta hZ hshort hdelta),
        length_of_createDelta hexpands hlen hdelta⟩
      simp only [FileTransferManager.payloadFor, hdelta]

theorem assemble_of_packs {x : InboundTransfer} {m : FileTransferManager}
    (h : Packs Z oldData data payload x.compressed x.isDelta)
    (hold : ∀ old, oldData = some old → m.oldDataStore[x.relPath]? = some old)
    (hsize : x.expectedSize = data.length) (hsha : x.expectedSha256 = P.sha256Hex data) :
    m.assemble P Z x payload = .ok data := by
  unfold FileTransferManager.assemble
  generalize x.compressed = compressed at h
  generalize x.isDelta = isDelta at h
  cases h with
  | plain => simp [hsize, hsha, bind, Except.bind]
  | compressed hread => simp [hread, hsize, hsha, bind, Except.bind]
  | delta hsome happly => simp [hold _ hsome, happly, hsize, hsha, bind, Except.bind]

end Pack

/-! ## The offer -/

/-- A call that offers a file, of content in memory or of a file on disk. -/
inductive OfferCall where
  | offerFile (peerId relPath : String) (data : Bytes) (purpose : String)
      (oldData : Option Bytes) (autoPush : Bool) (transferId : Option String)
  | offerFileFromPath (peerId relPath path purpose : String) (autoPush : Bool)
      (transferId : Option String)

namespace OfferCall

def offer (P : Platform) (Z : Zlib) (env : FileEnv) (disk : Disk) (m : FileTransferManager) :
    OfferCall → Except String (FileTransferManager × String × List TransferEvent)
  | .offerFile peerId relPath data purpose oldData autoPush transferId =>
    m.offerFileWithId P Z env disk peerId relPath data purpose oldData autoPush transferId
  | .offerFileFromPath peerId relPath path purpose autoPush transferId =>
    m.offerFileFromPathWithId P env disk peerId relPath path purpose autoPush transferId

/-- The content that is offered, if it is small enough for the call. -/
def content (disk : Disk) : OfferCall → Option Bytes
  | .offerFile _ _ data .. => if data.length ≤ inlineMax then some data else none
  | .offerFileFromPath _ _ path .. => disk[path]?.filter fun content => content.length ≤ maxTransferSize

def relPath : OfferCall → String
  | .offerFile _ relPath .. => relPath
  | .offerFileFromPath _ relPath .. => relPath

def oldData : OfferCall → Option Bytes
  | .offerFile _ _ _ _ oldData _ _ => oldData
  | .offerFileFromPath .. => none

end OfferCall

/-- The offer among what happened. -/
def offerOf (evs : List TransferEvent) : Option FileTransferManager.OfferFields :=
  evs.findSome? fun
    | .sendMessage _ (.offer transferId relPath sha256 size _ totalChunks purpose compressed
        isDelta baseSha256) =>
      some { transferId, relPath, sha256, size, totalChunks, purpose, compressed, isDelta,
             baseSha256 }
    | _ => none

/-- The sender after the call, and the offer it made. -/
def OfferCall.started (call : OfferCall) (P : Platform) (Z : Zlib) (env : FileEnv) (disk : Disk)
    (m : FileTransferManager) : Option (SenderLog × FileTransferManager.OfferFields) :=
  match call.offer P Z env disk m with
  | .ok (m, _, evs) => (offerOf evs).map fun o => (⟨m, fileFrames evs⟩, o)
  | .error _ => none

/-- What an offer says of a payload and the content it stands for. -/
structure Announces (P : Platform) (Z : Zlib) (oldData : Option Bytes) (payload data : Bytes)
    (o : FileTransferManager.OfferFields) : Prop where
  size : o.size = data.length
  sha256 : o.sha256 = P.sha256Hex data
  total : o.totalChunks = chunkCount chunkSize payload.length
  packs : Packs Z oldData data payload o.compressed o.isDelta
  small : payload.length ≤ data.length + chunkSize
  fits : data.length ≤ inlineMax ∨ (data.length ≤ maxTransferSize ∧ payload = data ∧
    o.compressed = false ∧ o.isDelta = false)

section Offer

variable {P : Platform} {Z : Zlib} {env : FileEnv} {disk : Disk} {m : FileTransferManager}
  {payload data : Bytes}

theorem SenderInv.pushed {tid : String} {x : OutboundTransfer} {evs : List TransferEvent}
    (hnothing : WellEmitted P payload tid []) (hx : Sending P disk payload tid [] x)
    (hevs : fileFrames evs = fileFrames (buildChunkEvents P env disk x).2) :
    SenderInv P disk payload tid
      ⟨m.setOutbound tid (buildChunkEvents P env disk x).1, fileFrames evs⟩ := by
  obtain ⟨hrecord, hwell⟩ := hx.slice env hnothing x.totalChunks
  rw [List.nil_append] at hrecord hwell
  rw [hevs]
  exact ⟨⟨_, getElem?_setOutbound _ _ _, hrecord⟩, hwell⟩

/-- The record a new offer starts from. -/
def offerRecord (env : FileEnv) (peerId relPath : String) (source : TransferSource)
    (info : OfferMeta) (totalChunks : Nat) (state : TransferState) : OutboundTransfer where
  transferId := info.transferId
  peerId := peerId
  relPath := relPath
  source := source
  sha256 := info.originalSha
  totalChunks := totalChunks
  chunksSent := 0
  state := state
  purpose := info.purpose
  compressed := info.compressed
  isDelta := info.isDelta
  createdAt := env.now
  toPeer := ""
  finishedAt := none
  stallCount := 0
  stalledSince := none
  retryAfter := 0

/-- The message of a new offer. -/
def offerEvent (peerId relPath : String) (info : OfferMeta) : TransferEvent :=
  .sendMessage peerId (.offer info.transferId relPath info.originalSha info.originalSize
    info.payloadLen (chunkCount chunkSize info.payloadLen) info.purpose info.compressed
    info.isDelta info.baseSha256)

theorem fileFrames_offerEvent (peerId relPath : String) (info : OfferMeta)
    (evs : List TransferEvent) :
    fileFrames (offerEvent peerId relPath info :: evs) = fileFrames evs := rfl

theorem offerOf_offerEvent (peerId relPath : String) (info : OfferMeta)
    (evs : List TransferEvent) :
    offerOf (offerEvent peerId relPath info :: evs) = some
      { transferId := info.transferId, relPath := relPath, sha256 := info.originalSha,
        size := info.originalSize, totalChunks := chunkCount chunkSize info.payloadLen,
        purpose := info.purpose, compressed := info.compressed, isDelta := info.isDelta,
        baseSha256 := info.baseSha256 } := rfl

theorem insertOffer_pending (peerId relPath : String) (source : TransferSource)
    (info : OfferMeta) :
    m.insertOffer P env disk peerId relPath source info false =
      (m.setOutbound info.transferId (offerRecord env peerId relPath source info
        (chunkCount chunkSize info.payloadLen) .pending),
        info.transferId, [offerEvent peerId relPath info]) := rfl

theorem insertOffer_pushed (peerId relPath : String) (source : TransferSource)
    (info : OfferMeta) :
    m.insertOffer P env disk peerId relPath source info true =
      (m.setOutbound info.transferId
          (buildChunkEvents P env disk (offerRecord env peerId relPath source info
            (chunkCount chunkSize info.payloadLen) .transferring)).1,
        info.transferId, offerEvent peerId relPath info ::
          (buildChunkEvents P env disk (offerRecord env peerId relPath source info
            (chunkCount chunkSize info.payloadLen) .transferring)).2) := rfl

theorem insertOffer_spec {source : TransferSource} (env : FileEnv) (m : FileTransferManager)
    (hsource : Supplies disk payload source) (peerId relPath : String) (info : OfferMeta)
    (hlen : info.payloadLen = payload.length) (autoPush : Bool) :
    ∃ m' evs, m.insertOffer P env disk peerId relPath source info autoPush =
        (m', info.transferId, evs) ∧
      offerOf evs = some
        { transferId := info.transferId, relPath := relPath, sha256 := info.originalSha,
          size := info.originalSize, totalChunks := chunkCount chunkSize info.payloadLen,
          purpose := info.purpose, compressed := info.compressed, isDelta := info.isDelta,
          baseSha256 := info.baseSha256 } ∧
      SenderInv P disk payload info.transferId ⟨m', fileFrames evs⟩ := by
  have hnothing : WellEmitted P payload info.transferId [] := by
    refine ⟨fun f hf => absurd hf List.not_mem_nil, ?_⟩
    rintro ⟨_, hmem⟩
    exact absurd hmem List.not_mem_nil
  have hsending : ∀ total state, total = chunkCount chunkSize payload.length →
      Sending P disk payload info.transferId []
        (offerRecord env peerId relPath source info total state) :=
    fun total state htotal => ⟨rfl, hsource, htotal, fun i hi => absurd hi (Nat.not_lt_zero i)⟩
  have htotal : chunkCount chunkSize info.payloadLen = chunkCount chunkSize payload.length := by
    rw [hlen]
  cases autoPush with
  | false =>
    refine ⟨_, _, insertOffer_pending .., offerOf_offerEvent .., ?_⟩
    exact ⟨⟨_, getElem?_setOutbound _ _ _, hsending _ .pending htotal⟩, hnothing⟩
  | true =>
    refine ⟨_, _, insertOffer_pushed .., offerOf_offerEvent .., ?_⟩
    exact .pushed hnothing (hsending _ .transferring htotal) (fileFrames_offerEvent ..)

theorem started_of_offer {call : OfferCall} {tid : String} {evs : List TransferEvent}
    {m' : FileTransferManager} {o : FileTransferManager.OfferFields}
    (h : call.offer P Z env disk m = .ok (m', tid, evs)) (ho : offerOf evs = some o) :
    call.started P Z env disk m = some (⟨m', fileFrames evs⟩, o) := by
  simp only [OfferCall.started, h, ho, Option.map_some]

/-- An offer within its limit is made, and says of its content what is so. -/
theorem OfferCall.started_spec (call : OfferCall) (env : FileEnv) (m : FileTransferManager)
    (hZ : Z.RoundTrips) (hexpands : Z.ExpandsLittle) (hcontent : call.content disk = some data) :
    ∃ L o payload, call.started P Z env disk m = some (L, o) ∧ o.relPath = call.relPath ∧
      Announces P Z call.oldData payload data o ∧
      SenderInv P disk payload o.transferId L := by
  cases call with
  | offerFile peerId relPath content purpose oldData autoPush transferId =>
    simp only [OfferCall.content] at hcontent
    split at hcontent
    · next hlen =>
      cases hcontent
      obtain ⟨payload, compressed, isDelta, base, hpayload, hpacks, hsmall⟩ :=
        payloadFor_packs (P := P) oldData hZ hexpands hlen
      have hsource : Supplies disk payload (.inline payload) := .inline
      obtain ⟨m', evs, hinsert, hoffer, hinv⟩ :=
        insertOffer_spec (P := P) env m hsource peerId relPath
          { transferId := FileTransferManager.newTransferId env transferId
            originalSha := P.sha256Hex data
            originalSize := data.length
            payloadLen := payload.length
            purpose := purpose
            compressed := compressed
            isDelta := isDelta
            baseSha256 := base } rfl autoPush
      have hoffered : OfferCall.offer P Z env disk m (.offerFile peerId relPath data purpose
          oldData autoPush transferId) =
          .ok (m', FileTransferManager.newTransferId env transferId, evs) := by
        simp only [OfferCall.offer, FileTransferManager.offerFileWithId,
          if_neg (not_lt.mpr hlen), hpayload, hinsert]
      exact ⟨_, _, payload, started_of_offer hoffered hoffer, rfl,
        ⟨rfl, rfl, rfl, hpacks, hsmall, .inl hlen⟩, hinv⟩
    · cases hcontent
  | offerFileFromPath peerId relPath path purpose autoPush transferId =>
    obtain ⟨hpath, hlen⟩ :=
      Option.filter_eq_some_iff.mp (show disk[path]?.filter _ = some data from hcontent)
    have hlen : data.length ≤ maxTransferSize := of_decide_eq_true hlen
    obtain ⟨m', evs, hinsert, hoffer, hinv⟩ :=
      insertOffer_spec (P := P) env m (Supplies.filePath hpath) peerId relPath
        { transferId := FileTransferManager.newTransferId env transferId
          originalSha := P.sha256Hex data
          originalSize := data.length
          payloadLen := data.length
          purpose := purpose
          compressed := false
          isDelta := false
          baseSha256 := "" } rfl autoPush
    have hoffered : OfferCall.offer P Z env disk m (.offerFileFromPath peerId relPath path purpose
        autoPush transferId) =
        .ok (m', FileTransferManager.newTransferId env transferId, evs) := by
      simp only [OfferCall.offer, FileTransferManager.offerFileFromPathWithId, hpath,
        if_neg (not_lt.mpr hlen), hinsert]
    exact ⟨_, _, data, started_of_offer hoffered hoffer, rfl,
      ⟨rfl, rfl, rfl, .plain, by omega, .inr ⟨hlen, rfl, rfl, rfl⟩⟩, hinv⟩

end Offer

/-! ## The offer arrives -/

/-- What happens after a file was offered: what the sender does, where and when
the offer arrives, what arrives of the file before the user accepts, how the
user accepts and what arrives after it. -/
structure Exchange where
  steps : List (SenderStep × FileEnv)
  receiver : FileTransferManager
  disk : Disk
  env : FileEnv
  peerId : String
  roomId : String
  supernodeId : String
  early : List (FileMessage × FileEnv)
  /-- Of a room's file, which tells the sender nothing. -/
  locally : Bool
  arrivals : List (FileMessage × FileEnv)

namespace Exchange

/-- All frames the sender emits. -/
def emitted (x : Exchange) (P : Platform) (disk : Disk) (tid : String) (L : SenderLog) :
    List FileMessage :=
  (run (SenderLog.step P disk tid) L x.steps).emitted

/-- The receiver once the offer arrived. -/
def offered (x : Exchange) (o : FileTransferManager.OfferFields) : ReceiverLog :=
  (⟨x.receiver, x.disk, []⟩ : ReceiverLog).did
    (x.receiver.onOfferReceivedWithRoom x.env x.disk x.peerId x.roomId x.supernodeId o)

/-- The user accepts. -/
def accept (x : Exchange) (tid : String) (L : ReceiverLog) : ReceiverLog :=
  let accepted :=
    if x.locally then L.manager.acceptTransferLocally tid else L.manager.acceptTransfer tid
  L.did (accepted.1, L.disk, accepted.2)

/-- The receiver at the end. -/
def received (x : Exchange) (P : Platform) (Z : Zlib) (o : FileTransferManager.OfferFields) :
    ReceiverLog :=
  run (ReceiverLog.step P Z)
    (x.accept o.transferId (run (ReceiverLog.step P Z) (x.offered o) x.early)) x.arrivals

/-- Only what was emitted arrives; every chunk that was emitted arrives after
the user accepted, and COMPLETE does; storage works. -/
structure Whole (x : Exchange) (emitted : List FileMessage) (tid : String) : Prop where
  genuine : ∀ a ∈ x.early ++ x.arrivals, a.1 ∈ emitted
  chunks : ∀ i data toPeer, .chunk tid i data toPeer ∈ emitted →
    ∃ a ∈ x.arrivals, ∃ data' toPeer', a.1 = .chunk tid i data' toPeer'
  complete : ∃ a ∈ x.arrivals, ∃ toPeer, a.1 = .complete tid toPeer
  offerStored : x.env.StorageWorks
  chunksStored : ∀ a ∈ x.early ++ x.arrivals, a.2.StorageWorks

/-- The receiver holds the old content a delta is made against. -/
def SameOld (x : Exchange) (call : OfferCall) : Prop :=
  ∀ old, call.oldData = some old → x.receiver.getOldData call.relPath = some old

end Exchange

/-- The content was handed over once, the transfer is complete and the offer was
not turned down. -/
structure ReceiverLog.Delivered (L : ReceiverLog) (tid : String) (data : Bytes) : Prop where
  once : ∃ content, completions L.events = [(tid, content)] ∧ content.content L.disk = some data
  complete : ∃ x, L.manager.inbound[tid]? = some x ∧ x.state = .complete
  accepted : rejections L.events = []

section Receive

variable {P : Platform} {Z : Zlib} {env : FileEnv} {disk : Disk} {oldData : Option Bytes}
  {payload data : Bytes} {o : FileTransferManager.OfferFields}

/-- The announced number of chunks is plausible and there is a place for them. -/
theorem offerSink_of_announces (disk : Disk) (h : Announces P Z oldData payload data o)
    (henv : env.StorageWorks) :
    ∃ disk' sink, FileTransferManager.offerSink env disk o = .ok (disk', sink) ∧
      Holds payload (chunkCount chunkSize payload.length) ∅ disk' sink ∧
      ((∃ isOpen path received count, sink = .partFile isOpen path received count) →
        payload = data) := by
  have hmax : ¬ o.size > maxTransferSize := by
    rw [h.size]
    rcases h.fits with hinline | ⟨hlen, -⟩
    · simp only [inlineMax, maxTransferSize] at hinline ⊢
      omega
    · exact not_lt.mpr hlen
  have hcount : ¬ (o.totalChunks = 0 ∨ o.totalChunks > chunkCount chunkSize o.size + 1) := by
    have hpos := chunkCount_pos chunkSize payload.length
    have hle := (chunkCount_mono h.small).trans (chunkCount_add_size chunkSize_pos data.length)
    rw [h.total, h.size]
    omega
  unfold FileTransferManager.offerSink
  rw [if_neg hmax, if_neg hcount]
  by_cases hlarge : o.size > inlineMax
  · rcases h.fits with hinline | ⟨-, hsame, hcompressed, hdelta⟩
    · exact absurd hlarge (not_lt.mpr (h.size ▸ hinline))
    · simp only [hlarge, hcompressed, hdelta, Bool.not_false, and_self, if_true, openPartFile,
        henv.1, h.total]
      exact ⟨_, _, rfl, .partFile_empty ExtTreeMap.getElem?_insert_self, fun _ => hsame⟩
  · simp only [hlarge, false_and, if_false]
    refine ⟨_, _, rfl, .memory_empty, ?_⟩
    rintro ⟨_, _, _, _, hsink⟩
    cases hsink

theorem carries_of_announces (h : Announces P Z oldData payload data o) {x : InboundTransfer}
    {old : ExtTreeMap String Bytes} (hold : ∀ o', oldData = some o' → old[o.relPath]? = some o')
    {sink : TransferSink} (hstate : x.state = .transferring) (hsink : x.sink = sink)
    (hstream : (∃ isOpen path received count, sink = .partFile isOpen path received count) →
      payload = data)
    (hrel : x.relPath = o.relPath) (hsize : x.expectedSize = o.size)
    (hsha : x.expectedSha256 = o.sha256) (htotal : x.totalChunks = o.totalChunks)
    (hcompressed : x.compressed = o.compressed) (hdelta : x.isDelta = o.isDelta) :
    Carries P Z old payload data x := by
  have hpacks : Packs Z oldData data payload x.compressed x.isDelta := by
    rw [hcompressed, hdelta]
    exact h.packs
  refine ⟨hstate, htotal.trans h.total, ?_, ?_⟩
  · intro _ m hm
    refine assemble_of_packs hpacks (fun o' ho' => ?_) (hsize.trans h.size) (hsha.trans h.sha256)
    rw [hm, hrel]
    exact hold o' ho'
  · intro hpart
    refine ⟨?_, hsize.trans h.size, hsha.trans h.sha256⟩
    unfold InboundTransfer.isStreaming at hpart
    rw [hsink] at hpart
    cases sink with
    | memory => cases hpart
    | partFile isOpen path received count => exact hstream ⟨isOpen, path, received, count, rfl⟩

theorem run_of_pending (hb64 : ∀ bs, P.decodeB64Std (P.encodeB64Std bs) = some bs) {tid : String}
    {L : ReceiverLog} {x : InboundTransfer} (hrec : L.manager.inbound[tid]? = some x)
    (hstate : x.state = .pending) {arrivals : List (FileMessage × FileEnv)}
    (hgenuine : ∀ a ∈ arrivals, IsFrame P payload tid a.1) :
    run (ReceiverLog.step P Z) L arrivals = L := by
  induction arrivals with
  | nil => rfl
  | cons a arrivals ih =>
    obtain ⟨f, env⟩ := a
    have hstep : ReceiverLog.step P Z L (f, env) = L := by
      have hframe := hgenuine (f, env) List.mem_cons_self
      have hquiet : L.did (L.manager, L.disk, []) = L := by
        simp only [ReceiverLog.did, List.append_nil]
      cases hframe with
      | chunk toPeer hi =>
        simp only [ReceiverLog.step, FileTransferManager.onChunkReceived, hb64,
          FileTransferManager.onChunkBytesReceived, hrec, hstate, ne_eq, reduceCtorEq,
          not_false_eq_true, if_true, hquiet]
      | complete toPeer =>
        simp only [ReceiverLog.step, FileTransferManager.onCompleteReceived, hrec, hstate, ne_eq,
          reduceCtorEq, not_false_eq_true, if_true, hquiet]
    calc run (ReceiverLog.step P Z) L ((f, env) :: arrivals)
        = run (ReceiverLog.step P Z) (ReceiverLog.step P Z L (f, env)) arrivals := rfl
      _ = run (ReceiverLog.step P Z) L arrivals := by rw [hstep]
      _ = L := ih fun a ha => hgenuine a (List.mem_cons_of_mem _ ha)

theorem accept_of_receiving {old : ExtTreeMap String Bytes} {tid : String} {arrived : Finset Nat}
    {completed : Bool} {L : ReceiverLog}
    (h : Receiving P Z old payload data tid arrived completed L) (x : Exchange) :
    x.accept tid L = L := by
  have hstarted : ∃ y, L.manager.inbound[tid]? = some y ∧ y.state ≠ .pending := by
    cases h with
    | active hrec hx => exact ⟨_, hrec, by rw [hx.transferring]; decide⟩
    | done hrec hstate => exact ⟨_, hrec, by rw [hstate]; decide⟩
  obtain ⟨y, hrec, hstate⟩ := hstarted
  simp only [Exchange.accept, FileTransferManager.acceptTransferLocally,
    FileTransferManager.acceptTransfer, hrec, if_pos hstate, ite_self, ReceiverLog.did,
    List.append_nil]

theorem accept_receiving (hb64 : ∀ bs, P.decodeB64Std (P.encodeB64Std bs) = some bs)
    (h : Announces P Z oldData payload data o) {x : Exchange}
    (hold : ∀ old, oldData = some old → x.receiver.oldDataStore[o.relPath]? = some old)
    (henv : x.env.StorageWorks)
    (hgenuine : ∀ a ∈ x.early, IsFrame P payload o.transferId a.1)
    (hstored : ∀ a ∈ x.early, a.2.StorageWorks) :
    ∃ arrived completed, Receiving P Z x.receiver.oldDataStore payload data o.transferId arrived
      completed (x.accept o.transferId (run (ReceiverLog.step P Z) (x.offered o) x.early)) := by
  obtain ⟨disk', sink, hsink, hholds, hstream⟩ :=
    offerSink_of_announces x.disk h henv
  have hnot : ¬ (false = true ∧
      (∅ : Finset Nat) = Finset.range (chunkCount chunkSize payload.length)) :=
    fun hfalse => Bool.false_ne_true hfalse.1
  by_cases hupdate : o.purpose = "update"
  · have hoffered : Receiving P Z x.receiver.oldDataStore payload data o.transferId ∅ false
        (x.offered o) := by
      simp only [Exchange.offered, FileTransferManager.onOfferReceivedWithRoom, hsink, hupdate,
        if_true]
      refine .active ExtTreeMap.getElem?_insert_self (carries_of_announces h hold ?_ rfl hstream
        rfl rfl rfl rfl rfl rfl) rfl rfl hholds (Finset.empty_subset _) hnot ⟨rfl, rfl⟩
      simp only [FileTransferManager.newInbound, hupdate, if_true]
    obtain ⟨arrived, completed, hrun, -⟩ := hoffered.run hb64 hgenuine hstored
    exact ⟨arrived, completed, by rw [accept_of_receiving hrun]; exact hrun⟩
  · refine ⟨∅, false, ?_⟩
    have hrec : (x.offered o).manager.inbound[o.transferId]? = some
        (FileTransferManager.newInbound x.env x.peerId x.roomId x.supernodeId o sink) := by
      simp only [Exchange.offered, FileTransferManager.onOfferReceivedWithRoom, hsink]
      exact ExtTreeMap.getElem?_insert_self
    have hdisk : (x.offered o).disk = disk' := by
      simp only [Exchange.offered, FileTransferManager.onOfferReceivedWithRoom, hsink,
        ReceiverLog.did]
    have hstore : (x.offered o).manager.oldDataStore = x.receiver.oldDataStore := by
      simp only [Exchange.offered, FileTransferManager.onOfferReceivedWithRoom, hsink]
      rfl
    have hevents : completions (x.offered o).events = [] ∧ rejections (x.offered o).events = [] := by
      simp only [Exchange.offered, FileTransferManager.onOfferReceivedWithRoom, hsink, hupdate,
        if_false]
      exact ⟨rfl, rfl⟩
    have hpending : (FileTransferManager.newInbound x.env x.peerId x.roomId x.supernodeId o
        sink).state = .pending := by
      simp only [FileTransferManager.newInbound, hupdate, if_false]
    rw [run_of_pending hb64 hrec hpending hgenuine]
    generalize x.offered o = L at hrec hdisk hstore hevents
    have hcarries := carries_of_announces h hold (x := { FileTransferManager.newInbound x.env
      x.peerId x.roomId x.supernodeId o sink with state := .transferring }) rfl rfl hstream rfl rfl
      rfl rfl rfl rfl
    unfold Exchange.accept
    cases x.locally with
    | false =>
      simp only [Bool.false_eq_true, if_false, FileTransferManager.acceptTransfer, hrec,
        if_neg (not_not.mpr hpending)]
      refine .active ExtTreeMap.getElem?_insert_self hcarries rfl hstore (hdisk ▸ hholds)
        (Finset.empty_subset _) hnot ⟨?_, ?_⟩
      · simp only [ReceiverLog.did, completions_append, hevents.1]
        rfl
      · simp only [ReceiverLog.did, rejections_append, hevents.2]
        rfl
    | true =>
      simp only [if_true, FileTransferManager.acceptTransferLocally, hrec,
        if_neg (not_not.mpr hpending)]
      refine .active ExtTreeMap.getElem?_insert_self hcarries rfl hstore (hdisk ▸ hholds)
        (Finset.empty_subset _) hnot ⟨?_, ?_⟩
      · simp only [ReceiverLog.did, completions_append, hevents.1]
        rfl
      · simp only [ReceiverLog.did, rejections_append, hevents.2]
        rfl

end Receive

/-! ## The round trip -/

section RoundTrip

variable {P : Platform} {Z : Zlib} {env : FileEnv} {disk : Disk} {m : FileTransferManager}
  {data : Bytes}

theorem SenderInv.run {payload : Bytes} {tid : String} {L : SenderLog}
    (h : SenderInv P disk payload tid L) (steps : List (SenderStep × FileEnv)) :
    SenderInv P disk payload tid (Lib.Run.run (SenderLog.step P disk tid) L steps) :=
  Lib.Run.run_inv (SenderInv P disk payload tid) h fun _ s hinv => hinv.step s

/-- A file within the limit of its call is offered. Whatever the sender does
then, the receiver that accepts the offer and gets every chunk that was emitted
and COMPLETE, in any order and however often, hands over the content once. -/
theorem file_round_trip (hZ : Z.RoundTrips) (hexpands : Z.ExpandsLittle)
    (hb64 : ∀ bs, P.decodeB64Std (P.encodeB64Std bs) = some bs) (call : OfferCall)
    (env : FileEnv) (disk : Disk) (m : FileTransferManager)
    (hcontent : call.content disk = some data) :
    ∃ L o, call.started P Z env disk m = some (L, o) ∧
      ∀ x : Exchange, x.SameOld call → x.Whole (x.emitted P disk o.transferId L) o.transferId →
        (x.received P Z o).Delivered o.transferId data := by
  obtain ⟨L, o, payload, hstarted, hrel, hannounces, hinv⟩ :=
    call.started_spec env m hZ hexpands hcontent
  refine ⟨L, o, hstarted, fun x hsame hwhole => ?_⟩
  have hemitted : WellEmitted P payload o.transferId (x.emitted P disk o.transferId L) :=
    (hinv.run x.steps).emitted
  have hframes : ∀ a ∈ x.early ++ x.arrivals, IsFrame P payload o.transferId a.1 :=
    fun a ha => hemitted.frames _ (hwhole.genuine a ha)
  have hold : ∀ old, call.oldData = some old →
      x.receiver.oldDataStore[o.relPath]? = some old := by
    intro old hold
    rw [hrel]
    exact hsame old hold
  obtain ⟨arrived, completed, hreceiving⟩ := accept_receiving hb64 hannounces hold
    hwhole.offerStored (fun a ha => hframes a (List.mem_append_left _ ha))
    (fun a ha => hwhole.chunksStored a (List.mem_append_left _ ha))
  obtain ⟨arrived', completed', hrun, -, -, harrived⟩ := hreceiving.run hb64
    (fun a ha => hframes a (List.mem_append_right _ ha))
    (fun a ha => hwhole.chunksStored a (List.mem_append_right _ ha))
  obtain ⟨⟨f, env'⟩, hmem, toPeer, hf⟩ := hwhole.complete
  simp only at hf
  subst hf
  obtain rfl := harrived.complete toPeer env' hmem
  have hcomplete := hwhole.genuine _ (List.mem_append_right _ hmem)
  have hall : ∀ i < chunkCount chunkSize payload.length, i ∈ arrived' := by
    intro i hi
    obtain ⟨addressee, hchunk⟩ := hemitted.whole ⟨toPeer, hcomplete⟩ i hi
    obtain ⟨⟨g, env''⟩, hg, data', toPeer', hgeq⟩ := hwhole.chunks _ _ _ hchunk
    simp only at hgeq
    subst hgeq
    have hframe := hframes _ (List.mem_append_right _ hg)
    cases hframe with
    | chunk _ _ => exact harrived.chunks i toPeer' env'' hg
  obtain ⟨y, content, hrec, hstate, honce, hdata, hreject⟩ := hrun.delivered hall
  exact ⟨⟨content, honce, hdata⟩, ⟨y, hrec, hstate⟩, hreject⟩

end RoundTrip

/-- The text `hi`. -/
def hiBytes : Bytes := [104, 105]

/-- Base64 of `hi`; other bytes are written one character each. -/
def hiEncode (bs : Bytes) : String :=
  if bs = hiBytes then "aGk=" else String.ofList ('!' :: bs.map fun b => Char.ofNat b.toNat)

def hiDecode (s : String) : Option Bytes :=
  if s = "aGk=" then some hiBytes
  else some ((s.toList.drop 1).map fun c => UInt8.ofNat c.toNat)

theorem hiDecode_hiEncode (bs : Bytes) : hiDecode (hiEncode bs) = some bs := by
  unfold hiEncode
  split
  · next hbs => rw [hbs, hiDecode, if_pos rfl]
  · have hne : String.ofList ('!' :: bs.map fun b => Char.ofNat b.toNat) ≠ "aGk=" := by
      intro heq
      have hchars := congrArg String.toList heq
      rw [String.toList_ofList] at hchars
      cases hchars
    have hback : ∀ b : UInt8, UInt8.ofNat (Char.ofNat b.toNat).toNat = b := by
      intro b
      have hlt := b.toNat_lt
      have hvalid : b.toNat.isValidChar := .inl (by omega)
      rw [Char.ofNat, dif_pos hvalid]
      exact UInt8.ofNat_toNat
    rw [hiDecode, if_neg hne, String.toList_ofList, List.drop_succ_cons, List.drop_zero,
      List.map_map]
    exact congrArg some ((List.map_congr_left fun b _ => hback b).trans (List.map_id bs))

/-- The hash of `hi`, and its base64. -/
def hiPlatform : Platform :=
  { Platform.oneKey with
    sha256 := fun _ => [0x8f, 0x43, 0x43, 0x46, 0x64, 0x8f, 0x6b, 0x96, 0xdf, 0x89, 0xdd, 0xa9, 0x01,
      0xc5, 0x17, 0x6b, 0x10, 0xa6, 0xd8, 0x39, 0x61, 0xdd, 0x3c, 0x1a, 0xc8, 0x8b, 0x59, 0xb2,
      0xdc, 0x32, 0x7a, 0xa4]
    encodeB64Std := hiEncode
    decodeB64Std := hiDecode }

/-- Storage works. -/
def hiEnv : FileEnv where
  now := 0
  uuid := "0"
  downloadDir := "/downloads"
  canOpen := true
  canWrite := true
  canFinalize := true
  canReadBack := true
  canRename := true
  canRead _ := true
  ioError := ""

def hiCall : OfferCall := .offerFile "bob" "hi.txt" hiBytes "share" none false (some "t")

/-- COMPLETE overtakes the only chunk, which comes twice. -/
def hiExchange : Exchange where
  steps := [(.accepted, hiEnv)]
  receiver := .new
  disk := ∅
  env := hiEnv
  peerId := "alice"
  roomId := ""
  supernodeId := ""
  early := []
  locally := false
  arrivals := [(.complete "t" "", hiEnv), (.chunk "t" 0 "aGk=" "", hiEnv),
    (.chunk "t" 0 "aGk=" "", hiEnv)]

theorem hi_emitted :
    (hiCall.started hiPlatform storeZlib hiEnv ∅ .new).map
        (fun r => (r.2.transferId, hiExchange.emitted hiPlatform ∅ r.2.transferId r.1)) =
      some ("t", [.chunk "t" 0 "aGk=" "", .complete "t" ""]) := by
  decide +kernel

theorem hi_arrives :
    ∃ L o, hiCall.started hiPlatform storeZlib hiEnv ∅ .new = some (L, o) ∧
      (hiExchange.received hiPlatform storeZlib o).Delivered "t" hiBytes := by
  have hexpands : storeZlib.ExpandsLittle := by
    rintro data compressed - ⟨⟩
    exact Nat.le_add_right _ _
  have hcontent : hiCall.content ∅ = some hiBytes := by decide
  obtain ⟨L, o, hstarted, hround⟩ := file_round_trip (P := hiPlatform) storeZlib_roundTrips
    hexpands
    hiDecode_hiEncode hiCall hiEnv ∅ .new hcontent
  have hemitted := hi_emitted
  rw [hstarted, Option.map_some, Option.some.injEq, Prod.mk.injEq] at hemitted
  obtain ⟨hid, hframes⟩ := hemitted
  simp only at hid hframes
  refine ⟨L, o, hstarted, ?_⟩
  have hdelivered := hround hiExchange (fun old hold => by cases hold)
  rw [hframes, hid] at hdelivered
  refine hdelivered ⟨?_, ?_, ?_, ?_, ?_⟩
  · intro a ha
    simp only [hiExchange, List.nil_append, List.mem_cons, List.not_mem_nil, or_false] at ha
    rcases ha with rfl | rfl | rfl
    · simp
    · simp
    · simp
  · intro i data toPeer hmem
    simp only [List.mem_cons, List.not_mem_nil, or_false, FileMessage.chunk.injEq, reduceCtorEq,
      true_and] at hmem
    obtain ⟨rfl, -⟩ := hmem
    exact ⟨_, List.mem_cons_of_mem _ List.mem_cons_self, _, _, rfl⟩
  · exact ⟨_, List.mem_cons_self, _, rfl⟩
  · exact ⟨rfl, rfl, rfl, rfl, rfl⟩
  · intro a ha
    simp only [hiExchange, List.nil_append, List.mem_cons, List.not_mem_nil, or_false] at ha
    rcases ha with rfl | rfl | rfl
    all_goals exact ⟨rfl, rfl, rfl, rfl, rfl⟩

end ConquerD.Client
