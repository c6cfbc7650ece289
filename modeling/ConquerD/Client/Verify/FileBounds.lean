import ConquerD.Client.Verify.FileSafety
import Mathlib.Algebra.Order.BigOperators.Group.List

/-!
# What peers can make a file manager do

Every call is checked, and the runs of calls with it. The checks of a call fail
in one case that is said exactly, so that a run panics just when some call of it
is that case. The chunks of a small file take bounded room where single chunks
do, and a room's file takes no chunk before the user accepted it unless it is
offered as an update.
-/

namespace ConquerD.Client

open Std (ExtTreeMap)
open Lib.Chunks Lib.Encoding Lib.Run Lib.Slice Wire

/-! ## Every call -/

/-- The call panics: it asks for more events than there is room for, or it
finishes a transfer whose hash must be shown and cannot. -/
def FileOp.Panics (P : Platform) (Z : Zlib) (env : FileEnv) (disk : Disk)
    (m : FileTransferManager) : FileOp → Prop
  | startStreamFor t _ budget => (∃ x, m.outbound[t]? = some x) ∧ ¬ FitsBudget budget
  | pumpStream t budget =>
    (∃ x, m.outbound[t]? = some x ∧ x.state = .transferring) ∧ ¬ FitsBudget budget
  | onChunkReceived t i data =>
    ∃ chunk, P.decodeB64Std data = some chunk ∧ ChunkPanics P Z env disk m t i chunk
  | onChunkBytesReceived t i chunk => ChunkPanics P Z env disk m t i chunk
  | onCompleteReceived t => FinishPanics P Z env disk m t
  | _ => False

/-- What the library compresses content in memory to is a buffer. -/
def Zlib.FitsMemory (Z : Zlib) : Prop :=
  ∀ data level out, data.length ≤ inlineMax → Z.compress data level = .ok out →
    out.length < 2 ^ 63

section Calls

variable {P : Platform} {Z : Zlib} {env : FileEnv} {disk : Disk} {m : FileTransferManager}
  {t : String}

theorem length_compressData (Z : Zlib) (data : Bytes) :
    (compressData Z data).1.length ≤ data.length := by
  unfold compressData
  split
  · exact Nat.le_refl _
  · split
    · split
      · simp only
        omega
      · exact Nat.le_refl _
    · exact Nat.le_refl _

theorem length_createDelta (hZ : Z.FitsMemory) {old new delta : Bytes}
    (hnew : new.length ≤ inlineMax) (h : createDelta Z old new = some delta) :
    delta.length < 2 ^ 63 := by
  unfold createDelta at h
  split at h
  · cases h
  · simp only at h
    split at h
    · cases h
    · next full hfull =>
      split at h
      · next hshort =>
        have hlen := hZ _ _ _ hnew hfull
        rw [← Option.some.inj h]
        omega
      · cases h

theorem length_payloadFor (P : Platform) (hZ : Z.FitsMemory) {data : Bytes}
    (hdata : data.length ≤ inlineMax) (oldData : Option Bytes) :
    (FileTransferManager.payloadFor P Z data oldData).1.length < 2 ^ 63 := by
  have hcompressed : (compressData Z data).1.length < 2 ^ 63 := by
    have hle := length_compressData Z data
    simp only [inlineMax] at hdata
    omega
  unfold FileTransferManager.payloadFor
  split
  · split
    · next hdelta => exact length_createDelta hZ hdata hdelta
    · exact hcompressed
  · exact hcompressed

theorem streamChecked_buildChunkEvents {x : OutboundTransfer} {n : Nat} (hn : n = x.totalChunks)
    (hfits : x.Fits) (hroom : FitsBudget n) (told : List TransferEvent) :
    streamChecked P env disk m t n x told =
      some (m.setOutbound t (buildChunkEvents P env disk x).1, disk,
        told ++ (buildChunkEvents P env disk x).2) := by
  subst hn
  exact (streamChecked_panicsIff t x.totalChunks hfits told).returns (not_not.mpr hroom)

theorem buildChunkEvents_sameFile {x y : OutboundTransfer} (h : SameFile x y) :
    SameFile (buildChunkEvents P env disk x).1 y :=
  nextChunkEvents_sameFile P env disk x.totalChunks h

theorem insertOfferChecked_eq (P : Platform) (env : FileEnv) (disk : Disk)
    (m : FileTransferManager) (peerId relPath : String) {source : TransferSource}
    (hsource : source.payloadLen < 2 ^ 63) {info : OfferMeta}
    (hlen : info.payloadLen = source.payloadLen) (autoPush : Bool) :
    insertOfferChecked P env disk m peerId relPath source info autoPush =
      some ((m.insertOffer P env disk peerId relPath source info autoPush).1, disk,
        (m.insertOffer P env disk peerId relPath source info autoPush).2.2) := by
  cases autoPush with
  | false => rfl
  | true =>
    have hchecked : insertOfferChecked P env disk m peerId relPath source info true =
        streamChecked P env disk m info.transferId (chunkCount chunkSize info.payloadLen)
          (offerRecord env peerId relPath source info (chunkCount chunkSize info.payloadLen)
            .transferring) [offerEvent peerId relPath info] := rfl
    have hfits : (offerRecord env peerId relPath source info
        (chunkCount chunkSize info.payloadLen) .transferring).Fits :=
      ⟨hsource, congrArg (chunkCount chunkSize) hlen⟩
    have hroom : FitsBudget (chunkCount chunkSize info.payloadLen) := by
      rw [hlen]
      exact fitsBudget_chunkCount hsource
    have hall : chunkCount chunkSize info.payloadLen = (offerRecord env peerId relPath source info
      (chunkCount chunkSize info.payloadLen) .transferring).totalChunks := rfl
    rw [hchecked, insertOffer_pushed, streamChecked_buildChunkEvents hall hfits hroom,
      List.singleton_append]

/-- What a call checks fails in the case that was said, and changes nothing
else. -/
theorem applyChecked_panicsIff (hsha : Sha256Size P) (hZ : Z.FitsMemory) (env : FileEnv)
    (disk : Disk) (hin : ∀ (t : String) (x : InboundTransfer), m.inbound[t]? = some x → x.Fits)
    (hout : ∀ (t : String) (x : OutboundTransfer), m.outbound[t]? = some x → x.Fits)
    (op : FileOp) :
    PanicsIff (op.applyChecked P Z env disk m) (op.apply P Z env disk m)
      (op.Panics P Z env disk m) := by
  cases op with
  | startStreamFor t requester budget =>
    simp only [FileOp.applyChecked, FileOp.apply, FileOp.Panics, FileTransferManager.startStreamFor]
    rcases Option.eq_none_or_eq_some m.outbound[t]? with hx | ⟨x, hx⟩
    · simp only [hx]
      refine .of_eq rfl ?_
      rintro ⟨⟨y, hy⟩, -⟩
      cases hy
    · simp only [hx]
      have hrestarted : (restarted x requester).Fits :=
        ⟨(hout t x hx).payloadLen, (hout t x hx).totalChunks⟩
      refine (streamChecked_panicsIff t budget hrestarted []).congr ?_
      exact ⟨fun hlarge => ⟨⟨x, rfl⟩, hlarge⟩, fun hbad => hbad.2⟩
  | pumpStream t budget =>
    simp only [FileOp.applyChecked, FileOp.apply, FileOp.Panics, FileTransferManager.pumpStream]
    rcases Option.eq_none_or_eq_some m.outbound[t]? with hx | ⟨x, hx⟩
    · simp only [hx]
      refine .of_eq rfl ?_
      rintro ⟨⟨y, hy, -⟩, -⟩
      cases hy
    · simp only [hx]
      by_cases hstate : x.state = .transferring
      · simp only [hstate, ne_eq, not_true_eq_false, if_false]
        refine (streamChecked_panicsIff t budget (hout t x hx) []).congr ?_
        exact ⟨fun hlarge => ⟨⟨x, rfl, hstate⟩, hlarge⟩, fun hbad => hbad.2⟩
      · simp only [hstate, ne_eq, not_false_eq_true, if_true]
        refine .of_eq rfl ?_
        rintro ⟨⟨y, hy, hother⟩, -⟩
        rw [← Option.some.inj hy] at hother
        exact hstate hother
  | onTransferAccepted t =>
    simp only [FileOp.applyChecked, FileOp.apply, FileOp.Panics]
    refine .of_eq ?_ id
    rcases Option.eq_none_or_eq_some m.outbound[t]? with hx | ⟨x, hx⟩
    · simp only [hx, FileTransferManager.onTransferAccepted]
    · simp only [hx, FileTransferManager.onTransferAccepted]
      have hfits := hout t x hx
      by_cases hstate : x.state = .pending
      · simp only [hstate, ne_eq, not_true_eq_false, if_false]
        have hactive : ({ x with state := .transferring } : OutboundTransfer).Fits :=
          ⟨hfits.payloadLen, hfits.totalChunks⟩
        cases hsource : x.source.isStreaming with
        | true =>
          simp only [if_true]
          refine (streamChecked_panicsIff t _ hactive _).returns ?_
          rw [not_not, FitsBudget]
          decide
        | false =>
          simp only [Bool.false_eq_true, if_false]
          exact (streamChecked_panicsIff t _ hactive _).returns (not_not.mpr hfits.fitsBudget)
      · simp only [hstate, ne_eq, not_false_eq_true, if_true]
  | offerFile peerId relPath data purpose oldData autoPush t =>
    simp only [FileOp.applyChecked, FileOp.apply, FileOp.Panics,
      FileTransferManager.offerFileWithId]
    refine .of_eq ?_ id
    by_cases hlarge : data.length > inlineMax
    · simp only [hlarge, if_true]
      rfl
    · simp only [hlarge, if_false]
      have hlen : (TransferSource.inline
          (FileTransferManager.payloadFor P Z data oldData).1).payloadLen < 2 ^ 63 :=
        length_payloadFor P hZ (Nat.not_lt.mp hlarge) oldData
      exact insertOfferChecked_eq P env disk m peerId relPath hlen rfl autoPush
  | offerFileFromPath peerId relPath path purpose autoPush t =>
    simp only [FileOp.applyChecked, FileOp.apply, FileOp.Panics,
      FileTransferManager.offerFileFromPathWithId]
    refine .of_eq ?_ id
    rcases Option.eq_none_or_eq_some disk[path]? with hpath | ⟨content, hpath⟩
    · simp only [hpath]
      rfl
    · simp only [hpath]
      by_cases hlarge : content.length > maxTransferSize
      · simp only [hlarge, if_true]
        rfl
      · simp only [hlarge, if_false]
        have hlen : (TransferSource.filePath path content.length).payloadLen < 2 ^ 63 :=
          lt_of_le_of_lt (Nat.not_lt.mp hlarge) (by decide)
        exact insertOfferChecked_eq P env disk m peerId relPath hlen rfl autoPush
  | onOfferReceived peerId roomId supernodeId o =>
    refine .of_eq ?_ id
    simp only [FileOp.applyChecked, FileOp.apply, onOfferReceivedChecked,
      FileTransferManager.onOfferReceivedWithRoom, offerSinkChecked_eq, Option.bind_eq_bind,
      Option.bind_some]
    cases FileTransferManager.offerSink env disk o with
    | error reason => rfl
    | ok r => rfl
  | onChunkReceived t i data =>
    simp only [FileOp.applyChecked, FileOp.apply, FileOp.Panics, onChunkReceivedChecked,
      FileTransferManager.onChunkReceived]
    rcases Option.eq_none_or_eq_some (P.decodeB64Std data) with hdata | ⟨chunk, hdata⟩
    · simp only [hdata]
      refine .of_eq rfl ?_
      rintro ⟨chunk, hchunk, -⟩
      cases hchunk
    · simp only [hdata]
      refine (onChunkBytesReceivedChecked_panicsIff hsha Z env disk (hin t) i chunk).congr ?_
      refine ⟨fun hbad => ⟨chunk, rfl, hbad⟩, ?_⟩
      rintro ⟨chunk', hchunk, hbad⟩
      rw [Option.some.inj hchunk]
      exact hbad
  | onChunkBytesReceived t i chunk =>
    exact onChunkBytesReceivedChecked_panicsIff hsha Z env disk (hin t) i chunk
  | onCompleteReceived t => exact onCompleteReceivedChecked_panicsIff hsha Z env disk m t
  | _ => exact .of_eq rfl id

end Calls

/-! ## What is on offer -/

section Offers

variable {P : Platform} {Z : Zlib} {env : FileEnv} {disk : Disk} {m : FileTransferManager}
  {t : String} {x : OutboundTransfer}

theorem insertOffer_fits {peerId relPath : String} {source : TransferSource} {info : OfferMeta}
    {autoPush : Bool} (hsource : source.payloadLen < 2 ^ 63)
    (hlen : info.payloadLen = source.payloadLen)
    (hx : (m.insertOffer P env disk peerId relPath source info autoPush).1.outbound[
      info.transferId]? = some x) : x.Fits := by
  have htotal := congrArg (chunkCount chunkSize) hlen
  unfold FileTransferManager.insertOffer at hx
  cases autoPush with
  | false =>
    simp only [Bool.false_eq_true, if_false, getElem?_setOutbound] at hx
    rw [← Option.some.inj hx]
    exact ⟨hsource, htotal⟩
  | true =>
    simp only [if_true, getElem?_setOutbound] at hx
    rw [← Option.some.inj hx]
    refine (buildChunkEvents_sameFile ⟨rfl, rfl, rfl⟩).fits ?_
    exact ⟨hsource, htotal⟩

/-- What a call puts on offer is a buffer, or a file that is not too large. -/
theorem apply_offers_fits (hZ : Z.FitsMemory) {op : FileOp} (hoffers : op.offers env disk = some t)
    (hx : (op.apply P Z env disk m).1.outbound[t]? = some x) : x.Fits := by
  cases op with
  | offerFile peerId relPath data purpose oldData autoPush tid =>
    simp only [FileOp.offers] at hoffers
    simp only [FileOp.apply, FileTransferManager.offerFileWithId] at hx
    by_cases hlarge : data.length > inlineMax
    · rw [if_pos hlarge] at hoffers
      cases hoffers
    · rw [if_neg hlarge] at hoffers
      simp only [hlarge, if_false, FileOp.offered] at hx
      rw [← Option.some.inj hoffers] at hx
      have hlen : (TransferSource.inline
          (FileTransferManager.payloadFor P Z data oldData).1).payloadLen < 2 ^ 63 :=
        length_payloadFor P hZ (Nat.not_lt.mp hlarge) oldData
      exact insertOffer_fits hlen rfl hx
  | offerFileFromPath peerId relPath path purpose autoPush tid =>
    simp only [FileOp.offers] at hoffers
    simp only [FileOp.apply, FileTransferManager.offerFileFromPathWithId] at hx
    rcases Option.eq_none_or_eq_some disk[path]? with hpath | ⟨content, hpath⟩
    · simp only [hpath] at hoffers
      cases hoffers
    · simp only [hpath] at hoffers hx
      by_cases hlarge : content.length > maxTransferSize
      · rw [if_pos hlarge] at hoffers
        cases hoffers
      · rw [if_neg hlarge] at hoffers
        simp only [hlarge, if_false, FileOp.offered] at hx
        rw [← Option.some.inj hoffers] at hx
        have hlen : (TransferSource.filePath path content.length).payloadLen < 2 ^ 63 :=
          lt_of_le_of_lt (Nat.not_lt.mp hlarge) (by decide)
        exact insertOffer_fits hlen rfl hx
  | _ => cases hoffers

end Offers

/-! ## What arrives -/

/-- The same chunks are held; the file may have been closed. -/
inductive SameChunks : TransferSink → TransferSink → Prop where
  | memory (chunks : ExtTreeMap Nat Bytes) : SameChunks (.memory chunks) (.memory chunks)
  | partFile (isOpen' isOpen : Bool) (path : String) (received : List Bool) (count : Nat) :
    SameChunks (.partFile isOpen' path received count) (.partFile isOpen path received count)

/-- One chunk more is held. -/
inductive OneMore (total : Nat) (chunk : Bytes) : TransferSink → TransferSink → Prop where
  | memory (chunks : ExtTreeMap Nat Bytes) {i : Nat} (hi : i < total) :
    OneMore total chunk (.memory (chunks.insert i chunk)) (.memory chunks)
  | partFile (isOpen : Bool) (path : String) (received : List Bool) (count : Nat) {i : Nat}
    (hi : received.getD i true = false) :
    OneMore total chunk (.partFile isOpen path (received.set i true) (count + 1))
      (.partFile isOpen path received count)

/-- The chunk a call brings, and its transfer. -/
def FileOp.chunkOf (P : Platform) : FileOp → Option (String × Bytes)
  | onChunkReceived t _ data => (P.decodeB64Std data).map fun chunk => (t, chunk)
  | onChunkBytesReceived t _ chunk => some (t, chunk)
  | _ => none

/-- What a call makes of a record that is there: the same offer, accepted only by
the user, with one chunk more at most, and that only if it was accepted. -/
structure Continues (P : Platform) (op : FileOp) (t : String) (x' x : InboundTransfer) :
    Prop where
  roomId : x'.roomId = x.roomId
  totalChunks : x'.totalChunks = x.totalChunks
  accepted : x'.state = .transferring → x.state = .transferring ∨ op.accepts = some t
  sink : SameChunks x'.sink x.sink ∨ x.state = .transferring ∧ ∃ chunk sink,
    op.chunkOf P = some (t, chunk) ∧ OneMore x.totalChunks chunk sink x.sink ∧
      SameChunks x'.sink sink

/-- Every record a call leaves was there. -/
def Retains (P : Platform) (op : FileOp) (m m' : FileTransferManager) : Prop :=
  ∀ (t : String) (x' : InboundTransfer), m'.inbound[t]? = some x' →
    ∃ x, m.inbound[t]? = some x ∧ Continues P op t x' x

theorem SameChunks.refl (sink : TransferSink) : SameChunks sink sink := by
  cases sink with
  | memory chunks => exact .memory chunks
  | partFile isOpen path received count => exact .partFile _ _ _ _ _

theorem SameChunks.trans {a b c : TransferSink} (h : SameChunks a b) (h' : SameChunks b c) :
    SameChunks a c := by
  cases h with
  | memory chunks => exact h'
  | partFile => cases h' with
    | partFile => exact .partFile _ _ _ _ _

section Inbound

variable {P : Platform} {Z : Zlib} {env : FileEnv} {disk : Disk} {m m' : FileTransferManager}
  {op : FileOp} {t : String} {x x' y : InboundTransfer}

theorem Continues.noted (hroom : x'.roomId = x.roomId) (htotal : x'.totalChunks = x.totalChunks)
    (hstate : x'.state = .transferring → x.state = .transferring)
    (hsink : SameChunks x'.sink x.sink) : Continues P op t x' x :=
  ⟨hroom, htotal, fun h => .inl (hstate h), .inl hsink⟩

theorem Continues.refl (x : InboundTransfer) : Continues P op t x x :=
  .noted rfl rfl id (.refl _)

theorem Retains.same (h : m'.inbound = m.inbound) : Retains P op m m' :=
  fun _ x' hx' => ⟨x', h ▸ hx', .refl x'⟩

theorem Retains.put (hx : m.inbound[t]? = some x) (hx' : m'.inbound[t]? = some x')
    (helse : ∀ u ≠ t, m'.inbound[u]? = m.inbound[u]?) (h : Continues P op t x' x) :
    Retains P op m m' := by
  intro u y hy
  by_cases hu : u = t
  · subst hu
    obtain rfl : x' = y := Option.some.inj (hx'.symm.trans hy)
    exact ⟨x, hx, h⟩
  · exact ⟨y, helse u hu ▸ hy, .refl y⟩

theorem Retains.set (hx : m.inbound[t]? = some x) (h : Continues P op t x' x) :
    Retains P op m (m.setInbound t x') :=
  .put hx (getElem?_setInbound _ _ _) (fun _ hu => getElem?_setInbound_of_ne m x' hu) h

theorem Retains.set_set (hx : m.inbound[t]? = some x) (h : Continues P op t x' x) :
    Retains P op m ((m.setInbound t y).setInbound t x') := by
  refine .put hx (getElem?_setInbound _ _ _) (fun u hu => ?_) h
  rw [getElem?_setInbound_of_ne _ _ hu, getElem?_setInbound_of_ne _ _ hu]

theorem failedInbound_sink (env : FileEnv) (x : InboundTransfer) :
    SameChunks (FileTransferManager.failedInbound env x).sink x.sink := by
  unfold FileTransferManager.failedInbound
  cases x.sink with
  | memory chunks => exact .memory chunks
  | partFile isOpen path received count => exact .partFile _ _ _ _ _

theorem failInbound_retains (reason : String) :
    Retains P op m (m.failInbound env disk t reason).1 := by
  unfold FileTransferManager.failInbound
  split
  · exact .same rfl
  · next x hx => exact .set hx (.noted rfl rfl nofun (failedInbound_sink env x))

theorem finishInbound_record (P : Platform) (Z : Zlib) (env : FileEnv) (disk : Disk)
    (hx : m.inbound[t]? = some x) :
    (m.finishInbound P Z env disk t).1 = m ∨ ∃ y z,
      (m.finishInbound P Z env disk t).1 = (m.setInbound t y).setInbound t z ∧
        z.roomId = x.roomId ∧ z.totalChunks = x.totalChunks ∧ z.state ≠ .transferring ∧
        SameChunks z.sink x.sink := by
  have hfail : ∀ (y : InboundTransfer) (d : Disk) (reason : String), y.roomId = x.roomId →
      y.totalChunks = x.totalChunks → SameChunks y.sink x.sink →
      ∃ z, ((m.setInbound t y).failInbound env d t reason).1 = (m.setInbound t y).setInbound t z ∧
        z.roomId = x.roomId ∧ z.totalChunks = x.totalChunks ∧ z.state ≠ .transferring ∧
        SameChunks z.sink x.sink := by
    intro y d reason hroom htotal hsink
    have hset := (failInbound_of_some env d reason (getElem?_setInbound m t y)).1
    exact ⟨_, hset, hroom, htotal, fun h => (by cases h), (failedInbound_sink env y).trans hsink⟩
  unfold FileTransferManager.finishInbound
  simp only [hx]
  split
  · exact .inl rfl
  · cases hsink : x.sink with
    | memory chunks =>
      have hmemory : x.isStreaming = false := by
        simp only [InboundTransfer.isStreaming, hsink]
      simp only [hmemory, Bool.false_eq_true, if_false]
      refine .inr ?_
      split
      · obtain ⟨z, hz⟩ := hfail { x with state := .verifying } disk _ rfl rfl (.refl _)
        exact ⟨_, z, hsink ▸ hz⟩
      · exact ⟨_, _, rfl, rfl, rfl, fun h => (by cases h), hsink ▸ .refl _⟩
    | partFile isOpen path received count =>
      have hpart : x.isStreaming = true := by
        simp only [InboundTransfer.isStreaming, hsink]
      simp only [hpart, if_true, FileTransferManager.finishStreaming, hx, hsink]
      cases isOpen with
      | false => exact .inl rfl
      | true =>
        refine .inr ?_
        have hclosed : SameChunks (.partFile false path received count) x.sink :=
          hsink ▸ .partFile _ _ _ _ _
        simp only [Bool.not_true, Bool.false_eq_true, if_false]
        split
        · obtain ⟨z, hz⟩ :=
            hfail { x with sink := .partFile false path received count } disk _ rfl rfl hclosed
          exact ⟨_, z, hsink ▸ hz⟩
        · split
          · obtain ⟨z, hz⟩ :=
              hfail { x with sink := .partFile false path received count } _ _ rfl rfl hclosed
            exact ⟨_, z, hsink ▸ hz⟩
          · exact ⟨_, _, rfl, rfl, rfl, fun h => (by cases h), hsink ▸ hclosed⟩

theorem finishInbound_retains (P : Platform) (Z : Zlib) (env : FileEnv) (disk : Disk)
    (hx : m.inbound[t]? = some x) (hy : Continues P op t y x) :
    Retains P op m ((m.setInbound t y).finishInbound P Z env disk t).1 := by
  rcases finishInbound_record P Z env disk (getElem?_setInbound m t y) with
    hsame | ⟨w, z, hset, hroom, htotal, hover, hsink⟩
  · rw [hsame]
    exact .set hx hy
  · rw [hset]
    refine .put hx (getElem?_setInbound _ _ _) (fun u hu => ?_) ?_
    · rw [getElem?_setInbound_of_ne _ _ hu, getElem?_setInbound_of_ne _ _ hu,
        getElem?_setInbound_of_ne _ _ hu]
    · refine ⟨hroom.trans hy.roomId, htotal.trans hy.totalChunks, fun h => absurd h hover, ?_⟩
      rcases hy.sink with hkept | ⟨hopen, chunk, sink, hchunk, hmore, hkept⟩
      · exact .inl (hsink.trans hkept)
      · exact .inr ⟨hopen, chunk, sink, hchunk, hmore, hsink.trans hkept⟩

theorem storeChunk_oneMore {disk' : Disk} {index : Nat} {chunk : Bytes}
    (h : x.storeChunk env disk index chunk = (y, disk', true)) :
    ∃ sink, y = { x with sink := sink } ∧ OneMore x.totalChunks chunk sink x.sink := by
  unfold InboundTransfer.storeChunk at h
  split at h
  · cases h
  · next hindex =>
    split at h
    · next chunks hsink =>
      split at h
      · cases h
      · cases h
        exact ⟨_, rfl, hsink ▸ .memory chunks (Nat.not_le.mp hindex)⟩
    · next isOpen path received count hsink =>
      split at h
      · cases h
      · next hnew =>
        split at h
        · cases h
        · split at h
          · cases h
          · cases h
            rw [Bool.not_eq_true] at hnew
            exact ⟨_, rfl, hsink ▸ .partFile _ _ _ _ hnew⟩

theorem onChunkBytesReceived_retains {index : Nat} {chunk : Bytes}
    (hchunk : op.chunkOf P = some (t, chunk)) :
    Retains P op m (m.onChunkBytesReceived P Z env disk t index chunk).1 := by
  unfold FileTransferManager.onChunkBytesReceived
  split
  · exact .same rfl
  · next x hx =>
    split
    · exact .same rfl
    · next hstate =>
      rw [not_not] at hstate
      split
      · exact failInbound_retains _
      · rcases hstore : x.storeChunk env disk index chunk with ⟨y, disk', stored⟩
        cases stored with
        | false => exact .same rfl
        | true =>
          obtain ⟨sink, rfl, hmore⟩ := storeChunk_oneMore hstore
          have hcont : Continues P op t { x with sink := sink } x :=
            ⟨rfl, rfl, fun _ => .inl hstate, .inr ⟨hstate, chunk, sink, hchunk, hmore, .refl _⟩⟩
          simp only
          split
          · exact finishInbound_retains P Z env disk' hx hcont
          · split
            · exact .set hx hcont
            · exact .set hx hcont

theorem onCompleteReceived_retains :
    Retains P op m (m.onCompleteReceived P Z env disk t).1 := by
  unfold FileTransferManager.onCompleteReceived
  split
  · exact .same rfl
  · next x hx =>
    split
    · exact .same rfl
    · split
      · exact .set hx (.noted rfl rfl id (.refl _))
      · rcases finishInbound_record P Z env disk hx with
          hsame | ⟨w, z, hset, hroom, htotal, hover, hsink⟩
        · rw [hsame]
          exact .same rfl
        · rw [hset]
          exact .set_set hx (.noted hroom htotal (fun h => absurd h hover) hsink)

theorem rejectTransfer_retains (reason : String) :
    Retains P op m (m.rejectTransfer t reason).1 := by
  unfold FileTransferManager.rejectTransfer
  split
  · exact .same rfl
  · next x hx => exact .set hx (.noted rfl rfl nofun (.refl _))

theorem cancelTransfer_retains : Retains P op m (m.cancelTransfer t).1 := by
  unfold FileTransferManager.cancelTransfer
  split
  · exact .same (inbound_cancelOutbound t)
  · next x hx =>
    split
    · exact rejectTransfer_retains _
    · exact .set hx (.noted rfl rfl nofun (.refl _))
    · exact .same (inbound_cancelOutbound t)

theorem Continues.accept (haccepts : op.accepts = some t) :
    Continues P op t { x with state := .transferring } x :=
  ⟨rfl, rfl, fun _ => .inr haccepts, .inl (.refl _)⟩

/-- Every call but an offer of a peer leaves the records that were there. -/
theorem apply_retains (P : Platform) (Z : Zlib) (env : FileEnv) (disk : Disk)
    (m : FileTransferManager) (op : FileOp)
    (hoffer : ∀ peerId roomId supernodeId o, op ≠ .onOfferReceived peerId roomId supernodeId o) :
    Retains P op m (op.apply P Z env disk m).1 := by
  cases houtward : op.outward with
  | true => exact .same (inbound_apply P Z env disk m houtward)
  | false =>
    cases op with
    | gc =>
      intro u y hy
      simp only [FileOp.apply, FileTransferManager.gc, ExtTreeMap.getElem?_filter',
        ExtTreeMap.getElem?_map] at hy
      obtain ⟨x, hx, rfl⟩ := Option.map_eq_some_iff.mp (Option.filter_eq_some_iff.mp hy).1
      exact ⟨x, hx, .noted rfl rfl id (.refl _)⟩
    | discardInbound t =>
      intro u y hy
      simp only [FileOp.apply, FileTransferManager.discardInbound, ExtTreeMap.getElem?_erase] at hy
      split at hy
      · cases hy
      · exact ⟨y, hy, .refl y⟩
    | onOfferReceived peerId roomId supernodeId o => exact absurd rfl (hoffer peerId roomId _ o)
    | acceptTransfer t =>
      simp only [FileOp.apply, FileTransferManager.acceptTransfer]
      split
      · exact .same rfl
      · next x hx =>
        split
        · exact .same rfl
        · exact .set hx (.accept rfl)
    | acceptTransferLocally t =>
      simp only [FileOp.apply, FileTransferManager.acceptTransferLocally]
      split
      · exact .same rfl
      · next x hx =>
        split
        · exact .same rfl
        · exact .set hx (.accept rfl)
    | rejectTransfer t reason => exact rejectTransfer_retains reason
    | cancelTransfer t => exact cancelTransfer_retains
    | onChunkReceived t i data =>
      simp only [FileOp.apply, FileTransferManager.onChunkReceived]
      rcases Option.eq_none_or_eq_some (P.decodeB64Std data) with hdata | ⟨chunk, hdata⟩
      · simp only [hdata]
        exact failInbound_retains _
      · simp only [hdata]
        refine onChunkBytesReceived_retains ?_
        rw [FileOp.chunkOf, hdata, Option.map_some]
    | onChunkBytesReceived t i chunk => exact onChunkBytesReceived_retains rfl
    | onCompleteReceived t => exact onCompleteReceived_retains
    | _ => cases houtward

end Inbound

/-! ## Every run -/

/-- The most chunks of a transfer that is held in memory. -/
def inlineChunks : Nat := chunkCount chunkSize inlineMax + 1

def InboundTransfer.heldBytes (x : InboundTransfer) : Nat :=
  match x.sink with
  | .memory chunks => (chunks.toList.map fun p => p.2.length).sum
  | .partFile .. => 0

def FileOp.pushesRoomFile : FileOp → Bool
  | onOfferReceived _ roomId _ o => roomId != "" && o.purpose == "update"
  | _ => false

/-- The call does not panic, brings no chunk above a size for a transfer in
memory, and offers no room file as an update. -/
structure FileLog.Careful (P : Platform) (Z : Zlib) (most : Nat) (L : FileLog)
    (s : FileEnv × FileOp) : Prop where
  runs : ¬ s.2.Panics P Z s.1 L.disk L.manager
  chunk : ∀ t chunk, s.2.chunkOf P = some (t, chunk) → ∀ x, L.manager.inbound[t]? = some x →
    x.isStreaming = false → chunk.length ≤ most
  offer : s.2.pushesRoomFile = false

/-- A transfer in memory has few chunks, each at its place and none above a
size. -/
def InboundTransfer.Small (most : Nat) (x : InboundTransfer) : Prop :=
  ∀ chunks, x.sink = .memory chunks → x.totalChunks ≤ inlineChunks ∧
    ∀ (i : Nat) (chunk : Bytes), chunks[i]? = some chunk →
      i < x.totalChunks ∧ chunk.length ≤ most

theorem InboundTransfer.Small.heldBytes_le {most : Nat} {x : InboundTransfer} (h : x.Small most) :
    x.heldBytes ≤ inlineChunks * most := by
  unfold InboundTransfer.heldBytes
  split
  · next chunks hsink =>
    obtain ⟨htotal, hchunks⟩ := h chunks hsink
    have hsize : chunks.toList.length ≤ x.totalChunks := by
      have hrange : chunks.keys ⊆ List.range x.totalChunks := by
        intro i hi
        obtain ⟨chunk, hchunk⟩ := Option.isSome_iff_exists.mp
          (ExtTreeMap.isSome_getElem?_iff_mem.mpr (ExtTreeMap.mem_keys.mp hi))
        exact List.mem_range.mpr (hchunks i chunk hchunk).1
      have hle := (List.subperm_of_subset ExtTreeMap.nodup_keys hrange).length_le
      rwa [ExtTreeMap.length_keys, List.length_range, ← ExtTreeMap.length_toList] at hle
    have hsum : (chunks.toList.map fun p => p.2.length).sum ≤ chunks.toList.length * most := by
      have hle := List.sum_le_card_nsmul (chunks.toList.map fun p => p.2.length) most ?_
      · rwa [List.length_map, Nat.nsmul_eq_mul] at hle
      · intro n hn
        obtain ⟨p, hp, rfl⟩ := List.mem_map.mp hn
        exact (hchunks p.1 p.2 (ExtTreeMap.mem_toList_iff_getElem?_eq_some.mp hp)).2
    exact hsum.trans (Nat.mul_le_mul_right _ (hsize.trans htotal))
  · exact Nat.zero_le _

theorem offerSink_ok {env : FileEnv} {disk : Disk} {o : FileTransferManager.OfferFields}
    {r : Disk × TransferSink} (h : FileTransferManager.offerSink env disk o = .ok r) :
    o.totalChunks ≤ chunkCount chunkSize o.size + 1 ∧ o.size ≤ maxTransferSize ∧
      ((∃ path, r.2 = .partFile true path (List.replicate o.totalChunks false) 0) ∨
        (o.size ≤ inlineMax ∧ r.2 = .memory ∅)) := by
  unfold FileTransferManager.offerSink at h
  split at h
  · cases h
  · next hlarge =>
    split at h
    · cases h
    · next hchunks =>
      rw [not_or] at hchunks
      refine ⟨Nat.not_lt.mp hchunks.2, Nat.not_lt.mp hlarge, ?_⟩
      split at h
      · split at h
        · cases h
          exact .inl ⟨_, rfl⟩
        · cases h
      · split at h
        · cases h
        · next hinline =>
          cases h
          exact .inr ⟨Nat.not_lt.mp hinline, rfl⟩

section Run

variable {P : Platform} {Z : Zlib} {L : FileLog} {s : FileEnv × FileOp} {t : String}
  {x x' : InboundTransfer} {most : Nat}

theorem step_inbound (hx' : (L.step P Z s).manager.inbound[t]? = some x') :
    (∃ peerId roomId supernodeId o r,
      s.2 = .onOfferReceived peerId roomId supernodeId o ∧
        FileTransferManager.offerSink s.1 L.disk o = .ok r ∧
        x' = FileTransferManager.newInbound s.1 peerId roomId supernodeId o r.2) ∨
      (s.2.admits s.1 L.disk ≠ some t ∧
        ∃ x, L.manager.inbound[t]? = some x ∧ Continues P s.2 t x' x) := by
  obtain ⟨env, op⟩ := s
  by_cases hoffer : ∃ peerId roomId supernodeId o,
      op = .onOfferReceived peerId roomId supernodeId o
  · obtain ⟨peerId, roomId, supernodeId, o, rfl⟩ := hoffer
    simp only [FileLog.step, FileOp.apply, FileTransferManager.onOfferReceivedWithRoom] at hx'
    simp only [FileOp.admits]
    rcases hsink : FileTransferManager.offerSink env L.disk o with reason | r
    · simp only [hsink] at hx'
      exact .inr ⟨fun h => (by cases h), x', hx', .refl x'⟩
    · simp only [hsink] at hx'
      by_cases ht : t = o.transferId
      · subst ht
        rw [getElem?_setInbound] at hx'
        exact .inl ⟨_, _, _, _, _, rfl, hsink, (Option.some.inj hx').symm⟩
      · rw [getElem?_setInbound_of_ne _ _ ht] at hx'
        exact .inr ⟨fun h => ht (Option.some.inj h).symm, x', hx', .refl x'⟩
  · obtain ⟨x, hx, hcont⟩ := apply_retains P Z env L.disk L.manager op
      (fun peerId roomId supernodeId o h => hoffer ⟨peerId, roomId, supernodeId, o, h⟩) t x' hx'
    refine .inr ⟨?_, x, hx, hcont⟩
    cases op with
    | onOfferReceived => exact absurd ⟨_, _, _, _, rfl⟩ hoffer
    | _ =>
      intro h
      cases h

/-- Every transfer is within its bounds, on both sides. -/
structure FileLog.Fits (L : FileLog) : Prop where
  keyed : L.manager.Keyed
  outbound : ∀ (t : String) (x : OutboundTransfer), L.manager.outbound[t]? = some x → x.Fits
  inbound : ∀ (t : String) (x : InboundTransfer), L.manager.inbound[t]? = some x → x.Fits

theorem Continues.fits {op : FileOp} (h : Continues P op t x' x) (hfits : x.Fits) : x'.Fits := by
  have hkept : ∀ {sink sink' : TransferSink}, SameChunks sink' sink →
      (∀ isOpen path received count, sink = .partFile isOpen path received count →
        received.length = x.totalChunks ∧ count = received.count true) →
      ∀ isOpen path received count, sink' = .partFile isOpen path received count →
        received.length = x.totalChunks ∧ count = received.count true := by
    intro sink sink' hsame hpart isOpen path received count hsink'
    subst hsink'
    cases hsame with
    | partFile => exact hpart _ _ _ _ rfl
  refine ⟨h.totalChunks ▸ hfits.totalChunks, ?_⟩
  rw [h.totalChunks]
  rcases h.sink with hsame | ⟨-, chunk, sink, -, hmore, hsame⟩
  · exact hkept hsame hfits.partFile
  · refine hkept hsame fun isOpen path received count hsink => ?_
    subst hsink
    generalize hold : x.sink = old at hmore
    cases hmore with
    | @partFile _ _ received count i hi =>
      obtain ⟨hlen, hcount⟩ := hfits.partFile _ _ _ _ hold
      refine ⟨(List.length_set ..).trans hlen, ?_⟩
      have hin : i < received.length := by
        by_contra hout
        rw [List.getD_eq_getElem?_getD, List.getElem?_eq_none (Nat.not_lt.mp hout)] at hi
        cases hi
      rw [List.getD_eq_getElem?_getD, List.getElem?_eq_getElem hin, Option.getD_some] at hi
      rw [List.count_set hin, hcount, hi]
      rfl

theorem FileLog.Fits.step (h : L.Fits) (hZ : Z.FitsMemory) : (L.step P Z s).Fits := by
  refine ⟨keyed_step h.keyed, fun t x' hx' => ?_, fun t x' hx' => ?_⟩
  · rcases (apply_outboundStep P Z s.1 s.2 h.keyed).keeps t x' hx' with
      ⟨hoffered, -⟩ | ⟨x, hx, hsame, -⟩
    · exact apply_offers_fits hZ hoffered hx'
    · exact hsame.fits (h.outbound t x hx)
  · rcases step_inbound hx' with ⟨_, _, _, o, r, -, hsink, rfl⟩ | ⟨-, x, hx, hcont⟩
    · obtain ⟨htotal, hsize, hput⟩ := offerSink_ok hsink
      refine ⟨?_, fun isOpen path received count hpart => ?_⟩
      · exact htotal.trans (Nat.add_le_add_right (chunkCount_mono hsize) 1)
      · rcases hput with ⟨p, hnew⟩ | ⟨-, hnew⟩
        · cases hnew.symm.trans hpart
          refine ⟨List.length_replicate, ?_⟩
          rw [List.count_replicate]
          rfl
        · cases hnew.symm.trans hpart
    · exact hcont.fits (h.inbound t x hx)

theorem FileLog.Fits.start (disk : Disk) : (FileLog.start disk).Fits := by
  refine ⟨keyed_start disk, fun t x hx => ?_, fun t x hx => ?_⟩
  · simp [FileLog.start, FileTransferManager.new] at hx
  · simp [FileLog.start, FileTransferManager.new] at hx

theorem small_step (hsmall : ∀ (t : String) (x : InboundTransfer),
      L.manager.inbound[t]? = some x → x.Small most)
    (hcareful : L.Careful P Z most s) (hx' : (L.step P Z s).manager.inbound[t]? = some x') :
    x'.Small most := by
  rcases step_inbound hx' with ⟨_, _, _, o, r, -, hsink, rfl⟩ | ⟨-, x, hx, hcont⟩
  · intro chunks hmemory
    obtain ⟨htotal, -, hput⟩ := offerSink_ok hsink
    rcases hput with ⟨p, hnew⟩ | ⟨hinline, hnew⟩
    · cases hnew.symm.trans hmemory
    · cases hnew.symm.trans hmemory
      refine ⟨htotal.trans (Nat.add_le_add_right (chunkCount_mono hinline) 1), ?_⟩
      intro i chunk hchunk
      simp at hchunk
  · intro chunks hmemory
    rw [hcont.totalChunks]
    rcases hcont.sink with hsame | ⟨-, chunk, sink, hchunk, hmore, hsame⟩
    · rw [hmemory] at hsame
      generalize hold : x.sink = old at hsame
      cases hsame
      exact hsmall t x hx chunks hold
    · rw [hmemory] at hsame
      cases hsame
      generalize hold : x.sink = old at hmore
      cases hmore with
      | @memory chunks i hi =>
        obtain ⟨htotal, hheld⟩ := hsmall t x hx chunks hold
        have hmemory : x.isStreaming = false := by
          simp only [InboundTransfer.isStreaming, hold]
        refine ⟨htotal, fun j c hc => ?_⟩
        rw [ExtTreeMap.getElem?_insert] at hc
        split at hc
        · next hij =>
          cases hc
          rw [compare_eq_iff_eq] at hij
          exact ⟨hij ▸ hi, hcareful.chunk t chunk hchunk x hx hmemory⟩
        · exact hheld j c hc

/-- A room's file that the user did not accept has no chunk and takes none. -/
def FileLog.Waits (L : FileLog) : Prop :=
  ∀ (t : String) (x : InboundTransfer), L.manager.inbound[t]? = some x → x.roomId ≠ "" →
    t ∉ L.accepted → x.chunksReceived = 0 ∧ x.state ≠ .transferring

theorem SameChunks.receivedCount {sink sink' : TransferSink} (h : SameChunks sink' sink) :
    sink'.receivedCount = sink.receivedCount := by
  cases h with
  | memory => rfl
  | partFile => rfl

theorem FileLog.Waits.step (h : L.Waits) (hcareful : L.Careful P Z most s) :
    (L.step P Z s).Waits := by
  intro t x' hx' hroom hnot
  rcases step_inbound hx' with ⟨peerId, roomId, _, o, r, hop, hsink, rfl⟩ | ⟨hadmits, x, hx, hcont⟩
  · obtain ⟨-, -, hput⟩ := offerSink_ok hsink
    have hupdate : o.purpose ≠ "update" := by
      intro hupdate
      have hpushes := hcareful.offer
      rw [hop, FileOp.pushesRoomFile, hupdate, beq_self_eq_true, Bool.and_true,
        bne_eq_false_iff_eq] at hpushes
      exact hroom hpushes
    constructor
    · rcases hput with ⟨p, hnew⟩ | ⟨-, hnew⟩
      · simp only [InboundTransfer.chunksReceived, FileTransferManager.newInbound, hnew,
          TransferSink.receivedCount]
      · simp only [InboundTransfer.chunksReceived, FileTransferManager.newInbound, hnew,
          TransferSink.receivedCount, ExtTreeMap.size_empty]
    · simp only [FileTransferManager.newInbound, if_neg hupdate]
      intro hstate
      cases hstate
  · have hnone : s.2.accepts ≠ some t ∧ t ∉ L.accepted := by
      simp only [FileLog.step, List.mem_append, Option.mem_toList, mem_forget, not_or,
        not_and] at hnot
      exact ⟨hnot.1, fun hin => hnot.2 hin hadmits⟩
    obtain ⟨hzero, hidle⟩ := h t x hx (hcont.roomId ▸ hroom) hnone.2
    constructor
    · rcases hcont.sink with hsame | ⟨hopen, -⟩
      · exact hsame.receivedCount.trans hzero
      · exact absurd hopen hidle
    · intro hstate
      rcases hcont.accepted hstate with hopen | haccepts
      · exact hidle hopen
      · exact hnone.1 haccepts

/-- A run of the calls with their checks panics just when some call of it is the
case that was said. -/
theorem runChecked_panicsIff (hsha : Sha256Size P) (hZ : Z.FitsMemory) (disk : Disk)
    (steps : List (FileEnv × FileOp)) :
    PanicsIff (steps.foldlM (FileLog.stepChecked P Z) (.start disk))
      (run (FileLog.step P Z) (.start disk) steps)
      (¬ Along (FileLog.step P Z) (fun L s => ¬ s.2.Panics P Z s.1 L.disk L.manager)
        (.start disk) steps) := by
  refine .foldlM FileLog.Fits (fun L s hL => hL.step hZ) (fun L s hL => ?_) (.start disk) steps
  have hcall := applyChecked_panicsIff hsha hZ s.1 L.disk hL.inbound hL.outbound s.2
  exact hcall.followed (L.after s)

/-- In every run of careful calls none panics, no transfer holds more in memory
than its chunks can take, and no file of a room has a chunk before the user
accepted it. A delta is always applied within its bounds. -/
theorem files_are_safe (hsha : Sha256Size P) (hZ : Z.FitsMemory) (most : Nat) (disk : Disk)
    (steps : List (FileEnv × FileOp))
    (hcareful : Along (FileLog.step P Z) (FileLog.Careful P Z most) (.start disk) steps) :
    steps.foldlM (FileLog.stepChecked P Z) (.start disk) =
      some (run (FileLog.step P Z) (.start disk) steps) ∧
    (∀ (t : String) (x : InboundTransfer),
      (run (FileLog.step P Z) (.start disk) steps).manager.inbound[t]? = some x →
        x.heldBytes ≤ inlineChunks * most ∧
        (x.roomId ≠ "" → t ∉ (run (FileLog.step P Z) (.start disk) steps).accepted →
          x.chunksReceived = 0)) ∧
    ∀ old delta, applyDeltaChecked Z old delta = some (applyDelta Z old delta) ∧
      ∀ out, applyDelta Z old delta = .ok out → out.length ≤ maxTransferSize := by
  refine ⟨?_, fun t x hx => ⟨?_, fun hroom hnot => ?_⟩, fun old delta => ⟨?_, fun out hout => ?_⟩⟩
  · refine (runChecked_panicsIff hsha hZ disk steps).returns ?_
    rw [not_not]
    exact hcareful.imp_inv (fun _ => True) trivial (fun _ _ _ _ => trivial) fun _ _ _ h => h.runs
  · refine (hcareful.run_inv (fun L => ∀ (t : String) (x : InboundTransfer),
      L.manager.inbound[t]? = some x → x.Small most) ?_ ?_ t x hx).heldBytes_le
    · intro t x hx
      simp [FileLog.start, FileTransferManager.new] at hx
    · exact fun L s hsmall hs t x hx => small_step hsmall hs hx
  · refine (hcareful.run_inv FileLog.Waits ?_ (fun L s hL hs => hL.step hs) t x hx hroom hnot).1
    intro t x hx
    simp [FileLog.start, FileTransferManager.new] at hx
  · exact applyDeltaChecked_eq Z old delta
  · exact length_applyDelta hout

end Run

/-! ## Runs that are not careful -/

/-- A file in memory arrives, of which the offer said a hash. -/
def hiArrives (sha256 : String) : List (FileEnv × FileOp) :=
  [(hiEnv, .onOfferReceived "bob" "" "" (hiOffer "file" sha256)), (hiEnv, .acceptTransfer "u"),
    (hiEnv, .onChunkReceived "u" 0 "aGk="), (hiEnv, .onCompleteReceived "u")]

/-- A room's file is offered as an update, and a chunk of it comes. -/
def hiPushed : List (FileEnv × FileOp) :=
  [(hiEnv, .onOfferReceived "bob" "r" "s" (hiOffer "update" "00")),
    (hiEnv, .onChunkReceived "u" 0 "aGk=")]

def longChunk (n : Nat) : List (FileEnv × FileOp) :=
  [(hiEnv, .onOfferReceived "bob" "" "" (hiOffer "update" "00")),
    (hiEnv, .onChunkBytesReceived "u" 0 (List.replicate n 0))]

theorem offerSink_hiOffer (purpose sha256 : String) :
    FileTransferManager.offerSink hiEnv ∅ (hiOffer purpose sha256) = .ok (∅, .memory ∅) := by
  have hsize : ¬ (hiOffer purpose sha256).size > maxTransferSize := by
    simp only [hiOffer]
    decide
  have hcount : ¬ ((hiOffer purpose sha256).totalChunks = 0 ∨ (hiOffer purpose sha256).totalChunks >
      chunkCount chunkSize (hiOffer purpose sha256).size + 1) := by
    simp only [hiOffer]
    decide
  have hinline : ¬ (hiOffer purpose sha256).size > inlineMax := by
    simp only [hiOffer]
    decide
  unfold FileTransferManager.offerSink
  rw [if_neg hsize, if_neg hcount, if_neg fun h => hinline h.1, if_neg hinline]

theorem onChunkBytesReceived_holds (P : Platform) (Z : Zlib) (env : FileEnv) (disk : Disk)
    {m : FileTransferManager} {t : String} {x : InboundTransfer} {chunks : ExtTreeMap Nat Bytes}
    (hx : m.inbound[t]? = some x) (hstate : x.state = .transferring)
    (hsink : x.sink = .memory chunks) (hwaits : x.completeRequested = false) {i : Nat}
    (hi : i < x.totalChunks) (hnew : chunks.contains i = false) (chunk : Bytes) :
    ∃ y, (m.onChunkBytesReceived P Z env disk t i chunk).1.inbound[t]? = some y ∧
      y.isStreaming = false ∧ chunk.length ≤ y.heldBytes := by
  have hstore : x.storeChunk env disk i chunk =
      ({ x with sink := .memory (chunks.insert i chunk) }, disk, true) := by
    unfold InboundTransfer.storeChunk
    rw [if_neg (Nat.not_le.mpr hi), hsink]
    simp only [hnew, Bool.false_eq_true, if_false]
  refine ⟨{ x with sink := .memory (chunks.insert i chunk) }, ?_, rfl, ?_⟩
  · simp only [FileTransferManager.onChunkBytesReceived, hx, hstate, ne_eq, not_true_eq_false,
      if_false, if_neg (Nat.not_le.mpr hi), hstore, hwaits, Bool.false_and, Bool.false_eq_true]
    split
    · exact getElem?_setInbound _ _ _
    · exact getElem?_setInbound _ _ _
  · refine List.single_le_sum (fun _ _ => Nat.zero_le _) _ (List.mem_map.mpr ⟨(i, chunk), ?_, rfl⟩)
    rw [ExtTreeMap.mem_toList_iff_getElem?_eq_some, ExtTreeMap.getElem?_insert_self]

theorem longChunk_held (n : Nat) : ∃ x,
    (run (FileLog.step hiPlatform storeZlib) (.start ∅) (longChunk n)).manager.inbound["u"]? =
      some x ∧ x.isStreaming = false ∧ n ≤ x.heldBytes := by
  have hoffered : (FileTransferManager.new.onOfferReceivedWithRoom hiEnv ∅ "bob" "" ""
      (hiOffer "update" "00")).1.inbound["u"]? =
        some (FileTransferManager.newInbound hiEnv "bob" "" "" (hiOffer "update" "00")
          (.memory ∅)) := by
    simp only [FileTransferManager.onOfferReceivedWithRoom, offerSink_hiOffer]
    exact getElem?_setInbound _ _ _
  obtain ⟨x, hx, hmemory, hheld⟩ := onChunkBytesReceived_holds hiPlatform storeZlib hiEnv
    (FileTransferManager.new.onOfferReceivedWithRoom hiEnv ∅ "bob" "" ""
      (hiOffer "update" "00")).2.1 hoffered rfl rfl rfl Nat.one_pos rfl (List.replicate n 0)
  rw [List.length_replicate] at hheld
  exact ⟨x, hx, hmemory, hheld⟩

/-- A hash of two bytes panics, a chunk of a room's file is held before the user
accepted it, and no number bounds what a small file takes. -/
theorem files_unsafe :
    ((hiArrives "00").foldlM (FileLog.stepChecked hiPlatform storeZlib) (.start ∅)).isNone = true ∧
    (run (FileLog.step hiPlatform storeZlib) (.start ∅) hiPushed).accepted = [] ∧
    (run (FileLog.step hiPlatform storeZlib) (.start ∅) hiPushed).manager.inbound["u"]?.map
      (fun x => (x.roomId, x.chunksReceived)) = some ("r", 1) ∧
    ¬ ∃ most, ∀ steps x,
      (run (FileLog.step hiPlatform storeZlib) (.start ∅) steps).manager.inbound["u"]? = some x →
        x.isStreaming = false → x.heldBytes ≤ most := by
  have hruns : ((hiArrives "00").foldlM (FileLog.stepChecked hiPlatform storeZlib)
        (.start ∅)).isNone = true ∧
      (run (FileLog.step hiPlatform storeZlib) (.start ∅) hiPushed).accepted = [] ∧
      (run (FileLog.step hiPlatform storeZlib) (.start ∅) hiPushed).manager.inbound["u"]?.map
        (fun x => (x.roomId, x.chunksReceived)) = some ("r", 1) := by
    decide +kernel
  refine ⟨hruns.1, hruns.2.1, hruns.2.2, ?_⟩
  rintro ⟨most, hmost⟩
  obtain ⟨x, hx, hmemory, hheld⟩ := longChunk_held (most + 1)
  have hle := hmost _ x hx hmemory
  omega

/-- With its own hash the file arrives, and two bytes are held for it. -/
theorem hiArrives_safe :
    ((hiArrives (hiPlatform.sha256Hex hiBytes)).foldlM (FileLog.stepChecked hiPlatform storeZlib)
        (.start ∅)).isSome = true ∧
    ∀ x, (run (FileLog.step hiPlatform storeZlib) (.start ∅)
        (hiArrives (hiPlatform.sha256Hex hiBytes))).manager.inbound["u"]? = some x →
      x.heldBytes ≤ inlineChunks * 2 := by
  have hsha : Sha256Size hiPlatform := fun _ => rfl
  have hZ : storeZlib.FitsMemory := by
    intro data level out hdata hout
    cases hout
    exact lt_of_le_of_lt hdata (by decide)
  have hthrough : ((hiArrives (hiPlatform.sha256Hex hiBytes)).foldlM
      (FileLog.stepChecked hiPlatform storeZlib) (.start ∅)).isSome = true := by
    decide +kernel
  have hpanics := runChecked_panicsIff hsha hZ ∅ (hiArrives (hiPlatform.sha256Hex hiBytes))
  have hquiet : Along (FileLog.step hiPlatform storeZlib)
      (fun L s => ¬ s.2.Panics hiPlatform storeZlib s.1 L.disk L.manager) (.start ∅)
      (hiArrives (hiPlatform.sha256Hex hiBytes)) := by
    by_contra hbad
    rw [hpanics.panics hbad] at hthrough
    cases hthrough
  have hcareful : Along (FileLog.step hiPlatform storeZlib)
      (FileLog.Careful hiPlatform storeZlib 2) (.start ∅)
      (hiArrives (hiPlatform.sha256Hex hiBytes)) := by
    refine ⟨⟨hquiet.1, nofun, rfl⟩, ⟨hquiet.2.1, nofun, rfl⟩, ⟨hquiet.2.2.1, ?_, rfl⟩,
      ⟨hquiet.2.2.2.1, nofun, rfl⟩, trivial⟩
    intro t chunk hchunk x hx hmemory
    cases hchunk
    exact Nat.le_refl 2
  obtain ⟨hruns, hheld, -⟩ := files_are_safe hsha hZ 2 ∅ _ hcareful
  refine ⟨?_, fun x hx => (hheld "u" x hx).1⟩
  rw [hruns]
  rfl

end ConquerD.Client
