import ConquerD.Client.Verify.FileStates

/-!
# File transfers without panics

The calls of a file manager with their checks give what the plain ones give. One
slice can fail, of the hash an offer came with, when the content in memory does
not have it: it is said exactly when. Deltas are read within their bounds, the
chunks of a small file take bounded room, and a room's file is stored only after
the user accepted it, in every run that stays clear of three kinds of offer and
chunk.
-/

namespace ConquerD.Client

open Std (ExtTreeMap)
open Lib.Chunks Lib.Encoding Lib.Run Lib.Slice Wire

/-! ## Deltas -/

theorem fromBeBytes_lt {word : Bytes} (h : word.length = 4) : fromBeBytes word < 2 ^ 32 := by
  have hstep : ∀ (n : Nat) (b : UInt8) (k : Nat), n < k → n * 256 + b.toNat < k * 256 := by
    intro n b k hn
    have hb := b.toNat_lt
    omega
  have hfold : ∀ (bs : Bytes) (n k : Nat), n < k →
      bs.foldl (fun n b => n * 256 + b.toNat) n < k * 256 ^ bs.length := by
    intro bs
    induction bs with
    | nil => intro n k hn; simpa using hn
    | cons b bs ih =>
      intro n k hn
      have hrest := ih _ _ (hstep n b k hn)
      rwa [List.foldl_cons, List.length_cons, Nat.pow_succ', ← Nat.mul_assoc]
  have hword := hfold word 0 1 Nat.one_pos
  rw [h] at hword
  exact hword

section Delta

variable {old raw out : Bytes} {off : Nat}

theorem readU32_eq (hraw : raw.length ≤ maxTransferSize) (hoff : off + 4 ≤ raw.length) :
    readU32 raw off = some (fromBeBytes ((raw.drop off).take 4)) := by
  have hword : off + 4 < usizeBound := by
    simp only [maxTransferSize, usizeBound] at hraw ⊢
    omega
  simp only [readU32, addUsize_of_lt hword, slice?_add hoff, Option.bind_eq_bind,
    Option.bind_some, Option.pure_def]

/-- Every opcode is read within its stream, and copies from within the old
file. -/
theorem applyOpcodesChecked_eq (old : Bytes) (hraw : raw.length ≤ maxTransferSize) (turns : Nat)
    (off : Nat) (out : Bytes) :
    applyOpcodesChecked old raw turns off out = some (applyOpcodes old turns (raw.drop off) out) := by
  have hbound : maxTransferSize + 2 ^ 33 < usizeBound := by decide
  induction turns generalizing off out with
  | zero => rfl
  | succ turns ih =>
    by_cases hoff : off < raw.length
    · have hadd : ∀ n, off + n ≤ raw.length + 2 ^ 33 → addUsize off n = some (off + n) :=
        fun n hn => addUsize_of_lt (by omega)
      have hcons : raw.drop off = raw[off] :: raw.drop (off + 1) :=
        List.drop_eq_getElem_cons hoff
      have hlen : (raw.drop (off + 1)).length = raw.length - (off + 1) := List.length_drop
      rw [hcons, applyOpcodesChecked, if_pos hoff, List.getElem?_eq_getElem hoff, hadd 1 (by omega)]
      simp only [Option.bind_eq_bind, Option.bind_some, applyOpcodes, hlen]
      by_cases hcopy : raw[off] = 0
      · rw [if_pos hcopy, if_pos hcopy]
        have hstop : addUsize (off + 1) 8 = some (off + 1 + 8) := addUsize_of_lt (by omega)
        rw [hstop, Option.bind_some]
        by_cases hshort : raw.length - (off + 1) < 8
        · rw [if_pos (by omega), if_pos hshort]
        · rw [if_neg (by omega), if_neg hshort, readU32_eq hraw (by omega),
            readU32_eq hraw (by omega)]
          simp only [Option.bind_some, List.drop_drop]
          split
          · rfl
          · next hin =>
            split
            · rfl
            · rw [slice?_add (by omega), Option.bind_some, ih]
      · rw [if_neg hcopy, if_neg hcopy]
        by_cases hinsert : raw[off] = 1
        · rw [if_pos hinsert, if_pos hinsert]
          have hbody : addUsize (off + 1) 4 = some (off + 1 + 4) := addUsize_of_lt (by omega)
          rw [hbody, Option.bind_some]
          by_cases hshort : raw.length - (off + 1) < 4
          · rw [if_pos (by omega), if_pos hshort]
          · rw [if_neg (by omega), if_neg hshort, readU32_eq hraw (by omega), Option.bind_some]
            have hnum : fromBeBytes ((raw.drop (off + 1)).take 4) < 2 ^ 32 := by
              refine fromBeBytes_lt ?_
              rw [List.length_take, hlen]
              omega
            generalize fromBeBytes ((raw.drop (off + 1)).take 4) = len at hnum ⊢
            rw [addUsize_of_lt (show off + 1 + 4 + len < usizeBound by omega), Option.bind_some]
            by_cases hpast : 4 + len > raw.length - (off + 1)
            · rw [if_pos (by omega), if_pos hpast]
            · rw [if_neg (by omega), if_neg hpast]
              split
              · rfl
              · rw [slice?_add (by omega), Option.bind_some, ih]
                simp only [List.drop_drop, Nat.add_assoc]
        · rw [if_neg hinsert, if_neg hinsert]
    · rw [applyOpcodesChecked, if_neg hoff, List.drop_eq_nil_of_le (by omega)]
      rfl

theorem length_applyOpcodes {turns : Nat} {raw out out' : Bytes}
    (hout : out.length ≤ maxTransferSize) (h : applyOpcodes old turns raw out = .ok out') :
    out'.length ≤ maxTransferSize := by
  induction turns generalizing raw out with
  | zero =>
    cases h
    exact hout
  | succ turns ih =>
    cases raw with
    | nil =>
      cases h
      exact hout
    | cons tag raw =>
      simp only [applyOpcodes] at h
      split at h
      · split at h
        · cases h
        · split at h
          · cases h
          · split at h
            · cases h
            · next hroom =>
              refine ih ?_ h
              rw [List.length_append, List.length_take]
              omega
      · split at h
        · split at h
          · cases h
          · split at h
            · cases h
            · split at h
              · cases h
              · next hroom =>
                refine ih ?_ h
                rw [List.length_append, List.length_take]
                omega
        · cases h

end Delta

theorem length_zlibDecompress {Z : Zlib} {data out : Bytes} (h : zlibDecompress Z data = .ok out) :
    out.length ≤ maxTransferSize := by
  unfold zlibDecompress at h
  split at h
  · cases h
  · split at h
    · cases h
    · cases h
      omega

theorem applyDeltaChecked_eq (Z : Zlib) (old delta : Bytes) :
    applyDeltaChecked Z old delta = some (applyDelta Z old delta) := by
  have hmagic : deltaMagic.length = 4 := rfl
  unfold applyDeltaChecked applyDelta
  by_cases hshort : delta.length < deltaMagic.length
  · rw [if_pos hshort, if_pos (.inl hshort)]
  · rw [hmagic] at hshort ⊢
    have hfront : slice? delta 0 4 = some (delta.take 4) := by
      have hslice := slice?_add (show 0 + 4 ≤ delta.length by omega)
      rwa [Nat.zero_add, List.drop_zero] at hslice
    have hback : slice? delta 4 delta.length = some (delta.drop 4) := by
      rw [slice?, if_pos ⟨by omega, Nat.le_refl _⟩, List.take_of_length_le]
      rw [List.length_drop]
    rw [if_neg hshort, hfront]
    simp only [Option.bind_eq_bind, Option.bind_some, hback]
    by_cases hwrong : delta.take 4 ≠ deltaMagic
    · rw [if_pos hwrong, if_pos (.inr hwrong)]
    · rw [if_neg hwrong, if_neg (by rintro (h | h) <;> contradiction)]
      cases hraw : zlibDecompress Z (delta.drop 4) with
      | error e => rfl
      | ok raw =>
        simp only
        split
        · rfl
        · rw [applyOpcodesChecked_eq old (length_zlibDecompress hraw), List.drop_zero]

theorem length_applyDelta {Z : Zlib} {old delta out : Bytes} (h : applyDelta Z old delta = .ok out) :
    out.length ≤ maxTransferSize := by
  unfold applyDelta at h
  split at h
  · cases h
  · split at h
    · cases h
    · split at h
      · cases h
      · exact length_applyOpcodes (Nat.zero_le _) h

/-! ## What is sent -/

structure OutboundTransfer.Fits (x : OutboundTransfer) : Prop where
  payloadLen : x.source.payloadLen < 2 ^ 63
  totalChunks : x.totalChunks = chunkCount chunkSize x.source.payloadLen

theorem SameFile.fits {x x' : OutboundTransfer} (h : SameFile x' x) (hfits : x.Fits) : x'.Fits :=
  ⟨h.source ▸ hfits.payloadLen, h.totalChunks ▸ h.source ▸ hfits.totalChunks⟩

theorem chunkCount_lt {length : Nat} (h : length < 2 ^ 63) : chunkCount chunkSize length < 2 ^ 48 := by
  unfold chunkCount
  rw [Nat.max_lt]
  refine ⟨?_, by decide⟩
  simp only [chunkSize]
  omega

section Outbound

variable {P : Platform} {Z : Zlib} {env : FileEnv} {disk : Disk} {m : FileTransferManager}
  {x : OutboundTransfer}

theorem readChunkChecked_eq {source : TransferSource} (h : source.payloadLen < 2 ^ 63)
    (index : Nat) :
    source.readChunkChecked env disk index = some (source.readChunk env disk index) := by
  unfold TransferSource.readChunkChecked TransferSource.readChunk
  by_cases hword : index * chunkSize < usizeBound
  · rw [mulUsize_of_lt hword, Option.elim_some]
    unfold TransferSource.readAtChecked
    simp only
    by_cases hpast : index * chunkSize ≥ source.payloadLen ∧ ¬ (source.payloadLen = 0 ∧ index = 0)
    · rw [if_pos hpast, if_pos hpast]
    · rw [if_neg hpast, if_neg hpast]
      have hin : index * chunkSize ≤ source.payloadLen := by
        by_contra hout
        refine hpast ⟨by omega, fun hzero => ?_⟩
        rw [hzero.2, Nat.zero_mul] at hout
        omega
      rw [subUsize_of_le hin]
      cases source with
      | inline data =>
        simp only [TransferSource.payloadLen] at h hin
        have hstop : index * chunkSize +
            min chunkSize (data.length - index * chunkSize) ≤ data.length := by
          omega
        have hsum : index * chunkSize + min chunkSize (data.length - index * chunkSize) <
            usizeBound := by
          simp only [usizeBound]
          omega
        rw [Option.bind_eq_bind, Option.bind_some]
        simp only [TransferSource.payloadLen]
        rw [addUsize_of_lt hsum, Option.bind_eq_bind, Option.bind_some, slice?_add hstop,
          Option.bind_some]
        rfl
      | filePath path len => rw [Option.bind_eq_bind, Option.bind_some]
  · have hzero : index ≠ 0 := by
      rintro rfl
      rw [Nat.zero_mul] at hword
      exact hword (Nat.two_pow_pos 64)
    have hpast : index * chunkSize ≥ source.payloadLen := by
      simp only [usizeBound] at hword
      omega
    rw [mulUsize, if_neg hword, Option.elim_none, if_pos ⟨hpast, fun hz => hzero hz.2⟩]

theorem emitChunksChecked_eq (budget : Nat) (hfits : x.Fits) :
    emitChunksChecked P env disk budget x = some (emitChunks P env disk budget x) := by
  induction budget generalizing x with
  | zero => rfl
  | succ budget ih =>
    unfold emitChunksChecked emitChunks
    split
    · next hleft =>
      rw [readChunkChecked_eq hfits.payloadLen]
      simp only [Option.bind_eq_bind, Option.bind_some]
      have hsent : x.chunksSent + 1 < usizeBound := by
        have htotal := chunkCount_lt hfits.payloadLen
        rw [← hfits.totalChunks] at htotal
        simp only [usizeBound]
        omega
      cases x.source.readChunk env disk x.chunksSent with
      | none => rfl
      | some chunk =>
        simp only [addUsize_of_lt hsent, Option.bind_some]
        have hnext : ({ x with chunksSent := x.chunksSent + 1 } : OutboundTransfer).Fits :=
          ⟨hfits.payloadLen, hfits.totalChunks⟩
        rw [ih hnext]
        rfl
    · rfl

/-- The budget of a slice is one for which there is room. -/
def FitsBudget (budget : Nat) : Prop :=
  (budget * 2 + 1) * eventBytes < 2 ^ 63

theorem nextChunkEventsChecked_panicsIff (P : Platform) (env : FileEnv) (disk : Disk) (budget : Nat)
    (hfits : x.Fits) :
    PanicsIff (nextChunkEventsChecked P env disk budget x) (nextChunkEvents P env disk budget x)
      (¬ FitsBudget budget) := by
  constructor
  · intro hlarge
    simp only [FitsBudget] at hlarge
    simp only [nextChunkEventsChecked, Option.bind_eq_bind]
    unfold mulUsize
    split
    · simp only [Option.bind_some]
      unfold addUsize
      split
      · simp only [Option.bind_some]
        split
        · simp only [Option.bind_some]
          rw [withCapacity, if_neg hlarge, Option.bind_none]
        · rfl
      · rfl
    · rfl
  · intro hroom
    rw [not_not] at hroom
    have hbytes : (budget * 2 + 1) * eventBytes < usizeBound := by
      simp only [FitsBudget, usizeBound] at hroom ⊢
      omega
    have hadd : budget * 2 + 1 < usizeBound := by
      simp only [eventBytes] at hbytes
      omega
    have hmul : budget * 2 < usizeBound := by omega
    simp only [nextChunkEventsChecked, mulUsize_of_lt hmul, addUsize_of_lt hadd,
      mulUsize_of_lt hbytes, withCapacity_of_lt hroom, emitChunksChecked_eq budget hfits,
      Option.bind_eq_bind, Option.bind_some, nextChunkEvents]
    generalize emitChunks P env disk budget x = r
    obtain ⟨x', evs, read⟩ := r
    cases read with
    | false => rfl
    | true =>
      simp only
      split
      · rfl
      · rfl

theorem streamChecked_panicsIff (t : String) (budget : Nat) (hfits : x.Fits)
    (told : List TransferEvent) :
    PanicsIff (streamChecked P env disk m t budget x told)
      (m.setOutbound t (nextChunkEvents P env disk budget x).1, disk,
        told ++ (nextChunkEvents P env disk budget x).2.1) (¬ FitsBudget budget) := by
  have hnext := nextChunkEventsChecked_panicsIff P env disk budget hfits
  exact ⟨fun hlarge => by rw [streamChecked, hnext.panics hlarge]; rfl,
    fun hroom => by rw [streamChecked, hnext.returns hroom]; rfl⟩

theorem fitsBudget_chunkCount {length : Nat} (h : length < 2 ^ 63) :
    FitsBudget (chunkCount chunkSize length) := by
  have htotal := chunkCount_lt h
  simp only [FitsBudget, eventBytes]
  omega

theorem OutboundTransfer.Fits.fitsBudget (hfits : x.Fits) : FitsBudget x.totalChunks := by
  rw [hfits.totalChunks]
  exact fitsBudget_chunkCount hfits.payloadLen

end Outbound

/-! ## What arrives -/

/-- The chunks an offer may have are few, and the flags of a partial file are one
for each, as many up as are counted. -/
structure InboundTransfer.Fits (x : InboundTransfer) : Prop where
  totalChunks : x.totalChunks ≤ chunkCount chunkSize maxTransferSize + 1
  partFile : ∀ isOpen path received count, x.sink = .partFile isOpen path received count →
    received.length = x.totalChunks ∧ count = received.count true

section Inbound

variable {P : Platform} {Z : Zlib} {env : FileEnv} {disk : Disk} {m : FileTransferManager}
  {t : String} {x : InboundTransfer}

theorem storeChunkChecked_eq (hfits : x.Fits) (index : Nat) (data : Bytes) :
    x.storeChunkChecked env disk index data = some (x.storeChunk env disk index data) := by
  have hmax : (chunkCount chunkSize maxTransferSize + 1) * chunkSize < usizeBound := by decide
  unfold InboundTransfer.storeChunkChecked InboundTransfer.storeChunk
  by_cases hindex : index ≥ x.totalChunks
  · rw [if_pos hindex, if_pos hindex]
  · rw [if_neg hindex, if_neg hindex]
    cases hsink : x.sink with
    | memory chunks =>
      simp only
      split
      · rfl
      · rfl
    | partFile isOpen path received count =>
      obtain ⟨hlen, hcount⟩ := hfits.partFile _ _ _ _ hsink
      have htotal := hfits.totalChunks
      have hoffset : index * chunkSize < usizeBound := by
        refine lt_of_le_of_lt (Nat.mul_le_mul_right _ ?_) hmax
        omega
      have hlt : index < received.length := by omega
      have hflag : received[index]? = some received[index] := List.getElem?_eq_getElem hlt
      have hsum : count + 1 < usizeBound := by
        have hle := List.count_le_length (a := true) (l := received)
        have hfew : chunkCount chunkSize maxTransferSize + 1 + 1 < usizeBound := by decide
        omega
      simp only [mulUsize_of_lt hoffset, Option.bind_eq_bind, Option.bind_some, hflag,
        addUsize_of_lt hsum, Option.pure_def]
      split
      · rfl
      · split
        · rfl
        · split
          · rfl
          · rfl

def unpacked (Z : Zlib) (m : FileTransferManager) (x : InboundTransfer) (payload : Bytes) :
    Except String Bytes :=
  match decompressed Z x payload with
  | .error e => .error e
  | .ok payload =>
    if x.isDelta then
      match m.oldDataStore[x.relPath]? with
      | none => .error ("delta requires old file data for " ++ x.relPath)
      | some old =>
        match applyDelta Z old payload with
        | .ok d => .ok d
        | .error e => .error ("delta apply failed: " ++ e)
    else .ok payload

theorem unpackChecked_eq (x : InboundTransfer) (payload : Bytes) :
    unpackChecked Z m x payload = some (unpacked Z m x payload) := by
  unfold unpackChecked unpacked
  cases decompressed Z x payload with
  | error e => rfl
  | ok payload =>
    simp only
    split
    · cases m.oldDataStore[x.relPath]? with
      | none => rfl
      | some old =>
        simp only [applyDeltaChecked_eq, Option.bind_eq_bind, Option.bind_some]
        cases applyDelta Z old payload with
        | ok d => rfl
        | error e => rfl
    · rfl

/-- Content is checked once it is unpacked. -/
def checkContent (P : Platform) (x : InboundTransfer) (content : Bytes) : Except String Bytes :=
  if content.length ≠ x.expectedSize then
    .error ("size mismatch: " ++ toString content.length ++ " vs " ++ toString x.expectedSize)
  else if P.sha256Hex content ≠ x.expectedSha256 then
    .error ("hash mismatch: " ++ FileTransferManager.shortHash (P.sha256Hex content) ++ "… vs " ++
      FileTransferManager.shortHash x.expectedSha256 ++ "…")
  else .ok content

theorem assemble_eq (x : InboundTransfer) (payload : Bytes) :
    m.assemble P Z x payload = (unpacked Z m x payload).bind (checkContent P x) := by
  unfold FileTransferManager.assemble unpacked decompressed
  cases x.compressed with
  | true =>
    cases zlibDecompress Z payload with
    | error e => rfl
    | ok d =>
      cases x.isDelta with
      | false => rfl
      | true =>
        cases m.oldDataStore[x.relPath]? with
        | none => rfl
        | some old =>
          simp only [if_true, bind, Except.bind]
          cases applyDelta Z old d with
          | ok d => rfl
          | error e => rfl
  | false =>
    cases x.isDelta with
    | false => rfl
    | true =>
      cases m.oldDataStore[x.relPath]? with
      | none => rfl
      | some old =>
        simp only [if_true, Bool.false_eq_true, if_false, bind, Except.bind]
        cases applyDelta Z old payload with
        | ok d => rfl
        | error e => rfl

end Inbound

/-! ## Hashes that are shown -/

/-- Hashes have 32 bytes. -/
def Sha256Size (P : Platform) : Prop :=
  ∀ bs, (P.sha256 bs).length = 32

section Shown

variable {P : Platform} {Z : Zlib} {env : FileEnv} {disk : Disk} {m : FileTransferManager}
  {t : String} {x : InboundTransfer}

theorem sha256Hex_shown (hsha : Sha256Size P) (bs : Bytes) :
    ∃ s, sliceTo? (P.sha256Hex bs) 16 = some s := by
  refine ⟨_, (hexEncode_oneByte _).sliceTo? ?_⟩
  rw [length_hexEncode, hsha]
  decide

theorem hashMismatch_panicsIff {cut : String → Option String}
    (hcut : ∀ s r, cut s = some r → r = FileTransferManager.shortHash s) {actual : String}
    (hactual : ∃ r, cut actual = some r) (expected : String) :
    PanicsIff (hashMismatch cut actual expected)
      ("hash mismatch: " ++ FileTransferManager.shortHash actual ++ "… vs " ++
        FileTransferManager.shortHash expected ++ "…")
      (cut expected = none) := by
  obtain ⟨a, ha⟩ := hactual
  refine ⟨fun hnone => ?_, fun hsome => ?_⟩
  · simp only [hashMismatch, ha, hnone, Option.bind_eq_bind, Option.bind_some, Option.bind_none]
  · obtain ⟨e, he⟩ := Option.ne_none_iff_exists'.mp hsome
    simp only [hashMismatch, ha, he, Option.bind_eq_bind, Option.bind_some, Option.pure_def]
    rw [hcut _ _ ha, hcut _ _ he]

/-- The content has the size an offer said and another hash, and the hash the
offer came with has no sixteenth byte, or one inside a character. -/
def HashUnshown (P : Platform) (Z : Zlib) (m : FileTransferManager) (x : InboundTransfer)
    (payload : Bytes) : Prop :=
  ∃ content, unpacked Z m x payload = .ok content ∧ content.length = x.expectedSize ∧
    P.sha256Hex content ≠ x.expectedSha256 ∧ sliceTo? x.expectedSha256 16 = none

theorem assembleChecked_panicsIff (hsha : Sha256Size P) (Z : Zlib) (m : FileTransferManager)
    (x : InboundTransfer) (payload : Bytes) :
    PanicsIff (assembleChecked P Z m x payload) (m.assemble P Z x payload)
      (HashUnshown P Z m x payload) := by
  rw [assemble_eq]
  unfold assembleChecked HashUnshown
  rw [unpackChecked_eq]
  simp only [Option.bind_eq_bind, Option.bind_some]
  cases hcontent : unpacked Z m x payload with
  | error e =>
    refine .of_eq rfl ?_
    rintro ⟨content, hok, -⟩
    cases hok
  | ok content =>
    simp only [Except.bind, checkContent]
    by_cases hsize : content.length ≠ x.expectedSize
    · rw [if_pos hsize, if_pos hsize]
      refine .of_eq rfl ?_
      rintro ⟨content', hok, hsame, -⟩
      cases hok
      exact hsize hsame
    · rw [if_neg hsize, if_neg hsize]
      rw [not_not] at hsize
      by_cases hhash : P.sha256Hex content ≠ x.expectedSha256
      · rw [if_pos hhash, if_pos hhash]
        have htext := hashMismatch_panicsIff (fun _ _ => eq_of_sliceTo?)
          (sha256Hex_shown hsha content) x.expectedSha256
        refine (htext.followed Except.error).congr ⟨fun hcut => ?_, fun hbad => ?_⟩
        · exact ⟨content, rfl, hsize, hhash, hcut⟩
        · obtain ⟨-, -, -, -, hcut⟩ := hbad
          exact hcut
      · rw [if_neg hhash, if_neg hhash]
        refine .of_eq rfl ?_
        rintro ⟨content', hok, -, hother, -⟩
        cases hok
        exact hhash hother

/-- The same of a partial file, whose hash is shown whole when it is short. -/
def PartHashUnshown (P : Platform) (env : FileEnv) (disk : Disk) (path : String)
    (x : InboundTransfer) : Prop :=
  env.canFinalize = true ∧ env.canReadBack = true ∧ ∃ content, disk[path]? = some content ∧
    P.sha256Hex (setLen 0 content x.expectedSize) ≠ x.expectedSha256 ∧
    sliceUpTo? x.expectedSha256 16 = none

theorem verifyPartChecked_panicsIff (P : Platform) (env : FileEnv) (disk : Disk) (path : String)
    (x : InboundTransfer) :
    PanicsIff (verifyPartChecked P env disk path x)
      (FileTransferManager.verifyPart P env disk path x)
      (PartHashUnshown P env disk path x) := by
  unfold verifyPartChecked FileTransferManager.verifyPart PartHashUnshown
  cases env.canFinalize with
  | false => exact .of_eq rfl fun h => Bool.noConfusion h.1
  | true =>
    simp only [Bool.not_true, Bool.false_eq_true, if_false, true_and]
    cases hcontent : disk[path]? with
    | none =>
      refine .of_eq rfl ?_
      rintro ⟨-, content, hsome, -⟩
      cases hsome
    | some content =>
      cases env.canReadBack with
      | false => exact .of_eq rfl fun h => Bool.noConfusion h.1
      | true =>
        simp only [Bool.not_true, Bool.false_eq_true, if_false, true_and]
        by_cases hhash : P.sha256Hex (setLen 0 content x.expectedSize) ≠ x.expectedSha256
        · rw [if_pos hhash, if_pos hhash]
          have hshown : ∃ s, sliceUpTo? (P.sha256Hex (setLen 0 content x.expectedSize)) 16 = some s :=
            (hexEncode_oneByte _).sliceUpTo? 16
          have htext := hashMismatch_panicsIff (fun _ _ => eq_of_sliceUpTo?) hshown x.expectedSha256
          refine (htext.followed Except.error).congr ⟨fun hcut => ?_, fun hbad => ?_⟩
          · exact ⟨content, rfl, hhash, hcut⟩
          · obtain ⟨-, -, -, hcut⟩ := hbad
            exact hcut
        · rw [if_neg hhash, if_neg hhash]
          refine .of_eq rfl ?_
          rintro ⟨content', hsome, hother, -⟩
          cases hsome
          exact hhash hother

/-- A transfer that is whole is finished, and the hash it came with must be shown
and cannot. -/
def FinishPanics (P : Platform) (Z : Zlib) (env : FileEnv) (disk : Disk) (m : FileTransferManager)
    (t : String) : Prop :=
  ∃ x, m.inbound[t]? = some x ∧ x.state = .transferring ∧ x.chunksReceived = x.totalChunks ∧
    ((x.isStreaming = false ∧ HashUnshown P Z m x x.reassemble) ∨
      ∃ path received count, x.sink = .partFile true path received count ∧
        PartHashUnshown P env disk path x)

theorem finishStreamingChecked_panicsIff (P : Platform) (env : FileEnv) (disk : Disk)
    (hx : m.inbound[t]? = some x) {isOpen : Bool} {path : String} {received : List Bool}
    {count : Nat} (hsink : x.sink = .partFile isOpen path received count) :
    PanicsIff (finishStreamingChecked P env disk m t) (m.finishStreaming P env disk t)
      (isOpen = true ∧ PartHashUnshown P env disk path x) := by
  unfold finishStreamingChecked FileTransferManager.finishStreaming
  simp only [hx, hsink]
  cases isOpen with
  | false => exact .of_eq rfl fun h => Bool.noConfusion h.1
  | true =>
    simp only [Bool.not_true, Bool.false_eq_true, if_false, true_and]
    have hverify := verifyPartChecked_panicsIff P env disk path
      { x with sink := .partFile false path received count }
    refine hverify.andThen ?_
    cases FileTransferManager.verifyPart P env disk path
        { x with sink := .partFile false path received count } with
    | error reason => rfl
    | ok disk' =>
      simp only
      cases promotePartFile env disk' path x.relPath with
      | error e => rfl
      | ok r => rfl

theorem finishInboundChecked_panicsIff (hsha : Sha256Size P) (Z : Zlib) (env : FileEnv)
    (disk : Disk) (m : FileTransferManager) (t : String) :
    PanicsIff (finishInboundChecked P Z env disk m t) (m.finishInbound P Z env disk t)
      (FinishPanics P Z env disk m t) := by
  have hidle : (∀ x, m.inbound[t]? = some x → x.state ≠ .transferring ∨
      x.chunksReceived ≠ x.totalChunks) → ¬ FinishPanics P Z env disk m t := by
    rintro hnot ⟨x, hx, hstate, hwhole, -⟩
    rcases hnot x hx with hother | hother
    · exact hother hstate
    · exact hother hwhole
  unfold finishInboundChecked FileTransferManager.finishInbound
  rcases Option.eq_none_or_eq_some m.inbound[t]? with hx | ⟨x, hx⟩
  · simp only [hx]
    refine .of_eq rfl (hidle fun x hx' => ?_)
    rw [hx] at hx'
    cases hx'
  · simp only [hx]
    by_cases hnot : x.state ≠ .transferring ∨ x.chunksReceived ≠ x.totalChunks
    · rw [if_pos hnot, if_pos hnot]
      refine .of_eq rfl (hidle fun y hy => ?_)
      rw [← Option.some.inj (hx.symm.trans hy)]
      exact hnot
    · rw [if_neg hnot, if_neg hnot]
      rw [not_or, not_not, not_not] at hnot
      cases hsink : x.sink with
      | memory chunks =>
        have hmemory : x.isStreaming = false := by
          simp only [InboundTransfer.isStreaming, hsink]
        simp only [hmemory, Bool.false_eq_true, if_false]
        have hassemble := assembleChecked_panicsIff hsha Z
          (m.setInbound t { x with state := .verifying }) x x.reassemble
        rw [hsink] at hassemble
        refine (hassemble.andThen ?_).congr ?_
        · cases (m.setInbound t _).assemble P Z x x.reassemble with
          | error reason => rfl
          | ok content => rfl
        · refine ⟨fun hbad => ⟨x, hx, hnot.1, hnot.2, .inl ⟨hmemory, hbad⟩⟩, ?_⟩
          rintro ⟨y, hy, -, -, ⟨-, hbad⟩ | ⟨path, received, count, hpart, -⟩⟩
          · rw [← Option.some.inj (hx.symm.trans hy)] at hbad
            exact hbad
          · rw [← Option.some.inj (hx.symm.trans hy), hsink] at hpart
            cases hpart
      | partFile isOpen path received count =>
        have hpart : x.isStreaming = true := by
          simp only [InboundTransfer.isStreaming, hsink]
        simp only [hpart, if_true]
        refine (finishStreamingChecked_panicsIff P env disk hx hsink).congr ⟨?_, ?_⟩
        · rintro ⟨rfl, hbad⟩
          exact ⟨x, hx, hnot.1, hnot.2, .inr ⟨_, _, _, hsink, hbad⟩⟩
        · rintro ⟨y, hy, -, -, ⟨hmemory, -⟩ | ⟨path', received', count', hsink', hbad⟩⟩
          · rw [← Option.some.inj (hx.symm.trans hy), hpart] at hmemory
            cases hmemory
          · obtain rfl := Option.some.inj (hx.symm.trans hy)
            rw [hsink] at hsink'
            cases hsink'
            exact ⟨rfl, hbad⟩

def ChunkPanics (P : Platform) (Z : Zlib) (env : FileEnv) (disk : Disk) (m : FileTransferManager)
    (t : String) (index : Nat) (chunk : Bytes) : Prop :=
  ∃ x y disk', m.inbound[t]? = some x ∧ x.state = .transferring ∧
    x.storeChunk env disk index chunk = (y, disk', true) ∧ y.completeRequested = true ∧
    FinishPanics P Z env disk' (m.setInbound t y) t

theorem storeChunk_past (env : FileEnv) (disk : Disk) {index : Nat} (h : index ≥ x.totalChunks)
    (chunk : Bytes) : x.storeChunk env disk index chunk = (x, disk, false) :=
  if_pos h

theorem onChunkBytesReceivedChecked_panicsIff (hsha : Sha256Size P) (Z : Zlib) (env : FileEnv)
    (disk : Disk) (hfits : ∀ x, m.inbound[t]? = some x → x.Fits) (index : Nat) (chunk : Bytes) :
    PanicsIff (onChunkBytesReceivedChecked P Z env disk m t index chunk)
      (m.onChunkBytesReceived P Z env disk t index chunk)
      (ChunkPanics P Z env disk m t index chunk) := by
  unfold onChunkBytesReceivedChecked FileTransferManager.onChunkBytesReceived
  rcases Option.eq_none_or_eq_some m.inbound[t]? with hx | ⟨x, hx⟩
  · simp only [hx]
    refine .of_eq rfl ?_
    rintro ⟨y, _, _, hy, -⟩
    rw [hx] at hy
    cases hy
  · simp only [hx]
    by_cases hstate : x.state ≠ .transferring
    · rw [if_pos hstate, if_pos hstate]
      refine .of_eq rfl ?_
      rintro ⟨y, _, _, hy, hother, -⟩
      rw [← Option.some.inj (hx.symm.trans hy)] at hother
      exact hstate hother
    · rw [if_neg hstate, if_neg hstate]
      rw [not_not] at hstate
      by_cases hindex : index ≥ x.totalChunks
      · rw [if_pos hindex, if_pos hindex]
        refine .of_eq rfl ?_
        rintro ⟨y, _, _, hy, -, hstore, -⟩
        obtain rfl := Option.some.inj (hx.symm.trans hy)
        rw [storeChunk_past env disk hindex] at hstore
        cases hstore
      · rw [if_neg hindex, if_neg hindex, storeChunkChecked_eq (hfits x hx)]
        simp only [Option.bind_eq_bind, Option.bind_some]
        have hiff : ∀ y disk', x.storeChunk env disk index chunk = (y, disk', true) →
            (ChunkPanics P Z env disk m t index chunk ↔ y.completeRequested = true ∧
              FinishPanics P Z env disk' (m.setInbound t y) t) := by
          intro y disk' hstore
          constructor
          · rintro ⟨x', y', disk'', hx', -, hstore', hrest⟩
            obtain rfl := Option.some.inj (hx.symm.trans hx')
            have hsame := hstore.symm.trans hstore'
            simp only [Prod.mk.injEq, and_true] at hsame
            obtain ⟨rfl, rfl⟩ := hsame
            exact hrest
          · exact fun hrest => ⟨x, y, disk', hx, hstate, hstore, hrest⟩
        rcases hstore : x.storeChunk env disk index chunk with ⟨y, disk', stored⟩
        cases stored with
        | false =>
          refine .of_eq rfl ?_
          rintro ⟨x', _, _, hx', -, hstore', -⟩
          rw [← Option.some.inj (hx.symm.trans hx'), hstore] at hstore'
          cases hstore'
        | true =>
          simp only
          by_cases hwhole : (y.completeRequested && y.chunksReceived == y.totalChunks) = true
          · rw [if_pos hwhole, if_pos hwhole]
            rw [Bool.and_eq_true] at hwhole
            refine (finishInboundChecked_panicsIff hsha Z env disk' _ t).congr ?_
            rw [hiff y disk' hstore]
            exact ⟨fun hbad => ⟨hwhole.1, hbad⟩, fun hbad => hbad.2⟩
          · rw [if_neg hwhole, if_neg hwhole]
            have hsafe : ¬ ChunkPanics P Z env disk m t index chunk := by
              rw [hiff y disk' hstore]
              rintro ⟨hrequested, z, hz, -, hall, -⟩
              rw [getElem?_setInbound] at hz
              obtain rfl := Option.some.inj hz
              rw [Bool.and_eq_true, beq_iff_eq] at hwhole
              exact hwhole ⟨hrequested, hall⟩
            split
            · exact .of_eq rfl hsafe
            · exact .of_eq rfl hsafe

theorem onCompleteReceivedChecked_panicsIff (hsha : Sha256Size P) (Z : Zlib) (env : FileEnv)
    (disk : Disk) (m : FileTransferManager) (t : String) :
    PanicsIff (onCompleteReceivedChecked P Z env disk m t) (m.onCompleteReceived P Z env disk t)
      (FinishPanics P Z env disk m t) := by
  unfold onCompleteReceivedChecked FileTransferManager.onCompleteReceived
  rcases Option.eq_none_or_eq_some m.inbound[t]? with hx | ⟨x, hx⟩
  · simp only [hx]
    refine .of_eq rfl ?_
    rintro ⟨y, hy, -⟩
    rw [hx] at hy
    cases hy
  · simp only [hx]
    by_cases hstate : x.state ≠ .transferring
    · rw [if_pos hstate, if_pos hstate]
      refine .of_eq rfl ?_
      rintro ⟨y, hy, hother, -⟩
      rw [← Option.some.inj (hx.symm.trans hy)] at hother
      exact hstate hother
    · rw [if_neg hstate, if_neg hstate]
      by_cases hmissing : x.chunksReceived ≠ x.totalChunks
      · rw [if_pos hmissing, if_pos hmissing]
        refine .of_eq rfl ?_
        rintro ⟨y, hy, -, hwhole, -⟩
        rw [← Option.some.inj (hx.symm.trans hy)] at hwhole
        exact hmissing hwhole
      · rw [if_neg hmissing, if_neg hmissing]
        exact finishInboundChecked_panicsIff hsha Z env disk m t

theorem offerSinkChecked_eq (env : FileEnv) (disk : Disk) (o : FileTransferManager.OfferFields) :
    offerSinkChecked env disk o = some (FileTransferManager.offerSink env disk o) := by
  have hmost : chunkCount chunkSize maxTransferSize + 1 < 2 ^ 63 := by decide
  unfold offerSinkChecked FileTransferManager.offerSink
  by_cases hlarge : o.size > maxTransferSize
  · rw [if_pos hlarge, if_pos hlarge]
  · have hcount : chunkCount chunkSize o.size + 1 < 2 ^ 63 := by
      have hmono : chunkCount chunkSize o.size ≤ chunkCount chunkSize maxTransferSize :=
        chunkCount_mono (Nat.not_lt.mp hlarge)
      omega
    have hword : chunkCount chunkSize o.size + 1 < usizeBound := by
      simp only [usizeBound]
      omega
    rw [if_neg hlarge, if_neg hlarge, addUsize_of_lt hword]
    simp only [Option.bind_eq_bind, Option.bind_some]
    by_cases hchunks : o.totalChunks = 0 ∨ o.totalChunks > chunkCount chunkSize o.size + 1
    · rw [if_pos hchunks, if_pos hchunks]
      rfl
    · have hfew : o.totalChunks < 2 ^ 63 := by
        rw [not_or] at hchunks
        omega
      rw [if_neg hchunks, if_neg hchunks]
      split
      · cases openPartFile env disk o.relPath o.transferId with
        | error e => rfl
        | ok r =>
          simp only [withCapacity_of_lt hfew, Option.bind_some]
          rfl
      · split
        · rfl
        · rfl

end Shown

end ConquerD.Client
