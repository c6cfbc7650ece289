import ConquerD.Client.Verify.VideoReassembly
import ConquerD.Lib.JsonRead
import ConquerD.Wire.AppUrl

/-!
# Client: exactly the fragments are read

The bytes of a fragment are its header, field by field, and its chunk; six bits of the
flags mean nothing. The parser takes exactly these, and takes them apart again, without
an index out of bounds on any input. What a sender cuts a frame into is among them.
-/

namespace ConquerD.Client.Video

open Lib Lib.Chunks Lib.Encoding Lib.Slice

/-! ## Numbers and flags -/

theorem fromBeBytes_append_singleton (bs : Bytes) (b : UInt8) :
    fromBeBytes (bs ++ [b]) = fromBeBytes bs * 256 + b.toNat := by
  unfold fromBeBytes
  rw [List.foldl_append]
  rfl

theorem fromBeBytes_beBytes {width n : Nat} (h : n < 256 ^ width) :
    fromBeBytes (beBytes width n) = n := by
  induction width generalizing n with
  | zero =>
    rw [Nat.pow_zero, Nat.lt_one_iff] at h
    subst h
    rfl
  | succ width ih =>
    rw [Nat.pow_succ] at h
    have hrest := ih (Nat.div_lt_of_lt_mul (by rwa [Nat.mul_comm] at h))
    rw [beBytes, fromBeBytes_append_singleton, hrest, UInt8.toNat_ofNat']
    omega

theorem beBytes_fromBeBytes (bs : Bytes) : beBytes bs.length (fromBeBytes bs) = bs := by
  induction bs using List.reverseRecOn with
  | nil => rfl
  | append_singleton bs b ih =>
    have hb := b.toNat_lt
    have hdiv : (fromBeBytes bs * 256 + b.toNat) / 256 = fromBeBytes bs := by omega
    have hlow : UInt8.ofNat (fromBeBytes bs * 256 + b.toNat) = b := by
      apply ofNat_eq_of_mod
      omega
    rw [List.length_append, List.length_singleton, fromBeBytes_append_singleton, beBytes, hdiv,
      hlow, ih]

theorem fromBeBytes_lt_pow (bs : Bytes) : fromBeBytes bs < 256 ^ bs.length := by
  induction bs using List.reverseRecOn with
  | nil => exact Nat.one_pos
  | append_singleton bs b ih =>
    have hb := b.toNat_lt
    rw [List.length_append, List.length_singleton, fromBeBytes_append_singleton, Nat.pow_succ]
    omega

theorem fromBeBytes_take_append {width n : Nat} (h : n < 256 ^ width) (rest : Bytes) :
    fromBeBytes ((beBytes width n ++ rest).take width) = n := by
  rw [List.take_left' (length_beBytes width n), fromBeBytes_beBytes h]

theorem drop_beBytes_append (width n : Nat) (rest : Bytes) :
    (beBytes width n ++ rest).drop width = rest :=
  List.drop_left' (length_beBytes width n)

/-- The number in front of a list that is long enough, and what follows it. -/
theorem beBytes_take_append_drop {width : Nat} {bs : Bytes} (h : width ≤ bs.length) :
    beBytes width (fromBeBytes (bs.take width)) ++ bs.drop width = bs := by
  have hlen : (bs.take width).length = width := List.length_take_of_le h
  have hspelled := beBytes_fromBeBytes (bs.take width)
  rw [hlen] at hspelled
  rw [hspelled, List.take_append_drop]

theorem flagsOf_hasSignature (keyframe isFirst : Bool) :
    (flagsOf keyframe isFirst &&& flagHasSignature != 0) = isFirst := by
  cases keyframe <;> cases isFirst <;> rfl

theorem flagsOf_keyframe (keyframe isFirst : Bool) :
    (flagsOf keyframe isFirst &&& flagKeyframe != 0) = keyframe := by
  cases keyframe <;> cases isFirst <;> rfl

/-- The bits of the flags that mean nothing. -/
def reservedFlags : UInt8 := 0b11111100

theorem flags_iff (flags : UInt8) (keyframe isFirst : Bool) :
    ((flags &&& flagKeyframe != 0) = keyframe ∧ (flags &&& flagHasSignature != 0) = isFirst) ↔
      ∃ reserved, flags = flagsOf keyframe isFirst ||| (reserved &&& reservedFlags) := by
  have hread : ∀ i : Fin 256, ∀ keyframe isFirst : Bool,
      (flagsOf keyframe isFirst ||| (UInt8.ofFin i &&& reservedFlags)) &&& flagKeyframe =
          (if keyframe then flagKeyframe else 0) ∧
        (flagsOf keyframe isFirst ||| (UInt8.ofFin i &&& reservedFlags)) &&& flagHasSignature =
          (if isFirst then flagHasSignature else 0) := by
    decide +kernel
  have hsplit : ∀ i : Fin 256,
      flagsOf (UInt8.ofFin i &&& flagKeyframe != 0) (UInt8.ofFin i &&& flagHasSignature != 0) |||
        (UInt8.ofFin i &&& reservedFlags) = UInt8.ofFin i := by
    decide +kernel
  constructor
  · rintro ⟨rfl, rfl⟩
    exact ⟨flags, (hsplit flags.toFin).symm⟩
  · rintro ⟨reserved, rfl⟩
    obtain ⟨hkeyframe, hfirst⟩ := hread reserved.toFin keyframe isFirst
    rw [UInt8.ofFin_toFin] at hkeyframe hfirst
    rw [hkeyframe, hfirst]
    cases keyframe <;> cases isFirst <;> decide

/-! ## The layout -/

namespace FragmentHeader

variable (hdr : FragmentHeader)

/-- The bytes of a header, with its flags. -/
def bytes (flags : UInt8) : Bytes :=
  [fragmentVersion, flags, hdr.codec.asWire] ++ beBytes 8 hdr.ptsUs.toNat ++
    [UInt8.ofNat (utf8Bytes hdr.sender).length] ++ utf8Bytes hdr.sender ++
    beBytes 4 hdr.frameSeq.toNat ++ beBytes 2 hdr.fragIdx ++ beBytes 2 hdr.fragCount ++
    (hdr.signature.map Subtype.val).getD []

/-- A header that can be written: its counts are in range, the first fragment alone is
signed, and the sender has a length that is allowed. -/
structure OnWire (hdr : FragmentHeader) : Prop extends hdr.Valid where
  sender_pos : 0 < (utf8Bytes hdr.sender).length
  sender_le : (utf8Bytes hdr.sender).length ≤ maxSenderLen

end FragmentHeader

structure IsFragment (buf : Bytes) (hdr : FragmentHeader) (chunk : Bytes) : Prop where
  onWire : hdr.OnWire
  layout : ∃ reserved, buf =
    hdr.bytes (flagsOf hdr.keyframe (hdr.fragIdx == 0) ||| (reserved &&& reservedFlags)) ++ chunk

/-! ## What is written is read -/

theorem takeSignature_append {signature : Option FrameSignature} {isFirst : Bool}
    (h : signature.isSome = isFirst) (chunk : Bytes) :
    takeSignature isFirst ((signature.map Subtype.val).getD [] ++ chunk) =
      some (signature, chunk) := by
  cases signature with
  | none =>
    subst h
    rfl
  | some sig =>
    subst h
    have hlen : signatureLen ≤ (sig.val ++ chunk).length := by
      rw [List.length_append, sig.property]
      exact Nat.le_add_right _ _
    have htake : (sig.val ++ chunk).take signatureLen = sig.val := List.take_left' sig.property
    have hdrop : (sig.val ++ chunk).drop signatureLen = chunk := List.drop_left' sig.property
    rw [Option.map_some, Option.getD_some, takeSignature, if_pos (Option.isSome_some), dif_pos hlen]
    simp only [htake, hdrop, Subtype.coe_eta]

section Parsing

variable {hdr : FragmentHeader} {flags : UInt8} {buf chunk : Bytes}

theorem parseFragment_bytes (h : hdr.OnWire)
    (hkeyframe : (flags &&& flagKeyframe != 0) = hdr.keyframe)
    (hfirst : (flags &&& flagHasSignature != 0) = (hdr.fragIdx == 0)) (chunk : Bytes) :
    parseFragment (hdr.bytes flags ++ chunk) = some (hdr, chunk) := by
  obtain ⟨keyframe, codec, ptsUs, sender, frameSeq, fragIdx, fragCount, signature⟩ := hdr
  obtain ⟨⟨hcountPos, hcountLe, hidx, hsignedAt⟩, hsenderPos, hsenderLe⟩ := h
  dsimp only at hkeyframe hfirst hcountPos hcountLe hidx hsignedAt hsenderPos hsenderLe
  have hpts : ptsUs.toNat < 256 ^ 8 := ptsUs.toNat_lt
  have hseq : frameSeq.toNat < 256 ^ 4 := frameSeq.toNat_lt
  have hcount : fragCount ≤ 128 := hcountLe
  have hsender : (utf8Bytes sender).length ≤ 64 := hsenderLe
  have hlen : (UInt8.ofNat (utf8Bytes sender).length).toNat = (utf8Bytes sender).length := by
    rw [UInt8.toNat_ofNat']
    exact Nat.mod_eq_of_lt (by omega)
  -- the parts after the three bytes that come first, one after the other
  let signed : Bytes := (signature.map Subtype.val).getD [] ++ chunk
  let counted : Bytes := beBytes 2 fragCount ++ signed
  let indexed : Bytes := beBytes 2 fragIdx ++ counted
  let numbered : Bytes := beBytes 4 frameSeq.toNat ++ indexed
  let named : Bytes := utf8Bytes sender ++ numbered
  generalize hbuf : FragmentHeader.bytes
    ⟨keyframe, codec, ptsUs, sender, frameSeq, fragIdx, fragCount, signature⟩ flags ++ chunk = buf
  replace hbuf : buf = fragmentVersion :: flags :: codec.asWire ::
      (beBytes 8 ptsUs.toNat ++ UInt8.ofNat (utf8Bytes sender).length :: named) := by
    rw [← hbuf]
    simp only [FragmentHeader.bytes, named, numbered, indexed, counted, signed, List.append_assoc,
      List.cons_append, List.nil_append]
  have hdrop3 : buf.drop 3 =
      beBytes 8 ptsUs.toNat ++ UInt8.ofNat (utf8Bytes sender).length :: named := by
    rw [hbuf]
    rfl
  have hdrop11 : buf.drop 11 = UInt8.ofNat (utf8Bytes sender).length :: named := by
    rw [show 11 = 3 + 8 from rfl, ← List.drop_drop, hdrop3, drop_beBytes_append]
  have hdrop12 : buf.drop fixedPrefixLen = named := by
    rw [show fixedPrefixLen = 11 + 1 from rfl, ← List.drop_drop, hdrop11]
    rfl
  have hdropSender : buf.drop (fixedPrefixLen + (utf8Bytes sender).length) = numbered := by
    rw [← List.drop_drop, hdrop12]
    exact List.drop_left' rfl
  have hdropSeq : buf.drop (fixedPrefixLen + (utf8Bytes sender).length + 4) = indexed := by
    rw [← List.drop_drop, hdropSender, drop_beBytes_append]
  have hdropIdx : buf.drop (fixedPrefixLen + (utf8Bytes sender).length + 6) = counted := by
    rw [show 6 = 4 + 2 from rfl, ← Nat.add_assoc, ← List.drop_drop, hdropSeq, drop_beBytes_append]
  have hdropCount : buf.drop (fixedPrefixLen + (utf8Bytes sender).length + fixedSuffixLen) =
      signed := by
    rw [show fixedSuffixLen = 6 + 2 from rfl, ← Nat.add_assoc, ← List.drop_drop, hdropIdx,
      drop_beBytes_append]
  have hlength : buf.length =
      fixedPrefixLen + (utf8Bytes sender).length + fixedSuffixLen + signed.length := by
    rw [hbuf]
    simp only [named, numbered, indexed, counted, List.length_cons, List.length_append,
      length_beBytes, fixedPrefixLen, fixedSuffixLen]
    omega
  have hversion : buf[0]? = some fragmentVersion := by rw [hbuf]; rfl
  have hflags : buf[1]? = some flags := by rw [hbuf]; rfl
  have hcodec : buf[2]? = some codec.asWire := by rw [hbuf]; rfl
  have hsenderLen : buf[11]? = some (UInt8.ofNat (utf8Bytes sender).length) := by
    have hhead := congrArg List.head? hdrop11
    rwa [List.head?_drop] at hhead
  have hname : named.take (utf8Bytes sender).length = utf8Bytes sender := List.take_left' rfl
  have hptsRead : fromBeBytes (List.take 8 (beBytes 8 ptsUs.toNat ++
      UInt8.ofNat (utf8Bytes sender).length :: named)) = ptsUs.toNat :=
    fromBeBytes_take_append hpts _
  have hseqRead : fromBeBytes (numbered.take 4) = frameSeq.toNat := fromBeBytes_take_append hseq _
  have hidxRead : fromBeBytes (indexed.take 2) = fragIdx := fromBeBytes_take_append (by omega) _
  have hcountRead : fromBeBytes (counted.take 2) = fragCount :=
    fromBeBytes_take_append (by omega) _
  have hprefixFits : fixedPrefixLen ≤ buf.length := by omega
  have hsuffixFits : fixedPrefixLen + (utf8Bytes sender).length + fixedSuffixLen ≤ buf.length := by
    omega
  have hsenderOk : (utf8Bytes sender).length ≠ 0 ∧ (utf8Bytes sender).length ≤ maxSenderLen :=
    ⟨hsenderPos.ne', hsenderLe⟩
  have hcountOk : fragCount ≠ 0 ∧ fragCount ≤ maxFragsPerFrame := ⟨hcountPos.ne', hcountLe⟩
  have hsigned : takeSignature (fragIdx == 0) signed = some (signature, chunk) :=
    takeSignature_append hsignedAt chunk
  unfold parseFragment
  simp only [guard, hprefixFits, hversion, hflags, hcodec, hsenderLen, hlen, hsenderOk, hsuffixFits,
    hdrop3, hdrop12, hname, hdropSender, hdropSeq, hdropIdx, hdropCount, hptsRead, hseqRead,
    hidxRead, hcountRead, hcountOk, hidx, hfirst, hkeyframe, hsigned,
    VideoCodec.fromWire_asWire, fromUtf8_utf8Bytes, Option.bind_eq_bind,
    Option.bind_some, Option.pure_def, if_true, UInt64.ofNat_toNat, UInt32.ofNat_toNat,
    ne_eq, not_false_eq_true, and_self]

/-! ## What is read was written -/

theorem eq_of_takeSignature {hasSig : Bool} {rest : Bytes} {signature : Option FrameSignature}
    (h : takeSignature hasSig rest = some (signature, chunk)) :
    rest = (signature.map Subtype.val).getD [] ++ chunk := by
  unfold takeSignature at h
  split at h
  · split at h
    · cases h
      exact (List.take_append_drop signatureLen rest).symm
    · cases h
  · cases h
    rfl

theorem asWire_of_fromWire {b : UInt8} {codec : VideoCodec}
    (h : VideoCodec.fromWire b = some codec) : b = codec.asWire := by
  unfold VideoCodec.fromWire at h
  split at h
  · next hb =>
    cases h
    exact hb
  · split at h
    · next hb =>
      cases h
      exact hb
    · split at h
      · next hb =>
        cases h
        exact hb
      · cases h

theorem drop_eq_cons {bs : Bytes} {i : Nat} {b : UInt8} (h : bs[i]? = some b) :
    bs.drop i = b :: bs.drop (i + 1) := by
  obtain ⟨hi, rfl⟩ := List.getElem?_eq_some_iff.mp h
  exact List.drop_eq_getElem_cons hi

theorem drop_eq_beBytes (i width : Nat) {bs : Bytes} (h : i + width ≤ bs.length) :
    bs.drop i = beBytes width (fromBeBytes ((bs.drop i).take width)) ++ bs.drop (i + width) := by
  rw [← List.drop_drop]
  refine (beBytes_take_append_drop ?_).symm
  rw [List.length_drop]
  omega

theorem fromBeBytes_take_lt (width : Nat) (bs : Bytes) :
    fromBeBytes (bs.take width) < 256 ^ width :=
  (fromBeBytes_lt_pow _).trans_le (Nat.pow_le_pow_right (by decide) (List.length_take_le _ _))

theorem isFragment_of_parseFragment (h : parseFragment buf = some (hdr, chunk)) :
    IsFragment buf hdr chunk := by
  have hvalid := valid_of_parseFragment h
  unfold parseFragment at h
  simp only [Option.bind_eq_bind, Option.bind_eq_some_iff, guard_eq_some_iff, Option.pure_def,
    Option.some.injEq, Prod.mk.injEq, exists_const] at h
  obtain ⟨-, hversion, flags, hflags, codecByte, hcodecByte, codec, hcodec, lenByte, hlenByte,
    ⟨hsenderPos, hsenderLe⟩, hfits, sender, hsender, ⟨-, hcountLe⟩, hidx, hsig, ⟨signature, rest⟩,
    htake, rfl, rfl⟩ := h
  dsimp only at hvalid ⊢
  have hfits' : 12 + lenByte.toNat + 8 ≤ buf.length := hfits
  have hname := utf8Bytes_of_fromUtf8 hsender
  have hnameLen : (utf8Bytes sender).length = lenByte.toNat := by
    rw [hname, List.length_take, List.length_drop]
    unfold fixedPrefixLen
    omega
  obtain ⟨reserved, hreserved⟩ := (flags_iff flags _ _).mp ⟨rfl, hsig⟩
  refine ⟨⟨hvalid, ?_, ?_⟩, reserved, ?_⟩
  · dsimp only
    omega
  · dsimp only
    omega
  · -- the buffer is taken apart from the front
    have hdrop0 : buf = fragmentVersion :: buf.drop 1 := drop_eq_cons hversion
    have hdrop1 : buf.drop 1 = flags :: buf.drop 2 := drop_eq_cons hflags
    have hdrop2 : buf.drop 2 = codecByte :: buf.drop 3 := drop_eq_cons hcodecByte
    have hdrop3 := drop_eq_beBytes 3 8 (Nat.le_trans (by omega) hfits')
    have hdrop11 : buf.drop 11 = lenByte :: buf.drop fixedPrefixLen := drop_eq_cons hlenByte
    have hdrop12 : buf.drop fixedPrefixLen =
        utf8Bytes sender ++ buf.drop (fixedPrefixLen + lenByte.toNat) := by
      rw [hname, ← List.drop_drop, List.take_append_drop]
    have hdropSender := drop_eq_beBytes (fixedPrefixLen + lenByte.toNat) 4
      (Nat.le_trans (by unfold fixedSuffixLen; omega) hfits)
    have hdropSeq := drop_eq_beBytes (fixedPrefixLen + lenByte.toNat + 4) 2
      (Nat.le_trans (by unfold fixedSuffixLen; omega) hfits)
    have hdropIdx := drop_eq_beBytes (fixedPrefixLen + lenByte.toNat + 6) 2
      (Nat.le_trans (by unfold fixedSuffixLen; omega) hfits)
    rw [show fixedPrefixLen + lenByte.toNat + 6 + 2 =
      fixedPrefixLen + lenByte.toNat + fixedSuffixLen from rfl] at hdropIdx
    have hdropCount := eq_of_takeSignature htake
    have hpts : (UInt64.ofNat (fromBeBytes ((buf.drop 3).take 8))).toNat =
        fromBeBytes ((buf.drop 3).take 8) :=
      UInt64.toNat_ofNat_of_lt (fromBeBytes_take_lt 8 _)
    have hseq : (UInt32.ofNat
          (fromBeBytes ((buf.drop (fixedPrefixLen + lenByte.toNat)).take 4))).toNat =
        fromBeBytes ((buf.drop (fixedPrefixLen + lenByte.toNat)).take 4) :=
      UInt32.toNat_ofNat_of_lt (fromBeBytes_take_lt 4 _)
    have hlen : UInt8.ofNat (utf8Bytes sender).length = lenByte := by
      rw [hnameLen, UInt8.ofNat_toNat]
    rw [← hreserved, FragmentHeader.bytes]
    dsimp only
    rw [hpts, hseq, hlen, ← asWire_of_fromWire hcodec]
    simp only [List.append_assoc, List.cons_append, List.nil_append]
    rw [← hdropCount, ← hdropIdx, ← hdropSeq, ← hdropSender, ← hdrop12, ← hdrop11, ← hdrop3, ← hdrop2, ← hdrop1,
      ← hdrop0]

theorem parseFragment_eq_some_iff : parseFragment buf = some (hdr, chunk) ↔
    IsFragment buf hdr chunk := by
  refine ⟨isFragment_of_parseFragment, ?_⟩
  rintro ⟨honWire, reserved, rfl⟩
  obtain ⟨hkeyframe, hfirst⟩ := (flags_iff _ _ _).mpr ⟨reserved, rfl⟩
  exact parseFragment_bytes honWire hkeyframe hfirst chunk

/-! ## No index is out of bounds -/

theorem takeSignatureChecked_spec {suffixEnd : Nat} (h : suffixEnd ≤ buf.length) (hasSig : Bool) :
    (takeSignature hasSig (buf.drop suffixEnd) = none ∧
      takeSignatureChecked buf hasSig suffixEnd = some none) ∨
    ∃ signature start, start ≤ buf.length ∧
      takeSignature hasSig (buf.drop suffixEnd) = some (signature, buf.drop start) ∧
      takeSignatureChecked buf hasSig suffixEnd = some (some (signature, start)) := by
  have hrest : (buf.drop suffixEnd).length = buf.length - suffixEnd := List.length_drop
  cases hasSig with
  | false => exact .inr ⟨none, suffixEnd, h, rfl, rfl⟩
  | true =>
    by_cases hshort : buf.length < suffixEnd + signatureLen
    · left
      constructor
      · rw [takeSignature, if_pos rfl, dif_neg (by omega)]
      · rw [takeSignatureChecked, if_pos rfl, if_pos hshort]
    · right
      have hfits : signatureLen ≤ (buf.drop suffixEnd).length := by omega
      have hsig : ((buf.drop suffixEnd).take signatureLen).length = signatureLen :=
        List.length_take_of_le hfits
      refine ⟨some ⟨_, hsig⟩, suffixEnd + signatureLen, by omega, ?_, ?_⟩
      · rw [takeSignature, if_pos rfl, dif_pos hfits, List.drop_drop]
      · rw [takeSignatureChecked, if_pos rfl, if_neg hshort, slice?_add (by omega)]
        simp only [Option.bind_eq_bind, Option.bind_some, hsig, dite_true, Option.pure_def]

theorem guard_bind {α : Type} {p : Prop} [Decidable p] (x : Option α) :
    ((guard p : Option Unit) >>= fun _ => x) = if p then x else none := by
  by_cases h : p
  · rw [guard, if_pos h, if_pos h]
    rfl
  · rw [guard, if_neg h, if_neg h]
    rfl

theorem parseFragmentChecked_eq (buf : Bytes) :
    parseFragmentChecked buf = some (parseFragment buf) := by
  unfold parseFragmentChecked parseFragment
  simp only [guard_bind]
  by_cases hlen : buf.length < fixedPrefixLen
  · rw [if_pos hlen, if_neg hlen.not_ge]
  have hprefix : 12 ≤ buf.length := Nat.le_of_not_lt hlen
  obtain ⟨version, hversion⟩ : ∃ b, buf[0]? = some b := ⟨_, List.getElem?_eq_getElem (by omega)⟩
  obtain ⟨flags, hflags⟩ : ∃ b, buf[1]? = some b := ⟨_, List.getElem?_eq_getElem (by omega)⟩
  obtain ⟨codecByte, hcodecByte⟩ : ∃ b, buf[2]? = some b :=
    ⟨_, List.getElem?_eq_getElem (by omega)⟩
  obtain ⟨lenByte, hlenByte⟩ : ∃ b, buf[11]? = some b := ⟨_, List.getElem?_eq_getElem (by omega)⟩
  have hpts : slice? buf 3 11 = some ((buf.drop 3).take 8) :=
    slice?_add (i := 3) (n := 8) (by omega)
  rw [if_neg hlen, if_pos (Nat.le_of_not_lt hlen), hversion, hflags, hcodecByte, hlenByte, hpts]
  simp only [Option.bind_eq_bind, Option.bind_some, Option.pure_def, Option.some.injEq]
  by_cases hv : version = fragmentVersion
  swap
  · rw [if_pos hv, if_neg hv]
  rw [if_neg (not_not.mpr hv), if_pos hv]
  cases VideoCodec.fromWire codecByte with
  | none => rfl
  | some codec =>
    dsimp only [Option.bind_some]
    by_cases hsenderLen : lenByte.toNat = 0 ∨ lenByte.toNat > maxSenderLen
    · rw [if_pos hsenderLen, if_neg (by omega)]
    have hsenderOk : lenByte.toNat ≠ 0 ∧ lenByte.toNat ≤ maxSenderLen := by omega
    rw [if_neg hsenderLen, if_pos hsenderOk]
    by_cases hshort : buf.length < fixedPrefixLen + lenByte.toNat + fixedSuffixLen
    · rw [if_pos hshort, if_neg hshort.not_ge]
    have hfits : fixedPrefixLen + lenByte.toNat + 8 ≤ buf.length := Nat.le_of_not_lt hshort
    rw [if_neg hshort, if_pos (Nat.le_of_not_lt hshort), slice?_add (by omega), Option.bind_some]
    cases fromUtf8 ((buf.drop fixedPrefixLen).take lenByte.toNat) with
    | none => rfl
    | some sender =>
      -- what follows the sender
      have hseq : slice? buf (fixedPrefixLen + lenByte.toNat) (fixedPrefixLen + lenByte.toNat + 4) =
          some ((buf.drop (fixedPrefixLen + lenByte.toNat)).take 4) := slice?_add (by omega)
      have hidx : slice? buf (fixedPrefixLen + lenByte.toNat + 4)
          (fixedPrefixLen + lenByte.toNat + 6) =
          some ((buf.drop (fixedPrefixLen + lenByte.toNat + 4)).take 2) :=
        slice?_add (n := 2) (by omega)
      have hcount : slice? buf (fixedPrefixLen + lenByte.toNat + 6)
          (fixedPrefixLen + lenByte.toNat + fixedSuffixLen) =
          some ((buf.drop (fixedPrefixLen + lenByte.toNat + 6)).take 2) :=
        slice?_add (n := 2) (by omega)
      dsimp only [Option.bind_some]
      simp only [parseSuffixChecked, hseq, hidx, hcount, Option.bind_eq_bind, Option.bind_some,
        Option.pure_def]
      generalize fromBeBytes ((buf.drop (fixedPrefixLen + lenByte.toNat + 4)).take 2) = fragIdx
      generalize fromBeBytes ((buf.drop (fixedPrefixLen + lenByte.toNat + 6)).take 2) = fragCount
      by_cases hfragCount : fragCount = 0 ∨ fragCount > maxFragsPerFrame
      · rw [if_pos hfragCount, if_neg (by omega)]
      have hcountOk : fragCount ≠ 0 ∧ fragCount ≤ maxFragsPerFrame := by omega
      rw [if_neg hfragCount, if_pos hcountOk]
      by_cases hfragIdx : fragIdx ≥ fragCount
      · rw [if_pos hfragIdx, if_neg hfragIdx.not_gt]
      rw [if_neg hfragIdx, if_pos (Nat.lt_of_not_ge hfragIdx)]
      by_cases hsig : (flags &&& flagHasSignature != 0) = (fragIdx == 0)
      swap
      · rw [if_pos hsig, if_neg hsig]
      rw [if_neg (not_not.mpr hsig), if_pos hsig]
      obtain ⟨hnone, hchecked⟩ | ⟨signature, start, hstart, hsome, hchecked⟩ :=
        takeSignatureChecked_spec (Nat.le_of_not_lt hshort) (flags &&& flagHasSignature != 0)
      · rw [hchecked, hnone]
        rfl
      · have hchunk : slice? buf start buf.length = some (buf.drop start) := by
          rw [slice?, if_pos ⟨hstart, Nat.le_refl _⟩, ← List.length_drop, List.take_length]
        rw [hchecked, hsome]
        dsimp only [Option.bind_some]
        rw [hchunk, Option.bind_some]

end Parsing

/-! ## The fragments of a frame -/

/-- A frame that is sent, cut into chunks of a size. -/
structure SentFrame where
  sender : String
  frameSeq : UInt32
  keyframe : Bool
  codec : VideoCodec
  ptsUs : UInt64
  signature : FrameSignature
  sealedFrame : Bytes
  chunkCap : Nat

namespace SentFrame

variable (f : SentFrame)

def count : Nat :=
  chunkCount f.chunkCap f.sealedFrame.length

def chunkAt (idx : Nat) : Bytes :=
  chunk f.chunkCap f.sealedFrame idx

def header (idx : Nat) : FragmentHeader where
  keyframe := f.keyframe
  codec := f.codec
  ptsUs := f.ptsUs
  sender := f.sender
  frameSeq := f.frameSeq
  fragIdx := idx
  fragCount := f.count
  signature := if idx == 0 then some f.signature else none

def fragment (idx : Nat) : Bytes :=
  fragmentBytes f.sender f.frameSeq f.keyframe f.codec f.ptsUs f.signature f.count idx
    (f.chunkAt idx)

/-- What the receiver hands out. -/
def frame : ReassembledFrame where
  sender := f.sender
  frameSeq := f.frameSeq
  keyframe := f.keyframe
  codec := f.codec
  ptsUs := f.ptsUs
  signature := f.signature
  sealedFrame := f.sealedFrame

/-- The most a fragment takes. -/
def payload : Nat :=
  fixedPrefixLen + (utf8Bytes f.sender).length + fixedSuffixLen + signatureLen + f.chunkCap

/-- The frame is one the sender makes fragments of. -/
structure Sendable : Prop where
  sender_pos : 0 < (utf8Bytes f.sender).length
  sender_le : (utf8Bytes f.sender).length ≤ maxSenderLen
  cap_pos : 0 < f.chunkCap
  count_le : f.count ≤ maxFragsPerFrame

variable {f} {idx : Nat}

theorem valid_header (h : f.Sendable) (hidx : idx < f.count) : (f.header idx).Valid where
  count_pos := chunkCount_pos _ _
  count_le := h.count_le
  idx_lt := hidx
  signed := by
    unfold header
    cases idx == 0 <;> rfl

theorem fragment_eq (f : SentFrame) (idx : Nat) :
    f.fragment idx = (f.header idx).bytes (flagsOf f.keyframe (idx == 0)) ++ f.chunkAt idx := by
  unfold fragment fragmentBytes FragmentHeader.bytes header
  cases idx == 0 <;> rfl

theorem parseFragment_fragment (h : f.Sendable) (hidx : idx < f.count) :
    parseFragment (f.fragment idx) = some (f.header idx, f.chunkAt idx) := by
  rw [fragment_eq]
  exact parseFragment_bytes ⟨valid_header h hidx, h.sender_pos, h.sender_le⟩
    (flagsOf_keyframe _ _) (flagsOf_hasSignature _ _) _

theorem length_fragment_le (f : SentFrame) (idx : Nat) : (f.fragment idx).length ≤ f.payload := by
  have hchunk : (f.chunkAt idx).length ≤ f.chunkCap := by
    rw [chunkAt, length_chunk]
    exact Nat.min_le_left _ _
  have hsig : (if idx == 0 then f.signature.val else []).length ≤ signatureLen := by
    cases idx == 0 with
    | false => exact Nat.zero_le _
    | true => exact f.signature.property.le
  unfold fragment fragmentBytes payload fixedPrefixLen fixedSuffixLen
  simp only [List.length_append, List.length_cons, List.length_nil, length_beBytes]
  omega

theorem flatMap_chunkAt (hcap : 0 < f.chunkCap) :
    (List.range f.count).flatMap f.chunkAt = f.sealedFrame :=
  flatMap_chunk_eq (le_chunkCount_mul hcap f.sealedFrame.length)

end SentFrame

theorem sendable_of_fragmentFrame {sender : String} {frameSeq : UInt32} {keyframe : Bool}
    {codec : VideoCodec} {ptsUs : UInt64} {signature : FrameSignature} {sealedFrame : Bytes}
    {maxPayload : Nat} {frags : List Bytes}
    (h : fragmentFrame sender frameSeq keyframe codec ptsUs signature sealedFrame maxPayload =
      some frags) :
    ∃ f : SentFrame, f.Sendable ∧ frags = (List.range f.count).map f.fragment ∧
      f.sealedFrame = sealedFrame ∧
      f.frame = ⟨sender, frameSeq, keyframe, codec, ptsUs, signature, sealedFrame⟩ ∧
      f.payload = maxPayload := by
  unfold fragmentFrame at h
  dsimp only at h
  split at h
  · cases h
  · next hsender =>
    split at h
    · cases h
    · next hroom =>
      split at h
      · cases h
      · next hcap =>
        split at h
        · cases h
        · next hcount =>
          refine ⟨⟨sender, frameSeq, keyframe, codec, ptsUs, signature, sealedFrame, maxPayload -
            (fixedPrefixLen + (utf8Bytes sender).length + fixedSuffixLen + signatureLen)⟩,
            ⟨?_, ?_, ?_, ?_⟩, (Option.some.inj h).symm, rfl, rfl, ?_⟩
          · dsimp only
            omega
          · dsimp only
            omega
          · exact Nat.pos_of_ne_zero hcap
          · exact Nat.not_lt.mp hcount
          · exact Nat.add_sub_of_le (Nat.not_lt.mp hroom)

theorem slice?_chunk {cap idx : Nat} {bs : Bytes} (h : idx * cap ≤ bs.length) :
    slice? bs (idx * cap) (min (idx * cap + cap) bs.length) = some (chunk cap bs idx) := by
  have htake : min (idx * cap + cap) bs.length - idx * cap = min cap (bs.length - idx * cap) := by
    omega
  rw [slice?, if_pos ⟨by omega, Nat.min_le_right _ _⟩, htake, chunk, ← List.length_drop]
  refine congrArg some (List.take_eq_take_iff.mpr ?_)
  rw [Nat.min_assoc, Nat.min_self]

theorem mapM_slice? {cap : Nat} (hcap : 0 < cap) (bs : Bytes) (g : Nat → Bytes → Bytes) :
    (List.range (chunkCount cap bs.length)).mapM (fun idx => do
        let piece ← slice? bs (idx * cap) (min (idx * cap + cap) bs.length)
        return g idx piece) =
      some ((List.range (chunkCount cap bs.length)).map fun idx => g idx (chunk cap bs idx)) := by
  rw [JsonText.mapM_eq_some_iff, List.map_map]
  refine List.map_congr_left fun idx hidx => ?_
  rw [slice?_chunk (mul_le_of_lt_chunkCount hcap (List.mem_range.mp hidx))]
  rfl

theorem fragmentFrameChecked_eq (sender : String) (frameSeq : UInt32) (keyframe : Bool)
    (codec : VideoCodec) (ptsUs : UInt64) (signature : FrameSignature) (sealedFrame : Bytes)
    (maxPayload : Nat) :
    fragmentFrameChecked sender frameSeq keyframe codec ptsUs signature sealedFrame maxPayload =
      some (fragmentFrame sender frameSeq keyframe codec ptsUs signature sealedFrame maxPayload) := by
  unfold fragmentFrameChecked fragmentFrame
  dsimp only
  split
  · rfl
  · split
    · rfl
    · split
      · rfl
      · split
        · rfl
        · next hcap _ =>
          rw [mapM_slice? (Nat.pos_of_ne_zero hcap)]
          rfl

/-- The parser takes exactly the fragments and no index of it is out of bounds; the fragments
of a frame are read back, each with its own header and chunk, and each fits a datagram. -/
theorem fragments_exact :
    (∀ buf hdr chunk, parseFragment buf = some (hdr, chunk) ↔ IsFragment buf hdr chunk) ∧
    (∀ buf, parseFragmentChecked buf = some (parseFragment buf)) ∧
    ∀ sender frameSeq keyframe codec ptsUs signature sealedFrame maxPayload,
      fragmentFrameChecked sender frameSeq keyframe codec ptsUs signature sealedFrame maxPayload =
        some (fragmentFrame sender frameSeq keyframe codec ptsUs signature sealedFrame maxPayload) ∧
      ∀ frags,
        fragmentFrame sender frameSeq keyframe codec ptsUs signature sealedFrame maxPayload =
          some frags →
        (∀ frag ∈ frags, frag.length ≤ maxPayload) ∧
        ∃ chunks : List Bytes, chunks.flatten = sealedFrame ∧
          frags.map parseFragment = chunks.mapIdx fun idx piece =>
            some (⟨keyframe, codec, ptsUs, sender, frameSeq, idx, chunks.length,
              if idx == 0 then some signature else none⟩, piece) := by
  refine ⟨fun _ _ _ => parseFragment_eq_some_iff, parseFragmentChecked_eq, ?_⟩
  intro sender frameSeq keyframe codec ptsUs signature sealedFrame maxPayload
  refine ⟨fragmentFrameChecked_eq _ _ _ _ _ _ _ _, fun frags h => ?_⟩
  obtain ⟨f, hsendable, rfl, rfl, hframe, rfl⟩ := sendable_of_fragmentFrame h
  rw [SentFrame.frame, ReassembledFrame.mk.injEq] at hframe
  obtain ⟨rfl, rfl, rfl, rfl, rfl, rfl, -⟩ := hframe
  constructor
  · intro frag hfrag
    obtain ⟨idx, -, rfl⟩ := List.mem_map.mp hfrag
    exact f.length_fragment_le idx
  · refine ⟨(List.range f.count).map f.chunkAt, ?_, ?_⟩
    · rw [← List.flatMap_def]
      exact SentFrame.flatMap_chunkAt hsendable.cap_pos
    · rw [List.length_map, List.length_range, List.map_map]
      refine List.ext_getElem? fun idx => ?_
      rw [List.getElem?_map, List.getElem?_mapIdx, List.getElem?_map]
      by_cases hidx : idx < f.count
      · rw [List.getElem?_range hidx]
        exact congrArg some (SentFrame.parseFragment_fragment hsendable hidx)
      · rw [List.getElem?_eq_none (by rw [List.length_range]; omega)]
        rfl

/-! ## A frame of two fragments -/

theorem length_replicate_signature : (List.replicate 64 (7 : UInt8)).length = signatureLen :=
  List.length_replicate

def sampleSignature : FrameSignature :=
  ⟨List.replicate 64 7, length_replicate_signature⟩

def sampleFragments : List Bytes :=
  (fragmentFrame "alice" 9 true .h264 5 sampleSignature [1, 2, 3, 4] 91).getD []

theorem sampleFragments_eq :
    fragmentFrame "alice" 9 true .h264 5 sampleSignature [1, 2, 3, 4] 91 = some sampleFragments := by
  decide +kernel

theorem sampleFragments_exact :
    (∀ frag ∈ sampleFragments, frag.length ≤ 91) ∧
      ∃ chunks : List Bytes, chunks.flatten = [1, 2, 3, 4] ∧
        sampleFragments.map parseFragment = chunks.mapIdx fun idx piece =>
          some (⟨true, .h264, 5, "alice", 9, idx, chunks.length,
            if idx == 0 then some sampleSignature else none⟩, piece) :=
  (fragments_exact.2.2 "alice" 9 true .h264 5 sampleSignature [1, 2, 3, 4] 91).2 sampleFragments
    sampleFragments_eq

end ConquerD.Client.Video
