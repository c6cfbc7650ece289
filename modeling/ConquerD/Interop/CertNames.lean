import ConquerD.Client.Tls
import ConquerD.Lib.Slice
import ConquerD.Supernode.Tls

/-!
# The name in a certificate, as both programs read it

The client decodes the length of the common name as DER does, the supernode
takes it for one byte. Both look for the name behind the first place where the
three bytes of its identifier stand, whatever they are part of. So the two agree
on short names, and on the certificates the programs make unless the bytes
before the name have the identifier in them.
-/

namespace ConquerD.Interop.CertNames

open Lib.Encoding Lib.Slice ConquerD.Transport
open ConquerD.Client (parseCnFromDer parseDerLength parseCnFromDer_eq)
open ConquerD.Supernode (x509ParserLite x509ParserLite_eq)

/-- The client's reader with its sums and indices checked: nothing is a program
that stopped. -/
def parseCnFromDerChecked (der : Bytes) : Option (Option String) :=
  match windowPosition cnOid der with
  | none => some none
  | some pos =>
    let afterOid := pos + cnOid.length
    if afterOid ≥ der.length then some none
    else
      der[afterOid]? >>= fun tag =>
        if tag ≠ 0x0C ∧ tag ≠ 0x13 then some none
        else
          let lenPos := afterOid + 1
          if lenPos ≥ der.length then some none
          else
            match parseDerLength (der.drop lenPos) with
            | none => some none
            | some (valueLen, consumed) =>
              addUsize lenPos consumed >>= fun valueStart =>
                addUsize valueStart valueLen >>= fun valueEnd =>
                  if valueEnd > der.length then some none
                  else slice? der valueStart valueEnd >>= fun value => some (fromUtf8 value)

/-! ## Lengths -/

/-- The number that bytes spell, the highest first. -/
def spelled (digits : Bytes) : Nat :=
  digits.foldl (fun n b => n * 256 + b.toNat) 0

/-- The number of bytes that spell a long length, by its first byte. -/
def digitCount (first : UInt8) : Nat :=
  (first &&& 0x7F).toNat

/-- The bytes spell a length that is kept in a machine word. -/
def longLength (first : UInt8) (rest : Bytes) : Nat :=
  spelled (rest.take (digitCount first)) % 2 ^ 64

/-- The bytes of a long length are there. -/
def HasDigits (first : UInt8) (rest : Bytes) : Prop :=
  1 ≤ digitCount first ∧ digitCount first ≤ rest.length

theorem foldl_mod (digits : Bytes) (n : Nat) :
    digits.foldl (fun len b => (len * 256 + b.toNat) % 2 ^ 64) (n % 2 ^ 64) =
      digits.foldl (fun n b => n * 256 + b.toNat) n % 2 ^ 64 := by
  induction digits generalizing n with
  | nil => rfl
  | cons b digits ih =>
    have hstep : (n % 2 ^ 64 * 256 + b.toNat) % 2 ^ 64 = (n * 256 + b.toNat) % 2 ^ 64 := by
      omega
    rw [List.foldl_cons, List.foldl_cons, hstep, ih]

theorem parseDerLength_short {first : UInt8} (h : first < 0x80) (rest : Bytes) :
    parseDerLength (first :: rest) = some (first.toNat, 1) :=
  if_pos h

theorem parseDerLength_long {first : UInt8} (h : ¬ first < 0x80) {rest : Bytes}
    (hdigits : HasDigits first rest) :
    parseDerLength (first :: rest) = some (longLength first rest, 1 + digitCount first) := by
  obtain ⟨hpos, hle⟩ := hdigits
  unfold digitCount at hpos hle
  rw [parseDerLength, if_neg h]
  simp only [List.length_cons]
  rw [if_neg (by omega), longLength, spelled, ← foldl_mod, Nat.zero_mod]
  rfl

theorem parseDerLength_none {first : UInt8} (h : ¬ first < 0x80) {rest : Bytes}
    (hdigits : ¬ HasDigits first rest) : parseDerLength (first :: rest) = none := by
  unfold HasDigits digitCount at hdigits
  rw [parseDerLength, if_neg h]
  simp only [List.length_cons]
  rw [if_pos (by omega)]

/-! ## Where the client's sum overflows -/

/-- The bytes behind the identifier are a text in long form that ends past the
last machine word. -/
def EndOverflows (pre : Bytes) (first : UInt8) (rest : Bytes) : Prop :=
  HasDigits first rest ∧
    usizeBound ≤ pre.length + 5 + digitCount first + longLength first rest

/-- A text in long form stands behind the first identifier. -/
structure LongForm (der pre : Bytes) (tag first : UInt8) (rest : Bytes) : Prop where
  split : der = pre ++ cnOid ++ (tag :: first :: rest)
  window : FirstWindow cnOid pre (tag :: first :: rest)
  text : tag = 0x0C ∨ tag = 0x13
  long : ¬ first < 0x80

theorem getElem?_pre (pre tail : Bytes) (k : Nat) :
    (pre ++ cnOid ++ tail)[pre.length + cnOid.length + k]? = tail[k]? := by
  rw [List.getElem?_append_right (by rw [List.length_append]; omega), List.length_append]
  congr 1
  omega

theorem drop_pre (pre tail : Bytes) (k : Nat) :
    (pre ++ cnOid ++ tail).drop (pre.length + cnOid.length + k) = tail.drop k := by
  rw [← List.length_append, List.drop_length_add_append]

/-- The checked reader stops where the sum overflows and reads the same otherwise. -/
theorem checked_of_firstWindow {pre tail : Bytes} (hw : FirstWindow cnOid pre tail)
    (hlen : (pre ++ cnOid ++ tail).length < 2 ^ 63) :
    PanicsIff (parseCnFromDerChecked (pre ++ cnOid ++ tail))
      (parseCnFromDer (pre ++ cnOid ++ tail))
      (∃ tag first rest, tail = tag :: first :: rest ∧ (tag = 0x0C ∨ tag = 0x13) ∧
        ¬ first < 0x80 ∧ EndOverflows pre first rest) := by
  have hbound : usizeBound = 2 ^ 63 + 2 ^ 63 := by decide
  have hpos : windowPosition cnOid (pre ++ cnOid ++ tail) = some pre.length :=
    (windowPosition_eq_some_iff (by decide)).mpr ⟨pre, tail, rfl, rfl, hw⟩
  have hoid : cnOid.length = 3 := rfl
  rw [parseCnFromDer_eq hw]
  unfold parseCnFromDerChecked
  simp only [hpos]
  rw [List.length_append, List.length_append] at hlen ⊢
  cases tail with
  | nil =>
    refine .of_eq ?_ (by rintro ⟨tag, first, rest, heq, -⟩; cases heq)
    rw [if_pos (by rw [List.length_nil]; omega)]
    rfl
  | cons tag body =>
    have htagAt := getElem?_pre pre (tag :: body) 0
    rw [Nat.add_zero] at htagAt
    rw [if_neg (by rw [List.length_cons]; omega), htagAt, List.getElem?_cons_zero,
      some_bind, Client.cnAfterOid]
    by_cases htag : tag ≠ 0x0C ∧ tag ≠ 0x13
    · rw [if_pos htag, if_pos htag]
      refine .of_eq rfl ?_
      rintro ⟨_, _, _, heq, hor, -⟩
      cases heq
      tauto
    · rw [if_neg htag, if_neg htag, drop_pre, List.drop_succ_cons, List.drop_zero]
      cases body with
      | nil =>
        refine .of_eq ?_ (by rintro ⟨_, _, _, heq, -⟩; cases heq)
        rw [if_pos (by simp only [List.length_cons, List.length_nil]; omega)]
        rfl
      | cons first rest =>
        rw [if_neg (by simp only [List.length_cons]; omega)]
        simp only [List.length_cons] at hlen ⊢
        -- the value, when its length is known and its sum is in a word
        have hvalue : ∀ valueLen consumed, 1 ≤ consumed → consumed ≤ rest.length + 1 →
            pre.length + cnOid.length + 1 + consumed + valueLen < usizeBound →
            (addUsize (pre.length + cnOid.length + 1) consumed >>= fun valueStart =>
              addUsize valueStart valueLen >>= fun valueEnd =>
                if valueEnd > pre.length + cnOid.length + (rest.length + 1 + 1) then some none
                else
                  slice? (pre ++ cnOid ++ tag :: first :: rest) valueStart valueEnd >>=
                    fun value => some (fromUtf8 value)) =
              some (if consumed + valueLen > rest.length + 1 then none
                else fromUtf8 (((first :: rest).drop consumed).take valueLen)) := by
          intro valueLen consumed hone hconsumed hsum
          rw [addUsize_of_lt (by omega), some_bind,
            addUsize_of_lt hsum, some_bind]
          by_cases hfit : consumed + valueLen > rest.length + 1
          · rw [if_pos (by omega), if_pos hfit]
          · have hend : pre.length + cnOid.length + 1 + consumed + valueLen ≤
                (pre ++ cnOid ++ tag :: first :: rest).length := by
              simp only [List.length_append, List.length_cons]
              omega
            rw [if_neg (by omega), if_neg hfit, slice?_add hend, Nat.add_assoc _ 1 consumed,
              drop_pre, Nat.add_comm 1 consumed, List.drop_succ_cons]
            rfl
        by_cases hshort : first < 0x80
        · have hsmall : first.toNat < 128 := UInt8.lt_iff_toNat_lt.mp hshort
          rw [parseDerLength_short hshort]
          refine .of_eq (hvalue first.toNat 1 (Nat.le_refl 1) (by omega) (by omega)) ?_
          rintro ⟨_, _, _, heq, -, hlong, -⟩
          cases heq
          exact hlong hshort
        · by_cases hdigits : HasDigits first rest
          · rw [parseDerLength_long hshort hdigits]
            have hcount := hdigits.2
            constructor
            · rintro ⟨_, _, _, heq, -, -, hover⟩
              cases heq
              obtain ⟨-, hsum⟩ := hover
              simp only
              rw [addUsize_of_lt (by omega), some_bind, addUsize,
                if_neg (by omega)]
              rfl
            · intro hnot
              refine hvalue _ _ (by omega) (by omega) ?_
              by_contra hover
              exact hnot ⟨tag, first, rest, rfl, by tauto, hshort, hdigits, by omega⟩
          · rw [parseDerLength_none hshort hdigits]
            refine .of_eq rfl ?_
            rintro ⟨_, _, _, heq, -, -, hover⟩
            cases heq
            exact hdigits hover.1

/-- The client's reader stops exactly when the end of a text in long form is no
machine word. -/
theorem parseCnFromDerChecked_eq_none_iff {der : Bytes} (hlen : der.length < 2 ^ 63) :
    parseCnFromDerChecked der = none ↔
      ∃ pre tag first rest, LongForm der pre tag first rest ∧ EndOverflows pre first rest := by
  constructor
  · intro hnone
    cases hp : windowPosition cnOid der with
    | none =>
      unfold parseCnFromDerChecked at hnone
      rw [hp] at hnone
      cases hnone
    | some pos =>
      obtain ⟨pre, tail, rfl, -, hw⟩ := (windowPosition_eq_some_iff (by decide)).mp hp
      have hpanics := checked_of_firstWindow hw hlen
      by_contra hnot
      rw [hpanics.returns] at hnone
      · cases hnone
      · rintro ⟨tag, first, rest, rfl, htag, hlong, hover⟩
        exact hnot ⟨pre, tag, first, rest, ⟨rfl, hw, htag, hlong⟩, hover⟩
  · rintro ⟨pre, tag, first, rest, ⟨rfl, hw, htag, hlong⟩, hover⟩
    exact (checked_of_firstWindow hw hlen).panics ⟨tag, first, rest, rfl, htag, hlong, hover⟩

/-! ## Where the two readers part -/

/-- The text as the client reads it is there and is valid. -/
def ClientReads (first : UInt8) (rest : Bytes) : Prop :=
  HasDigits first rest ∧ digitCount first + longLength first rest ≤ rest.length ∧
    (fromUtf8 ((rest.drop (digitCount first)).take (longLength first rest))).isSome = true

/-- The text as the supernode reads it is there and is valid. -/
def SupernodeReads (first : UInt8) (rest : Bytes) : Prop :=
  first.toNat ≤ rest.length ∧ (fromUtf8 (rest.take first.toNat)).isSome = true

/-- Each reader returns a name exactly when the other returns that name. -/
def Agree (der : Bytes) : Prop :=
  ∀ cn, parseCnFromDerChecked der = some (some cn) ↔ x509ParserLite der = .ok cn

theorem digitCount_add {first : UInt8} (h : ¬ first < 0x80) :
    first.toNat = 128 + digitCount first := by
  have hall : ∀ i : Fin 256, ¬ UInt8.ofFin i < 0x80 →
      (UInt8.ofFin i).toNat = 128 + (UInt8.ofFin i &&& 0x7F).toNat := by
    decide +kernel
  exact hall first.toFin h

theorem supernode_ok_iff {tag first : UInt8} {rest : Bytes} (htag : tag = 0x0C ∨ tag = 0x13)
    (cn : String) :
    Supernode.cnAfterOid (tag :: first :: rest) = .ok cn ↔
      first.toNat ≤ rest.length ∧ fromUtf8 (rest.take first.toNat) = some cn := by
  rw [Supernode.cnAfterOid]
  by_cases hle : first.toNat ≤ rest.length
  · rw [if_pos ⟨htag, hle⟩]
    cases fromUtf8 (rest.take first.toNat) with
    | none => simp
    | some s => simp [hle]
  · rw [if_neg fun h => hle h.2]
    constructor
    · intro h
      cases h
    · exact fun h => absurd h.1 hle

theorem client_long_iff {tag first : UInt8} {rest : Bytes} (htag : tag = 0x0C ∨ tag = 0x13)
    (hlong : ¬ first < 0x80) (cn : String) :
    Client.cnAfterOid (tag :: first :: rest) = some cn ↔
      HasDigits first rest ∧ digitCount first + longLength first rest ≤ rest.length ∧
        fromUtf8 ((rest.drop (digitCount first)).take (longLength first rest)) = some cn := by
  rw [Client.cnAfterOid, if_neg (by tauto)]
  by_cases hdigits : HasDigits first rest
  · rw [parseDerLength_long hlong hdigits, and_iff_right hdigits]
    simp only [List.length_cons]
    rw [Nat.add_comm 1 (digitCount first), List.drop_succ_cons]
    by_cases hfit : digitCount first + longLength first rest ≤ rest.length
    · rw [if_neg (by omega), and_iff_right hfit]
    · rw [if_pos (by omega)]
      constructor
      · intro h
        cases h
      · exact fun h => absurd h.1 hfit
  · rw [parseDerLength_none hlong hdigits]
    constructor
    · intro h
      cases h
    · exact fun h => absurd h.1 hdigits

theorem client_short_iff {tag first : UInt8} {rest : Bytes} (htag : tag = 0x0C ∨ tag = 0x13)
    (hshort : first < 0x80) (cn : String) :
    Client.cnAfterOid (tag :: first :: rest) = some cn ↔
      first.toNat ≤ rest.length ∧ fromUtf8 (rest.take first.toNat) = some cn := by
  rw [Client.cnAfterOid, if_neg (by tauto), parseDerLength_short hshort]
  simp only [List.length_cons, List.drop_succ_cons, List.drop_zero]
  by_cases hle : first.toNat ≤ rest.length
  · rw [if_neg (by omega), and_iff_right hle]
  · rw [if_pos (by omega)]
    constructor
    · intro h
      cases h
    · exact fun h => absurd h.1 hle

/-! ### Bytes of a valid text -/

theorem le_or (b : UInt8) :
    0x80 ≤ (b ||| 0x80) ∧ 0x80 ≤ (b ||| 0xc0) ∧ 0x80 ≤ (b ||| 0xe0) ∧ 0x80 ≤ (b ||| 0xf0) := by
  have hall : ∀ i : Fin 256, 0x80 ≤ (UInt8.ofFin i ||| 0x80) ∧ 0x80 ≤ (UInt8.ofFin i ||| 0xc0) ∧
      0x80 ≤ (UInt8.ofFin i ||| 0xe0) ∧ 0x80 ≤ (UInt8.ofFin i ||| 0xf0) := by
    decide +kernel
  exact hall b.toFin

theorem le_of_mem_utf8EncodeChar {c : Char} (hsize : c.utf8Size ≠ 1) {b : UInt8}
    (hb : b ∈ String.utf8EncodeChar c) : 0x80 ≤ b := by
  have hpos := c.utf8Size_pos
  have hmax := c.utf8Size_le_four
  rcases (by omega : c.utf8Size = 2 ∨ c.utf8Size = 3 ∨ c.utf8Size = 4) with h | h | h
  · rw [String.utf8EncodeChar_eq_cons_cons h] at hb
    simp only [List.mem_cons, List.not_mem_nil, or_false] at hb
    rcases hb with rfl | rfl
    · exact (le_or _).2.1
    · exact (le_or _).1
  · rw [String.utf8EncodeChar_eq_cons_cons_cons h] at hb
    simp only [List.mem_cons, List.not_mem_nil, or_false] at hb
    rcases hb with rfl | rfl | rfl
    · exact (le_or _).2.2.1
    · exact (le_or _).1
    · exact (le_or _).1
  · rw [String.utf8EncodeChar_eq_cons_cons_cons_cons h] at hb
    simp only [List.mem_cons, List.not_mem_nil, or_false] at hb
    rcases hb with rfl | rfl | rfl | rfl
    · exact (le_or _).2.2.2
    · exact (le_or _).1
    · exact (le_or _).1
    · exact (le_or _).1

theorem lt_of_mem_utf8EncodeChar {c : Char} (hsize : c.utf8Size = 1) {b : UInt8}
    (hb : b ∈ String.utf8EncodeChar c) : b < 0x80 := by
  have hle : c.toNat ≤ 127 := UInt32.le_iff_toNat_le.mp (le_of_utf8Size_eq_one hsize)
  rw [String.utf8EncodeChar_eq_singleton hsize, List.mem_singleton] at hb
  have hbyte : c.val.toUInt8.toNat = c.toNat % 256 := UInt32.toNat_toUInt8 c.val
  rw [hb, UInt8.lt_iff_toNat_lt, hbyte]
  have h80 : (0x80 : UInt8).toNat = 128 := rfl
  omega

theorem starts_iff {c : Char} {i : Nat} {b : UInt8}
    (h : (String.utf8EncodeChar c)[i]? = some b) : b.IsUTF8FirstByte ↔ i = 0 := by
  obtain ⟨hi, rfl⟩ := List.getElem?_eq_some_iff.mp h
  exact UInt8.isUTF8FirstByte_getElem_utf8EncodeChar

theorem utf8EncodeChar_zero (c : Char) : ∃ b, (String.utf8EncodeChar c)[0]? = some b := by
  have hlen : 0 < (String.utf8EncodeChar c).length := by
    rw [String.length_utf8EncodeChar]
    exact c.utf8Size_pos
  exact ⟨_, List.getElem?_eq_getElem hlen⟩

theorem bytesOf_cons (c : Char) (cs : List Char) :
    bytesOf (c :: cs) = String.utf8EncodeChar c ++ bytesOf cs :=
  List.flatMap_cons

theorem bytesOf_zero {cs : List Char} {b : UInt8} (h : (bytesOf cs)[0]? = some b) :
    b.IsUTF8FirstByte := by
  cases cs with
  | nil => cases h
  | cons c cs =>
    obtain ⟨d, hd⟩ := utf8EncodeChar_zero c
    obtain ⟨hlen, -⟩ := List.getElem?_eq_some_iff.mp hd
    rw [bytesOf_cons, List.getElem?_append_left hlen, hd] at h
    rw [← Option.some.inj h]
    exact (starts_iff hd).mpr rfl

theorem starts_after_ascii {cs : List Char} {i : Nat} {a b : UInt8}
    (ha : (bytesOf cs)[i]? = some a) (hascii : a < 0x80) (hb : (bytesOf cs)[i + 1]? = some b) :
    b.IsUTF8FirstByte := by
  induction cs generalizing i with
  | nil => cases ha
  | cons c cs ih =>
    rw [bytesOf_cons] at ha hb
    by_cases hi : i < (String.utf8EncodeChar c).length
    · rw [List.getElem?_append_left hi] at ha
      have hmem := List.mem_of_getElem? ha
      have hsize : c.utf8Size = 1 := by
        by_contra hne
        exact absurd (le_of_mem_utf8EncodeChar hne hmem) (UInt8.not_le.mpr hascii)
      have hlen : (String.utf8EncodeChar c).length = 1 := by
        rw [String.length_utf8EncodeChar, hsize]
      rw [List.getElem?_append_right (by omega), hlen, Nat.add_sub_cancel] at hb
      have hi0 : i = 0 := by omega
      rw [hi0] at hb
      exact bytesOf_zero hb
    · rw [List.getElem?_append_right (by omega)] at ha hb
      rw [Nat.sub_add_comm (by omega)] at hb
      exact ih ha hb

theorem not_starts_after_lead {cs : List Char} {i : Nat} {a b : UInt8}
    (ha : (bytesOf cs)[i]? = some a) (hlead : a.IsUTF8FirstByte) (hwide : 0x80 ≤ a)
    (hb : (bytesOf cs)[i + 1]? = some b) : ¬ b.IsUTF8FirstByte := by
  induction cs generalizing i with
  | nil => cases ha
  | cons c cs ih =>
    rw [bytesOf_cons] at ha hb
    by_cases hi : i < (String.utf8EncodeChar c).length
    · rw [List.getElem?_append_left hi] at ha
      have hi0 := (starts_iff ha).mp hlead
      have hsize : c.utf8Size ≠ 1 := fun hone =>
        absurd (lt_of_mem_utf8EncodeChar hone (List.mem_of_getElem? ha)) (UInt8.not_lt.mpr hwide)
      have hpos := c.utf8Size_pos
      have hnext : i + 1 < (String.utf8EncodeChar c).length := by
        rw [String.length_utf8EncodeChar]
        omega
      rw [List.getElem?_append_left hnext] at hb
      rw [starts_iff hb]
      omega
    · rw [List.getElem?_append_right (by omega)] at ha hb
      rw [Nat.sub_add_comm (by omega)] at hb
      exact ih ha hb

theorem bytesOf_of_fromUtf8 {bs : Bytes} (h : (fromUtf8 bs).isSome = true) :
    ∃ cs, bs = bytesOf cs := by
  obtain ⟨s, hs⟩ := Option.isSome_iff_exists.mp h
  unfold fromUtf8 String.fromUTF8? at hs
  split at hs
  · next hvalid =>
    obtain ⟨cs, hcs⟩ := hvalid
    refine ⟨cs, ?_⟩
    have hdata := congrArg (fun b : ByteArray => b.data.toList) hcs
    simpa [List.utf8Encode, bytesOf] using hdata
  · cases hs

/-! ### Long form -/

theorem spelled_append (digits : Bytes) (d : UInt8) :
    spelled (digits ++ [d]) = spelled digits * 256 + d.toNat := by
  rw [spelled, List.foldl_append]
  rfl

/-- The last digit of a length below 256 is that length, and the one before it is zero. -/
theorem digits_of_small {digits : Bytes} {n : Nat} (hn : n < 256)
    (h : spelled digits % 2 ^ 64 = n) :
    (∀ front d, digits = front ++ [d] → d.toNat = n) ∧
      ∀ front e d, digits = front ++ [e, d] → e.toNat = 0 := by
  constructor
  · rintro front d rfl
    rw [spelled_append] at h
    have hd := d.toNat_lt
    omega
  · rintro front e d rfl
    have hsplit : front ++ [e, d] = front ++ [e] ++ [d] := by simp
    rw [hsplit, spelled_append, spelled_append] at h
    have hd := d.toNat_lt
    have he := e.toNat_lt
    omega

/-- A text cannot go on, after the bytes that spell its length, with itself. -/
theorem not_periodic {first : UInt8} {rest : Bytes} (hlong : ¬ first < 0x80)
    (hdigits : HasDigits first rest) (hlen : longLength first rest = first.toNat)
    (hvalid : (fromUtf8 (rest.take first.toNat)).isSome = true)
    (hfit : first.toNat ≤ rest.length) : rest[0]? ≠ rest[digitCount first]? := by
  intro hsame
  have hcount := digitCount_add hlong
  have hmax := first.toNat_lt
  obtain ⟨cs, hcs⟩ := bytesOf_of_fromUtf8 hvalid
  obtain ⟨hpos, hle⟩ := hdigits
  have hat : ∀ i, i < first.toNat → (bytesOf cs)[i]? = rest[i]? := fun i hi => by
    rw [← hcs, List.getElem?_take_of_lt hi]
  obtain ⟨hlast, hbefore⟩ := digits_of_small (by omega) hlen
  generalize digitCount first = n at *
  -- the last byte of the length is the byte that announced it
  have hlastAt : rest[n - 1]? = some first := by
    have hin : n - 1 < rest.length := by omega
    have htake : rest.take n = rest.take (n - 1) ++ [rest[n - 1]] := by
      rw [← List.take_succ_eq_append_getElem hin]
      congr 1
      omega
    have hnum := hlast _ _ htake
    rw [List.getElem?_eq_getElem hin, UInt8.toNat_inj.mp hnum]
  obtain ⟨b, hb⟩ : ∃ b, rest[n]? = some b := ⟨_, List.getElem?_eq_getElem (by omega)⟩
  have hstart : b.IsUTF8FirstByte := bytesOf_zero (by rw [hat 0 (by omega), hsame, hb])
  have hlead : first.IsUTF8FirstByte := by
    by_cases hone : n = 1
    · subst hone
      exact bytesOf_zero (by rw [hat 0 (by omega)]; exact hlastAt)
    · have hin : n - 2 < rest.length := by omega
      have hin' : n - 2 + 1 < rest.length := by omega
      have htake : rest.take n = rest.take (n - 2) ++ [rest[n - 2], rest[n - 2 + 1]] := by
        have hn : n = n - 2 + 1 + 1 := by omega
        have hsucc : rest.take n = rest.take (n - 2 + 1) ++ [rest[n - 2 + 1]] := by
          rw [← List.take_succ_eq_append_getElem hin', ← hn]
        rw [hsucc, List.take_succ_eq_append_getElem hin, List.append_assoc]
        rfl
      have hzero := hbefore _ _ _ htake
      have hascii : rest[n - 2] < 0x80 := by
        rw [UInt8.lt_iff_toNat_lt, hzero]
        decide
      have hn : n - 2 + 1 = n - 1 := by omega
      have hbeforeAt : (bytesOf cs)[n - 2]? = some rest[n - 2] := by
        rw [hat (n - 2) (by omega)]
        exact List.getElem?_eq_getElem hin
      exact starts_after_ascii hbeforeAt hascii (by rw [hn, hat (n - 1) (by omega)]; exact hlastAt)
  have hn : n - 1 + 1 = n := by omega
  have hleadAt : (bytesOf cs)[n - 1]? = some first := by
    rw [hat (n - 1) (by omega)]
    exact hlastAt
  exact not_starts_after_lead hleadAt hlead (UInt8.not_lt.mp hlong)
    (by rw [hn, hat n (by omega)]; exact hb) hstart

theorem long_names_differ {first : UInt8} {rest : Bytes} {cn : String} (hlong : ¬ first < 0x80)
    (hdigits : HasDigits first rest)
    (hfit : digitCount first + longLength first rest ≤ rest.length)
    (hclient : fromUtf8 ((rest.drop (digitCount first)).take (longLength first rest)) = some cn)
    (hle : first.toNat ≤ rest.length) :
    fromUtf8 (rest.take first.toNat) ≠ some cn := by
  intro hsupernode
  have hsame := (utf8Bytes_of_fromUtf8 hclient).symm.trans (utf8Bytes_of_fromUtf8 hsupernode)
  have hlen := congrArg List.length hsame
  rw [List.length_take, List.length_drop, List.length_take] at hlen
  have hcount := digitCount_add hlong
  refine not_periodic hlong hdigits (by omega) (by rw [hsupernode]; rfl) hle ?_
  have hbyte : ((rest.drop (digitCount first)).take (longLength first rest))[0]? =
      (rest.take first.toNat)[0]? := by
    rw [hsame]
  rw [List.getElem?_take_of_lt (by omega), List.getElem?_take_of_lt (by omega),
    List.getElem?_drop, Nat.add_zero] at hbyte
  exact hbyte.symm

theorem checked_eq_some_iff {pre tail : Bytes} (hw : FirstWindow cnOid pre tail)
    (hlen : (pre ++ cnOid ++ tail).length < 2 ^ 63) (cn : String) :
    parseCnFromDerChecked (pre ++ cnOid ++ tail) = some (some cn) ↔
      Client.cnAfterOid tail = some cn := by
  have hpanics := checked_of_firstWindow hw hlen
  rw [parseCnFromDer_eq hw] at hpanics
  constructor
  · intro h
    rw [hpanics.returns fun hbad => by rw [hpanics.panics hbad] at h; cases h] at h
    exact Option.some.inj h
  · intro h
    rw [hpanics.returns, h]
    rintro ⟨tag, first, rest, rfl, htag, hlong, hdigits, hover⟩
    have hbound : usizeBound = 2 ^ 63 + 2 ^ 63 := by decide
    obtain ⟨-, hfit, -⟩ := (client_long_iff htag hlong cn).mp h
    have hoid : cnOid.length = 3 := rfl
    rw [List.length_append, List.length_append, List.length_cons, List.length_cons] at hlen
    omega

theorem agree_iff {der : Bytes} (hlen : der.length < 2 ^ 63) :
    Agree der ↔ ∀ pre tag first rest, LongForm der pre tag first rest →
      ¬ ClientReads first rest ∧ ¬ SupernodeReads first rest := by
  constructor
  · rintro h pre tag first rest ⟨rfl, hw, htag, hlong⟩
    have hboth : ∀ cn, Client.cnAfterOid (tag :: first :: rest) = some cn ↔
        Supernode.cnAfterOid (tag :: first :: rest) = .ok cn := fun cn => by
      have hcn := h cn
      rwa [checked_eq_some_iff hw hlen, x509ParserLite_eq hw] at hcn
    constructor
    · rintro ⟨hdigits, hfit, hvalid⟩
      obtain ⟨cn, hcn⟩ := Option.isSome_iff_exists.mp hvalid
      obtain ⟨hle, hname⟩ := (supernode_ok_iff htag cn).mp
        ((hboth cn).mp ((client_long_iff htag hlong cn).mpr ⟨hdigits, hfit, hcn⟩))
      exact long_names_differ hlong hdigits hfit hcn hle hname
    · rintro ⟨hle, hvalid⟩
      obtain ⟨cn, hcn⟩ := Option.isSome_iff_exists.mp hvalid
      obtain ⟨hdigits, hfit, hname⟩ := (client_long_iff htag hlong cn).mp
        ((hboth cn).mpr ((supernode_ok_iff htag cn).mpr ⟨hle, hcn⟩))
      exact long_names_differ hlong hdigits hfit hname hle hcn
  · intro h cn
    cases hp : windowPosition cnOid der with
    | none =>
      have hfind : Supernode.findSubsequence der cnOid = none := hp
      rw [parseCnFromDerChecked, hp, x509ParserLite, hfind]
      constructor <;> intro hcn <;> cases hcn
    | some pos =>
      obtain ⟨pre, tail, rfl, -, hw⟩ := (windowPosition_eq_some_iff (by decide)).mp hp
      rw [checked_eq_some_iff hw hlen, x509ParserLite_eq hw]
      rcases tail with _ | ⟨tag, _ | ⟨first, rest⟩⟩
      · constructor <;> intro hcn <;> cases hcn
      · rw [Client.cnAfterOid, Supernode.cnAfterOid]
        constructor
        · intro hcn
          split at hcn
          · cases hcn
          · cases hcn
        · intro hcn
          cases hcn
        · rintro _ _ _ hcons
          cases hcons
      · by_cases htag : tag = 0x0C ∨ tag = 0x13
        · by_cases hshort : first < 0x80
          · rw [client_short_iff htag hshort, supernode_ok_iff htag]
          · obtain ⟨hclient, hsupernode⟩ := h pre tag first rest ⟨rfl, hw, htag, hshort⟩
            rw [client_long_iff htag hshort, supernode_ok_iff htag]
            constructor
            · rintro ⟨hdigits, hfit, hcn⟩
              exact absurd ⟨hdigits, hfit, by rw [hcn]; rfl⟩ hclient
            · rintro ⟨hle, hcn⟩
              exact absurd ⟨hle, by rw [hcn]; rfl⟩ hsupernode
        · rw [Client.cnAfterOid, if_pos (by tauto), Supernode.cnAfterOid,
            if_neg fun h => htag h.1]
          constructor <;> intro hcn <;> cases hcn

/-! ## The programs' own certificates -/

/-- A certificate as it is made from a key: the version, the serial number and
the algorithm stand before the name of the issuer, which is the key in hexadecimal
digits; the validity, the subject, the key and the signature follow. -/
structure SelfSigned where
  front : Bytes
  key : Bytes
  rest : Bytes
  front_short : front.length ≤ 64
  key_length : key.length = 32
  size : front.length + rest.length + 69 < 2 ^ 63

namespace SelfSigned

/-- The name in the certificate. -/
def cn (c : SelfSigned) : String :=
  hexEncode c.key

def bytes (c : SelfSigned) : Bytes :=
  c.front ++ cnOid ++ (0x0C :: 64 :: (utf8Bytes c.cn ++ c.rest))

theorem length_cn (c : SelfSigned) : (utf8Bytes c.cn).length = 64 := by
  have hsize := utf8ByteSize_hexEncode c.key
  rw [c.key_length] at hsize
  have hlen : (utf8Bytes c.cn).length = c.cn.utf8ByteSize := by
    rw [utf8Bytes, Array.length_toList]
    rfl
  rw [hlen, cn, hsize]

theorem names_after_oid (c : SelfSigned) :
    Client.cnAfterOid (0x0C :: 64 :: (utf8Bytes c.cn ++ c.rest)) = some c.cn ∧
      Supernode.cnAfterOid (0x0C :: 64 :: (utf8Bytes c.cn ++ c.rest)) = .ok c.cn := by
  have hlen := c.length_cn
  have htake : (utf8Bytes c.cn ++ c.rest).take (64 : UInt8).toNat = utf8Bytes c.cn :=
    List.take_left' hlen
  have hfit : (64 : UInt8).toNat ≤ (utf8Bytes c.cn ++ c.rest).length := by
    rw [List.length_append, hlen]
    exact Nat.le_add_right 64 _
  constructor
  · rw [client_short_iff (.inl rfl) (by decide), htake, fromUtf8_utf8Bytes]
    exact ⟨hfit, rfl⟩
  · rw [supernode_ok_iff (.inl rfl), htake, fromUtf8_utf8Bytes]
    exact ⟨hfit, rfl⟩

/-- The identifier does not start in what comes before it, unless it is whole there. -/
theorem firstWindow_iff (c : SelfSigned) (tail : Bytes) :
    FirstWindow cnOid c.front tail ↔ ¬ cnOid <:+: c.front := by
  constructor
  · rintro ⟨h⟩ ⟨before, after, heq⟩
    refine h before.length (by rw [← heq]; simp [cnOid]) ?_
    rw [← heq, List.append_assoc, List.append_assoc, List.append_assoc, List.drop_left]
    exact List.prefix_append _ _
  · intro h
    refine ⟨fun i hi hstart => ?_⟩
    obtain ⟨before, after, hsplit, hbefore⟩ : ∃ before after, c.front = before ++ after ∧
        before.length = i :=
      ⟨c.front.take i, c.front.drop i, (List.take_append_drop i _).symm,
        List.length_take_of_le (by omega)⟩
    rw [hsplit, List.append_assoc, List.append_assoc, ← hbefore, List.drop_left] at hstart
    have hlen := congrArg List.length hsplit
    rw [List.length_append] at hlen
    rcases after with _ | ⟨a, _ | ⟨b, _ | ⟨d, after⟩⟩⟩
    · rw [List.length_nil] at hlen
      omega
    · simp [cnOid] at hstart
    · simp [cnOid] at hstart
    · simp only [cnOid, List.cons_append, List.cons_prefix_cons] at hstart
      obtain ⟨rfl, rfl, rfl, -⟩ := hstart
      exact h ⟨before, after, by rw [hsplit, List.append_assoc]; rfl⟩

theorem ne_of_hexDecode {cs bs : Bytes} (h : hexDecode cs = some bs) : ∀ c ∈ cs, c ≠ 64 := by
  induction cs using hexDecode.induct generalizing bs with
  | case1 => simp
  | case2 a => simp [hexDecode] at h
  | case3 a b rest x y tail ht hb ha ih =>
    intro c hc
    rcases List.mem_cons.mp hc with rfl | hc
    · rintro rfl
      cases ha
    · rcases List.mem_cons.mp hc with rfl | hc
      · rintro rfl
        cases hb
      · exact ih ht c hc
  | case4 a b rest hnone ih =>
    unfold hexDecode at h
    split at h
    · next x y tail ha hb ht => exact absurd ht (hnone x y tail ha hb)
    · cases h

/-- Both programs read the name of the certificate exactly when the bytes before
it, the serial number among them, do not have the identifier in them. -/
theorem names_iff (c : SelfSigned) :
    (parseCnFromDerChecked c.bytes = some (some c.cn) ∧ x509ParserLite c.bytes = .ok c.cn) ↔
      ¬ cnOid <:+: c.front := by
  have hcn := c.length_cn
  have hlen : c.bytes.length < 2 ^ 63 := by
    have hsize := c.size
    have hoid : cnOid.length = 3 := rfl
    simp only [bytes, List.length_append, List.length_cons, hcn, hoid]
    omega
  constructor
  · rintro ⟨-, hsupernode⟩ hinside
    have hnot : ¬ FirstWindow cnOid c.front (0x0C :: 64 :: (utf8Bytes c.cn ++ c.rest)) :=
      fun hw => (c.firstWindow_iff _).mp hw hinside
    obtain ⟨pre, tag, len, body, hder, hw, -, hle, hname⟩ := Supernode.x509ParserLite_ok_iff.mp hsupernode
    have htext := utf8Bytes_of_fromUtf8 hname
    have hbody := congrArg List.length htext
    rw [hcn, List.length_take_of_le hle] at hbody
    -- the identifier that is found stands before the one of the name
    have hbefore : pre.length < c.front.length := by
      by_contra hge
      refine hnot ⟨fun i hi hstart => ?_⟩
      refine hw.notEarlier i (by omega) ?_
      rw [← hder]
      exact hstart
    -- so the text that is read there covers the length byte of the name
    have hat : body[c.front.length - pre.length - 1]? = some 64 := by
      have hbytes : c.bytes[c.front.length + 4]? = some 64 := by
        rw [bytes, List.append_assoc, List.getElem?_append_right (by omega),
          Nat.add_sub_cancel_left]
        rfl
      have hright : (pre ++ cnOid ++ (tag :: len :: body))[c.front.length + 4]? =
          body[c.front.length - pre.length - 1]? := by
        rw [List.append_assoc, List.getElem?_append_right (by omega)]
        have hindex : c.front.length + 4 - pre.length = c.front.length - pre.length - 1 + 5 := by
          omega
        rw [hindex]
        rfl
      rw [← hright, ← hder, hbytes]
    have hshort := c.front_short
    have hmem : (64 : UInt8) ∈ utf8Bytes c.cn := by
      rw [htext]
      refine List.mem_of_getElem? (i := c.front.length - pre.length - 1) ?_
      rw [List.getElem?_take_of_lt (by omega), hat]
    exact ne_of_hexDecode (hexDecode_hexEncode c.key) 64 hmem rfl
  · intro hfree
    have hw := (c.firstWindow_iff (0x0C :: 64 :: (utf8Bytes c.cn ++ c.rest))).mpr hfree
    obtain ⟨hclient, hsupernode⟩ := c.names_after_oid
    unfold bytes at hlen ⊢
    rw [checked_eq_some_iff hw hlen, x509ParserLite_eq hw]
    exact ⟨hclient, hsupernode⟩

end SelfSigned

/-- The two readers, exactly: where the client's stops, where they agree, and
which certificates of the programs are read for what they name. -/
theorem names_agree_iff (der : Buffer) (c : SelfSigned) :
    (parseCnFromDerChecked der.1 ≠ none ↔
      ¬ ∃ pre tag first rest, LongForm der.1 pre tag first rest ∧ EndOverflows pre first rest) ∧
    (Agree der.1 ↔ ∀ pre tag first rest, LongForm der.1 pre tag first rest →
      ¬ ClientReads first rest ∧ ¬ SupernodeReads first rest) ∧
    ((parseCnFromDerChecked c.bytes = some (some c.cn) ∧ x509ParserLite c.bytes = .ok c.cn) ↔
      ¬ cnOid <:+: c.front) :=
  ⟨not_congr (parseCnFromDerChecked_eq_none_iff der.2), agree_iff der.2, SelfSigned.names_iff c⟩

/-- Eight bytes of ones for a length: the end of the name overflows. -/
theorem name_end_overflows :
    parseCnFromDerChecked (cnOid ++ [0x0C, 0x88] ++ List.replicate 8 0xFF) = none := by
  decide

end ConquerD.Interop.CertNames
