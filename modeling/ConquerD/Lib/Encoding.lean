import Mathlib.Algebra.GroupWithZero.Nat
import Mathlib.Data.List.GetD
import Mathlib.Data.List.Infix
import Mathlib.Data.List.Nodup
import Mathlib.Data.List.DropRight

/-!
# Byte strings: windows, hexadecimal, unpadded base64url

Byte strings are lists of `UInt8`. The file holds what the certificate
readers use: the position of the first window equal to a needle, hexadecimal
decoding (both cases are read, lower case is written), the unpadded base64url
encoder, and the fact that hexadecimal digits are ASCII and hence valid UTF-8.
-/

namespace ConquerD.Lib.Encoding

abbrev Bytes := List UInt8

/-! ## Windows -/

section Windows

variable {α : Type} [DecidableEq α]

def windowPosition (needle : List α) : List α → Option Nat
  | [] => none
  | x :: xs =>
    if needle <+: x :: xs then some 0
    else (windowPosition needle xs).map (· + 1)

/-- `needle` starts right after `pre`, and at no earlier position. -/
structure FirstWindow (needle pre rest : List α) : Prop where
  notEarlier : ∀ i < pre.length, ¬ needle <+: (pre ++ needle ++ rest).drop i

theorem windowPosition_eq_some_iff {needle : List α} (hn : needle ≠ []) {l : List α} {n : Nat} :
    windowPosition needle l = some n ↔
      ∃ pre rest, l = pre ++ needle ++ rest ∧ pre.length = n ∧ FirstWindow needle pre rest := by
  induction l generalizing n with
  | nil =>
    constructor
    · intro h
      simp [windowPosition] at h
    · rintro ⟨pre, rest, h, -, -⟩
      simp [hn] at h
  | cons x xs ih =>
    unfold windowPosition
    by_cases hp : needle <+: x :: xs
    · rw [if_pos hp]
      constructor
      · intro h
        obtain ⟨rest, hrest⟩ := hp
        cases h
        exact ⟨[], rest, by simpa using hrest.symm, rfl, ⟨by simp⟩⟩
      · rintro ⟨pre, rest, hl, hlen, hw⟩
        cases pre with
        | nil => simpa using hlen
        | cons y ys =>
          have h0 := hw.notEarlier 0 (by simp)
          rw [List.drop_zero, ← hl] at h0
          exact absurd hp h0
    · rw [if_neg hp, Option.map_eq_some_iff]
      constructor
      · rintro ⟨m, hm, rfl⟩
        obtain ⟨pre, rest, hl, hlen, hw⟩ := ih.mp hm
        refine ⟨x :: pre, rest, by simp [hl], by simp [hlen], ⟨?_⟩⟩
        intro i hi
        cases i with
        | zero => simpa [hl] using hp
        | succ i => simpa using hw.notEarlier i (by simpa using hi)
      · rintro ⟨pre, rest, hl, hlen, hw⟩
        cases pre with
        | nil =>
          have : needle <+: x :: xs := ⟨rest, by simpa using hl.symm⟩
          exact absurd this hp
        | cons y ys =>
          simp only [List.cons_append, List.cons.injEq] at hl
          obtain ⟨rfl, rfl⟩ := hl
          refine ⟨ys.length, ih.mpr ⟨ys, rest, rfl, rfl, ⟨?_⟩⟩, by simpa using hlen⟩
          intro i hi
          simpa using hw.notEarlier (i + 1) (by simpa using hi)

end Windows

/-! ## Hexadecimal -/

def hexVal (c : UInt8) : Option UInt8 :=
  if 0x30 ≤ c ∧ c ≤ 0x39 then some (c - 0x30)
  else if 0x41 ≤ c ∧ c ≤ 0x46 then some (c - 0x41 + 10)
  else if 0x61 ≤ c ∧ c ≤ 0x66 then some (c - 0x61 + 10)
  else none

/-- Hexadecimal digits to bytes, in either case; `none` on an odd number of
digits or on any other character. -/
def hexDecode : Bytes → Option Bytes
  | [] => some []
  | [_] => none
  | a :: b :: rest =>
    match hexVal a, hexVal b, hexDecode rest with
    | some x, some y, some tail => some ((x * 16 + y) :: tail)
    | _, _, _ => none

def hexDigit (n : UInt8) : Char :=
  if n < 10 then Char.ofNat (0x30 + n.toNat) else Char.ofNat (0x61 + (n.toNat - 10))

/-- Lower-case hexadecimal text of a byte string. -/
def hexEncode (bs : Bytes) : String :=
  String.ofList (bs.flatMap fun b => [hexDigit (b / 16), hexDigit (b % 16)])

theorem length_hexEncode (bs : Bytes) : (hexEncode bs).toList.length = 2 * bs.length := by
  rw [hexEncode, String.toList_ofList]
  induction bs with
  | nil => rfl
  | cons b bs ih =>
    rw [List.flatMap_cons, List.length_append, ih, List.length_cons]
    simp only [List.length_cons, List.length_nil]
    omega

/-- What holds of the sixteen digits holds of the two digits of a byte. -/
theorem of_digits {p : UInt8 → Prop} (h : ∀ i : Fin 16, p (.ofNat i)) (b : UInt8) :
    p (b / 16) ∧ p (b % 16) := by
  have hb := b.toNat_lt
  have hhigh : UInt8.ofNat (b.toNat / 16) = b / 16 := by
    apply UInt8.toNat_inj.mp
    rw [UInt8.toNat_ofNat', UInt8.toNat_div]
    exact Nat.mod_eq_of_lt (by omega)
  have hlow : UInt8.ofNat (b.toNat % 16) = b % 16 := by
    apply UInt8.toNat_inj.mp
    rw [UInt8.toNat_ofNat', UInt8.toNat_mod]
    exact Nat.mod_eq_of_lt (by omega)
  exact ⟨hhigh ▸ h ⟨b.toNat / 16, by omega⟩, hlow ▸ h ⟨b.toNat % 16, by omega⟩⟩

theorem hexVal_hexDigit (b : UInt8) :
    hexVal (UInt8.ofNat (hexDigit (b / 16)).toNat) = some (b / 16) ∧
      hexVal (UInt8.ofNat (hexDigit (b % 16)).toNat) = some (b % 16) := by
  apply of_digits (p := fun n => hexVal (UInt8.ofNat (hexDigit n).toNat) = some n)
  decide

theorem pad_notMem_hexEncode (bs : Bytes) : '=' ∉ (hexEncode bs).toList := by
  have hall : ∀ b : UInt8, hexDigit (b / 16) ≠ '=' ∧ hexDigit (b % 16) ≠ '=' := by
    apply of_digits (p := fun n => hexDigit n ≠ '=')
    decide
  rw [hexEncode, String.toList_ofList]
  intro hmem
  obtain ⟨b, -, hdigit⟩ := List.mem_flatMap.mp hmem
  rcases List.mem_cons.mp hdigit with hhigh | hlow
  · exact (hall b).1 hhigh.symm
  · exact (hall b).2 (List.mem_singleton.mp hlow).symm

theorem hexEncode_injective : Function.Injective hexEncode := by
  intro as bs h
  have hlist := congrArg String.toList h
  rw [hexEncode, hexEncode, String.toList_ofList, String.toList_ofList] at hlist
  clear h
  induction as generalizing bs with
  | nil =>
    cases bs with
    | nil => rfl
    | cons b bs => cases hlist
  | cons a as ih =>
    cases bs with
    | nil => cases hlist
    | cons b bs =>
      rw [List.flatMap_cons, List.flatMap_cons] at hlist
      injection hlist with hhigh hrest
      injection hrest with hlow hrest
      have hdiv : a / 16 = b / 16 := by
        have ha := (hexVal_hexDigit a).1
        rw [hhigh, (hexVal_hexDigit b).1] at ha
        exact (Option.some.inj ha).symm
      have hmod : a % 16 = b % 16 := by
        have ha := (hexVal_hexDigit a).2
        rw [hlow, (hexVal_hexDigit b).2] at ha
        exact (Option.some.inj ha).symm
      have hab : a = b := by
        rw [← UInt8.toNat_inj] at hdiv hmod ⊢
        have h16 : (16 : UInt8).toNat = 16 := rfl
        rw [UInt8.toNat_div, UInt8.toNat_div, h16] at hdiv
        rw [UInt8.toNat_mod, UInt8.toNat_mod, h16] at hmod
        omega
      rw [hab, ih hrest]

theorem lt_128_of_hexVal {c v : UInt8} (h : hexVal c = some v) : c < 128 := by
  simp only [hexVal, UInt8.le_iff_toNat_le] at h
  rw [UInt8.lt_iff_toNat_lt]
  split at h
  · rename_i hc
    exact lt_of_le_of_lt hc.2 (by decide)
  · split at h
    · rename_i _ hc
      exact lt_of_le_of_lt hc.2 (by decide)
    · split at h
      · rename_i _ _ hc
        exact lt_of_le_of_lt hc.2 (by decide)
      · cases h

theorem hexDecode_ascii {cs bs : Bytes} (h : hexDecode cs = some bs) : ∀ c ∈ cs, c < 128 := by
  induction cs using hexDecode.induct generalizing bs with
  | case1 => simp
  | case2 a => simp [hexDecode] at h
  | case3 a b rest x y tail ht hb ha ih =>
    intro c hc
    rcases List.mem_cons.mp hc with rfl | hc
    · exact lt_128_of_hexVal ha
    · rcases List.mem_cons.mp hc with rfl | hc
      · exact lt_128_of_hexVal hb
      · exact ih ht c hc
  | case4 a b rest hno ih =>
    unfold hexDecode at h
    split at h
    · rename_i x y tail ha hb ht
      exact absurd ht (hno x y tail ha hb)
    · cases h

/-! ## Unpadded base64url -/

def b64UrlAlphabet : List Char :=
  "ABCDEFGHIJKLMNOPQRSTUVWXYZabcdefghijklmnopqrstuvwxyz0123456789-_".toList

theorem b64UrlAlphabet_eq : b64UrlAlphabet =
    ['A', 'B', 'C', 'D', 'E', 'F', 'G', 'H', 'I', 'J', 'K', 'L', 'M', 'N', 'O', 'P', 'Q', 'R',
      'S', 'T', 'U', 'V', 'W', 'X', 'Y', 'Z', 'a', 'b', 'c', 'd', 'e', 'f', 'g', 'h', 'i', 'j',
      'k', 'l', 'm', 'n', 'o', 'p', 'q', 'r', 's', 't', 'u', 'v', 'w', 'x', 'y', 'z', '0', '1',
      '2', '3', '4', '5', '6', '7', '8', '9', '-', '_'] :=
  String.toList_ofList

theorem length_b64UrlAlphabet : b64UrlAlphabet.length = 64 := by
  rw [b64UrlAlphabet_eq]
  rfl

def b64UrlChar (n : Nat) : Char :=
  b64UrlAlphabet.getD n 'A'

/-- Three bytes become four characters; a rest of one or two bytes becomes two
or three characters, with no padding after them. -/
def b64UrlChars : Bytes → List Char
  | [] => []
  | [a] =>
    let n := a.toNat * 16
    [b64UrlChar (n / 64), b64UrlChar (n % 64)]
  | [a, b] =>
    let n := (a.toNat * 256 + b.toNat) * 4
    [b64UrlChar (n / 4096), b64UrlChar (n / 64 % 64), b64UrlChar (n % 64)]
  | a :: b :: c :: rest =>
    let n := (a.toNat * 256 + b.toNat) * 256 + c.toNat
    b64UrlChar (n / 262144) :: b64UrlChar (n / 4096 % 64) :: b64UrlChar (n / 64 % 64) ::
      b64UrlChar (n % 64) :: b64UrlChars rest

def b64UrlEncode (bs : Bytes) : String :=
  String.ofList (b64UrlChars bs)

/-- The same text, filled up to a multiple of four characters. -/
def b64UrlEncodePadded (bs : Bytes) : String :=
  String.ofList (b64UrlChars bs ++ List.replicate ((3 - bs.length % 3) % 3) '=')

theorem b64UrlChar_ne_pad (n : Nat) : b64UrlChar n ≠ '=' := by
  have hall : b64UrlAlphabet.all (· != '=') = true := by
    rw [b64UrlAlphabet_eq]
    decide
  unfold b64UrlChar
  by_cases hn : n < b64UrlAlphabet.length
  · rw [List.getD_eq_getElem _ _ hn]
    simpa using List.all_eq_true.mp hall _ (List.getElem_mem hn)
  · rw [List.getD_eq_default _ _ (by omega)]
    decide

theorem pad_notMem_b64UrlEncode (bs : Bytes) : '=' ∉ (b64UrlEncode bs).toList := by
  unfold b64UrlEncode
  rw [String.toList_ofList]
  -- the induction follows the encoder: three bytes at a time
  fun_induction b64UrlChars bs with
  | case1 => simp
  | case2 a n => simp [(b64UrlChar_ne_pad _).symm]
  | case3 a b n => simp [(b64UrlChar_ne_pad _).symm]
  | case4 a b c rest n ih => simp [(b64UrlChar_ne_pad _).symm, ih]

/-- The position of a character in the alphabet. -/
def b64UrlVal (c : Char) : Option Nat :=
  b64UrlAlphabet.findIdx? (· == c)

/-- Unpadded text to bytes; `none` on a character outside the alphabet, on a
single character over, and when the bits that no byte uses are not zero. -/
def b64UrlBytes : List Char → Option Bytes
  | [] => some []
  | [_] => none
  | [a, b] => do
    let n := (← b64UrlVal a) * 64 + (← b64UrlVal b)
    if n % 16 = 0 then some [.ofNat (n / 16)] else none
  | [a, b, c] => do
    let n := ((← b64UrlVal a) * 64 + (← b64UrlVal b)) * 64 + (← b64UrlVal c)
    if n % 4 = 0 then some [.ofNat (n / 1024), .ofNat (n / 4)] else none
  | a :: b :: c :: d :: rest => do
    let n := (((← b64UrlVal a) * 64 + (← b64UrlVal b)) * 64 + (← b64UrlVal c)) * 64 +
      (← b64UrlVal d)
    let tail ← b64UrlBytes rest
    some (.ofNat (n / 65536) :: .ofNat (n / 256) :: .ofNat (n % 256) :: tail)

def b64UrlDecode (s : String) : Option Bytes :=
  b64UrlBytes s.toList

theorem nodup_b64UrlAlphabet : b64UrlAlphabet.Nodup := by
  have hcodes : b64UrlAlphabet.map Char.toNat =
      List.range' 65 26 ++ List.range' 97 26 ++ List.range' 48 10 ++ [45, 95] := by
    rw [b64UrlAlphabet_eq]
    rfl
  have hrange : ∀ s n : Nat, (List.range' s n).Nodup := fun _ _ => List.nodup_range' 1
  apply List.Nodup.of_map Char.toNat
  simp only [hcodes, List.nodup_append, hrange, List.mem_append, List.mem_range'_1,
    List.nodup_cons, List.mem_cons, List.not_mem_nil, List.nodup_nil]
  grind

theorem b64UrlVal_b64UrlChar {n : Nat} (hn : n < 64) : b64UrlVal (b64UrlChar n) = some n := by
  have hlen : n < b64UrlAlphabet.length := by rwa [length_b64UrlAlphabet]
  rw [b64UrlVal, b64UrlChar, List.getD_eq_getElem _ _ hlen, List.findIdx?_eq_some_iff_getElem]
  refine ⟨hlen, beq_self_eq_true _, ?_⟩
  intro i hi heq
  have hsame := (nodup_b64UrlAlphabet.getElem_inj_iff).mp (beq_iff_eq.mp heq)
  omega

theorem ofNat_eq_of_mod {b : UInt8} {n : Nat} (h : n % 256 = b.toNat) : UInt8.ofNat n = b := by
  apply UInt8.toNat_inj.mp
  rw [UInt8.toNat_ofNat', h]

theorem b64UrlBytes_b64UrlChars (bs : Bytes) : b64UrlBytes (b64UrlChars bs) = some bs := by
  -- the induction follows the encoder: three bytes at a time
  fun_induction b64UrlChars bs with
  | case1 => rfl
  | case2 a n =>
    have ha := a.toNat_lt
    have hrest : (n / 64 * 64 + n % 64) % 16 = 0 := by omega
    have hbyte : UInt8.ofNat ((n / 64 * 64 + n % 64) / 16) = a := ofNat_eq_of_mod (by omega)
    simp [b64UrlBytes, b64UrlVal_b64UrlChar (n := n / 64) (by omega),
      b64UrlVal_b64UrlChar (n := n % 64) (by omega), hrest, hbyte]
  | case3 a b n =>
    have ha := a.toNat_lt
    have hb := b.toNat_lt
    have hsum : (n / 4096 * 64 + n / 64 % 64) * 64 + n % 64 = n := by omega
    have hrest : n % 4 = 0 := by omega
    have hfst : UInt8.ofNat (n / 1024) = a := ofNat_eq_of_mod (by omega)
    have hsnd : UInt8.ofNat (n / 4) = b := ofNat_eq_of_mod (by omega)
    simp [b64UrlBytes, b64UrlVal_b64UrlChar (n := n / 4096) (by omega),
      b64UrlVal_b64UrlChar (n := n / 64 % 64) (by omega),
      b64UrlVal_b64UrlChar (n := n % 64) (by omega), hsum, hrest, hfst, hsnd]
  | case4 a b c rest n ih =>
    have ha := a.toNat_lt
    have hb := b.toNat_lt
    have hc := c.toNat_lt
    have hsum : ((n / 262144 * 64 + n / 4096 % 64) * 64 + n / 64 % 64) * 64 + n % 64 = n := by
      omega
    have hfst : UInt8.ofNat (n / 65536) = a := ofNat_eq_of_mod (by omega)
    have hsnd : UInt8.ofNat (n / 256) = b := ofNat_eq_of_mod (by omega)
    have hthd : UInt8.ofNat (n % 256) = c := ofNat_eq_of_mod (by omega)
    simp [b64UrlBytes, b64UrlVal_b64UrlChar (n := n / 262144) (by omega),
      b64UrlVal_b64UrlChar (n := n / 4096 % 64) (by omega),
      b64UrlVal_b64UrlChar (n := n / 64 % 64) (by omega),
      b64UrlVal_b64UrlChar (n := n % 64) (by omega), hsum, hfst, hsnd, hthd, ih]

@[simp] theorem b64UrlDecode_b64UrlEncode (bs : Bytes) : b64UrlDecode (b64UrlEncode bs) = some bs := by
  rw [b64UrlDecode, b64UrlEncode, String.toList_ofList, b64UrlBytes_b64UrlChars]

theorem length_b64UrlChars (bs : Bytes) : (b64UrlChars bs).length = (4 * bs.length + 2) / 3 := by
  fun_induction b64UrlChars bs with
  | case1 => rfl
  | case2 a n => simp
  | case3 a b n => simp
  | case4 a b c rest n ih =>
    simp only [List.length_cons, ih]
    omega

theorem utf8Size_b64UrlChar (n : Nat) : (b64UrlChar n).utf8Size = 1 := by
  have hcheck : (b64UrlAlphabet.all fun c => c.toNat ≤ 127) = true := by
    rw [b64UrlAlphabet_eq]
    decide
  have hall : ∀ c ∈ b64UrlAlphabet, c.utf8Size = 1 := by
    intro c hc
    have hcode : c.toNat ≤ 127 := of_decide_eq_true (List.all_eq_true.mp hcheck c hc)
    exact Char.utf8Size_eq_one_iff.mpr (UInt32.le_iff_toNat_le.mpr hcode)
  unfold b64UrlChar
  by_cases hn : n < b64UrlAlphabet.length
  · rw [List.getD_eq_getElem _ _ hn]
    exact hall _ (List.getElem_mem hn)
  · rw [List.getD_eq_default _ _ (by omega)]
    rfl

/-! ## UTF-8 -/

/-- The text a byte string spells, when it is valid UTF-8. -/
def fromUtf8 (bs : Bytes) : Option String :=
  String.fromUTF8? ⟨bs.toArray⟩

/-- The bytes of a text. -/
def utf8Bytes (s : String) : Bytes :=
  s.toByteArray.data.toList

theorem utf8Bytes_injective : Function.Injective utf8Bytes := by
  intro s t h
  have harr : s.toByteArray.data = t.toByteArray.data := Array.toList_inj.mp h
  exact String.toByteArray_inj.mp (ByteArray.ext harr)

theorem utf8Bytes_append (s t : String) : utf8Bytes (s ++ t) = utf8Bytes s ++ utf8Bytes t := by
  simp [utf8Bytes]

theorem utf8Bytes_hexDigits (b : UInt8) :
    utf8Bytes (String.ofList [hexDigit (b / 16), hexDigit (b % 16)]) =
      [UInt8.ofNat (hexDigit (b / 16)).toNat, UInt8.ofNat (hexDigit (b % 16)).toNat] := by
  have hall : utf8Bytes (String.ofList [hexDigit (b / 16)]) =
        [UInt8.ofNat (hexDigit (b / 16)).toNat] ∧
      utf8Bytes (String.ofList [hexDigit (b % 16)]) = [UInt8.ofNat (hexDigit (b % 16)).toNat] := by
    apply of_digits
      (p := fun n => utf8Bytes (String.ofList [hexDigit n]) = [UInt8.ofNat (hexDigit n).toNat])
    decide
  have hsplit : String.ofList [hexDigit (b / 16), hexDigit (b % 16)] =
      String.ofList [hexDigit (b / 16)] ++ String.ofList [hexDigit (b % 16)] :=
    @String.ofList_append [_] [_]
  rw [hsplit, utf8Bytes_append, hall.1, hall.2]
  rfl

theorem hexDecode_hexEncode (bs : Bytes) : hexDecode (utf8Bytes (hexEncode bs)) = some bs := by
  induction bs with
  | nil => rfl
  | cons b bs ih =>
    obtain ⟨hhigh, hlow⟩ := hexVal_hexDigit b
    have hsum : b / 16 * 16 + b % 16 = b := by
      apply UInt8.toNat_inj.mp
      have h16 : (16 : UInt8).toNat = 16 := rfl
      rw [UInt8.toNat_add, UInt8.toNat_mul, UInt8.toNat_div, UInt8.toNat_mod, h16]
      have hb := b.toNat_lt
      omega
    have htext : hexEncode (b :: bs) =
        String.ofList [hexDigit (b / 16), hexDigit (b % 16)] ++ hexEncode bs := by
      rw [hexEncode, List.flatMap_cons, String.ofList_append]
      rfl
    rw [htext, utf8Bytes_append, utf8Bytes_hexDigits, List.cons_append, List.singleton_append,
      hexDecode, hhigh, hlow, ih]
    simp only [hsum]

theorem utf8Bytes_of_fromUtf8 {bs : Bytes} {s : String} (h : fromUtf8 bs = some s) :
    utf8Bytes s = bs := by
  unfold fromUtf8 String.fromUTF8? at h
  split at h
  · cases h
    simp [utf8Bytes, String.fromUTF8]
  · cases h

@[simp] theorem fromUtf8_utf8Bytes (s : String) : fromUtf8 (utf8Bytes s) = some s := by
  have hbytes : (⟨(utf8Bytes s).toArray⟩ : ByteArray) = s.toByteArray := by
    simp [utf8Bytes]
  rw [fromUtf8, hbytes, String.fromUTF8?, dif_pos s.isValidUTF8]
  rfl

theorem isValidUTF8_of_ascii {bs : Bytes} (h : ∀ c ∈ bs, c < 128) :
    (ByteArray.mk bs.toArray).IsValidUTF8 := by
  induction bs using List.reverseRecOn with
  | nil => exact ByteArray.isValidUTF8_empty
  | append_singleton bs c ih =>
    have hb : (ByteArray.mk bs.toArray).IsValidUTF8 :=
      ih fun x hx => h x (List.mem_append_left _ hx)
    have hc : c.toNat < 128 := by
      have := h c (by simp)
      rwa [UInt8.lt_iff_toNat_lt] at this
    -- the ASCII byte, read as a character of its own
    let ch : Char := ⟨c.toUInt32, Or.inl (by have := c.toNat_lt; simp; omega)⟩
    have hval : ch.val.toNat = c.toNat := by simp [ch]
    have hsize : ch.utf8Size = 1 := by
      rw [Char.utf8Size_eq_one_iff, UInt32.le_iff_toNat_le, hval]
      exact Nat.le_of_lt_succ hc
    have hbyte : ch.toUInt8 = c := by
      rw [Char.toUInt8, ← UInt8.toNat_inj, UInt32.toNat_toUInt8, hval]
      omega
    have hpush := hb.push hsize
    rw [hbyte] at hpush
    have hbytes : (ByteArray.mk bs.toArray).push c = ByteArray.mk (bs ++ [c]).toArray :=
      ByteArray.ext (by simp [ByteArray.data_push])
    rwa [hbytes] at hpush

theorem fromUtf8_of_ascii {bs : Bytes} (h : ∀ c ∈ bs, c < 128) :
    ∃ s, fromUtf8 bs = some s ∧ utf8Bytes s = bs := by
  have hv := isValidUTF8_of_ascii h
  have hs : fromUtf8 bs = some (String.fromUTF8 _ hv) := by
    unfold fromUtf8 String.fromUTF8?
    rw [dif_pos hv]
  exact ⟨_, hs, utf8Bytes_of_fromUtf8 hs⟩

/-! ## Big-endian numbers -/

/-- The lowest bytes of a number, the highest of them first. -/
def beBytes : Nat → Nat → Bytes
  | 0, _ => []
  | width + 1, n => beBytes width (n / 256) ++ [UInt8.ofNat n]

@[simp] theorem length_beBytes (width n : Nat) : (beBytes width n).length = width := by
  induction width generalizing n with
  | zero => rfl
  | succ width ih => rw [beBytes, List.length_append, ih]; rfl

theorem beBytes_add (high low n : Nat) :
    beBytes (high + low) n = beBytes high (n / 256 ^ low) ++ beBytes low n := by
  induction low generalizing n with
  | zero => rw [Nat.pow_zero, Nat.div_one, beBytes, List.append_nil]; rfl
  | succ low ih =>
    rw [← Nat.add_assoc, beBytes, ih, beBytes, Nat.pow_succ, Nat.mul_comm, Nat.div_div_eq_div_mul,
      List.append_assoc]

theorem beBytes_inj {width m n : Nat} (hm : m < 256 ^ width) (hn : n < 256 ^ width)
    (h : beBytes width m = beBytes width n) : m = n := by
  induction width generalizing m n with
  | zero =>
    rw [Nat.pow_zero, Nat.lt_one_iff] at hm hn
    rw [hm, hn]
  | succ width ih =>
    rw [Nat.pow_succ] at hm hn
    obtain ⟨hhigh, hlow⟩ := List.append_inj' h rfl
    have hdiv : m / 256 = n / 256 :=
      ih (Nat.div_lt_of_lt_mul (by rwa [Nat.mul_comm])) (Nat.div_lt_of_lt_mul (by rwa [Nat.mul_comm]))
        hhigh
    have hmod : m % 256 = n % 256 := by
      have := congrArg UInt8.toNat (List.cons.inj hlow).1
      rwa [UInt8.toNat_ofNat', UInt8.toNat_ofNat'] at this
    omega

end ConquerD.Lib.Encoding
