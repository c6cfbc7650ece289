import ConquerD.Lib.Encoding
import ConquerD.Lib.Run
import Mathlib.Data.String.Basic

/-!
# Slices and sums that may panic

A program that cuts a text at a byte inside one of its characters, takes a slice
past the end of a buffer or overflows a machine word stops at once. The functions
below give nothing in these cases, so that a computation in `Option` built from
them is one that runs through or panics.
-/

namespace ConquerD.Lib.Slice

open Lib.Encoding Lib.Run

/-! ## Texts -/

/-- As many whole characters as fit in `n` bytes. -/
def takeBytes : Nat → List Char → List Char
  | _, [] => []
  | n, c :: cs => if c.utf8Size ≤ n then c :: takeBytes (n - c.utf8Size) cs else []

/-- The first `n` bytes of a text; nothing unless a character ends there. -/
def sliceTo? (s : String) (n : Nat) : Option String :=
  if String.utf8Len (takeBytes n s.toList) = n then some (String.ofList (takeBytes n s.toList))
  else none

/-- At most the first `n` bytes of a text. -/
def sliceUpTo? (s : String) (n : Nat) : Option String :=
  sliceTo? s (min n s.utf8ByteSize)

theorem takeBytes_utf8Len (cs : List Char) : takeBytes (String.utf8Len cs) cs = cs := by
  induction cs with
  | nil => rfl
  | cons c cs ih =>
    rw [takeBytes, String.utf8Len_cons, if_pos (Nat.le_add_left _ _), Nat.add_sub_cancel, ih]

theorem takeBytes_of_le {n : Nat} {cs : List Char} (h : String.utf8Len cs ≤ n) :
    takeBytes n cs = cs := by
  induction cs generalizing n with
  | nil => rfl
  | cons c cs ih =>
    rw [String.utf8Len_cons] at h
    rw [takeBytes, if_pos (by omega), ih (by omega)]

theorem utf8ByteSize_eq (s : String) : s.utf8ByteSize = String.utf8Len s.toList := by
  rw [← String.utf8ByteSize_ofList, String.ofList_toList]

@[simp] theorem sliceTo?_utf8ByteSize (s : String) : sliceTo? s s.utf8ByteSize = some s := by
  rw [sliceTo?, utf8ByteSize_eq, takeBytes_utf8Len, if_pos rfl, String.ofList_toList]

theorem eq_of_sliceTo? {s t : String} {n : Nat} (h : sliceTo? s n = some t) :
    t = String.ofList (takeBytes n s.toList) := by
  unfold sliceTo? at h
  split at h
  · exact (Option.some.inj h).symm
  · cases h

theorem eq_of_sliceUpTo? {s t : String} {n : Nat} (h : sliceUpTo? s n = some t) :
    t = String.ofList (takeBytes n s.toList) := by
  unfold sliceUpTo? at h
  by_cases hle : s.utf8ByteSize ≤ n
  · rw [Nat.min_eq_right hle, sliceTo?_utf8ByteSize] at h
    rw [utf8ByteSize_eq] at hle
    rw [← Option.some.inj h, takeBytes_of_le hle, String.ofList_toList]
  · rw [Nat.min_eq_left (by omega)] at h
    exact eq_of_sliceTo? h

theorem takeBytes_prefix (n : Nat) (cs : List Char) : ∃ rest, cs = takeBytes n cs ++ rest := by
  induction cs generalizing n with
  | nil => exact ⟨[], rfl⟩
  | cons c cs ih =>
    rw [takeBytes]
    split
    · obtain ⟨rest, hrest⟩ := ih (n - c.utf8Size)
      exact ⟨rest, congrArg (c :: ·) hrest⟩
    · exact ⟨c :: cs, rfl⟩

theorem takeBytes_append (before after : List Char) :
    takeBytes (String.utf8Len before) (before ++ after) = before := by
  induction before with
  | nil =>
    cases after with
    | nil => rfl
    | cons c cs =>
      have hpos : 0 < c.utf8Size := c.utf8Size_pos
      rw [List.nil_append, String.utf8Len_nil, takeBytes, if_neg (by omega)]
  | cons c cs ih =>
    rw [List.cons_append, takeBytes, String.utf8Len_cons, if_pos (Nat.le_add_left _ _),
      Nat.add_sub_cancel, ih]

theorem isSome_sliceTo?_iff {s : String} {n : Nat} :
    (sliceTo? s n).isSome = true ↔
      ∃ before after, s.toList = before ++ after ∧ String.utf8Len before = n := by
  constructor
  · intro h
    rw [sliceTo?] at h
    split at h
    · next hlen =>
      obtain ⟨after, hafter⟩ := takeBytes_prefix n s.toList
      exact ⟨_, after, hafter, hlen⟩
    · cases h
  · rintro ⟨before, after, hs, rfl⟩
    rw [sliceTo?, hs, takeBytes_append, if_pos rfl]
    rfl

/-! ### Characters of one byte -/

/-- Every character takes one byte. -/
def OneByte (s : String) : Prop :=
  ∀ c ∈ s.toList, c.utf8Size = 1

theorem takeBytes_of_oneByte {cs : List Char} (h : ∀ c ∈ cs, c.utf8Size = 1) (n : Nat) :
    takeBytes n cs = cs.take n := by
  induction cs generalizing n with
  | nil => simp [takeBytes]
  | cons c cs ih =>
    have hc := h c List.mem_cons_self
    have hcs := ih fun d hd => h d (List.mem_cons_of_mem _ hd)
    cases n with
    | zero => rw [takeBytes, hc, if_neg (by decide), List.take_zero]
    | succ n => rw [takeBytes, hc, if_pos (by omega), Nat.add_sub_cancel, hcs, List.take_succ_cons]

theorem utf8Len_of_oneByte {cs : List Char} (h : ∀ c ∈ cs, c.utf8Size = 1) :
    String.utf8Len cs = cs.length := by
  induction cs with
  | nil => rfl
  | cons c cs ih =>
    rw [String.utf8Len_cons, h c List.mem_cons_self, ih fun d hd => h d (List.mem_cons_of_mem _ hd),
      List.length_cons]

theorem OneByte.sliceTo? {s : String} (h : OneByte s) {n : Nat} (hn : n ≤ s.toList.length) :
    sliceTo? s n = some (String.ofList (s.toList.take n)) := by
  have htake : ∀ c ∈ s.toList.take n, c.utf8Size = 1 := fun c hc => h c (List.mem_of_mem_take hc)
  rw [Slice.sliceTo?, takeBytes_of_oneByte h, utf8Len_of_oneByte htake, List.length_take,
    Nat.min_eq_left hn, if_pos rfl]

theorem OneByte.sliceUpTo? {s : String} (h : OneByte s) (n : Nat) :
    ∃ t, sliceUpTo? s n = some t := by
  have hn : min n s.utf8ByteSize ≤ s.toList.length := by
    rw [utf8ByteSize_eq, utf8Len_of_oneByte h]
    exact Nat.min_le_right _ _
  exact ⟨_, h.sliceTo? hn⟩

theorem hexDigit_oneByte (b : UInt8) :
    (hexDigit (b / 16)).utf8Size = 1 ∧ (hexDigit (b % 16)).utf8Size = 1 := by
  have hall : ∀ i : Fin 256, (hexDigit (UInt8.ofFin i / 16)).utf8Size = 1 ∧
      (hexDigit (UInt8.ofFin i % 16)).utf8Size = 1 := by
    decide +kernel
  exact hall b.toFin

theorem hexEncode_oneByte (bs : Bytes) : OneByte (hexEncode bs) := by
  intro c hc
  rw [hexEncode, String.toList_ofList] at hc
  obtain ⟨b, -, hdigit⟩ := List.mem_flatMap.mp hc
  rcases List.mem_cons.mp hdigit with rfl | hlow
  · exact (hexDigit_oneByte b).1
  · rw [List.mem_singleton.mp hlow]
    exact (hexDigit_oneByte b).2

theorem utf8ByteSize_hexEncode (bs : Bytes) : (hexEncode bs).utf8ByteSize = 2 * bs.length := by
  rw [utf8ByteSize_eq, utf8Len_of_oneByte (hexEncode_oneByte bs), length_hexEncode]

/-! ### The rest of a text -/

/-- A text from byte `n` on; nothing unless a character starts or the text ends there. -/
def sliceFrom? : Nat → List Char → Option (List Char)
  | 0, cs => some cs
  | _ + 1, [] => none
  | n + 1, c :: cs => if c.utf8Size ≤ n + 1 then sliceFrom? (n + 1 - c.utf8Size) cs else none

theorem sliceFrom?_utf8Len (front rest : List Char) :
    sliceFrom? (String.utf8Len front) (front ++ rest) = some rest := by
  induction front with
  | nil => cases rest <;> rfl
  | cons c front ih =>
    have hpos : 0 < c.utf8Size := c.utf8Size_pos
    obtain ⟨n, hn⟩ : ∃ n, String.utf8Len (c :: front) = n + 1 :=
      ⟨String.utf8Len (c :: front) - 1, by rw [String.utf8Len_cons]; omega⟩
    have hlen : n + 1 = String.utf8Len front + c.utf8Size := by rw [← hn, String.utf8Len_cons]
    rw [hn, List.cons_append, sliceFrom?, if_pos (by omega), hlen, Nat.add_sub_cancel, ih]

theorem sliceTo?_append (before after : List Char) :
    sliceTo? (String.ofList (before ++ after)) (String.utf8Len before) =
      some (String.ofList before) := by
  rw [sliceTo?, String.toList_ofList, takeBytes_append, if_pos rfl]

theorem of_sliceTo? {s t : String} {n : Nat} (h : sliceTo? s n = some t) :
    ∃ after, s.toList = t.toList ++ after ∧ String.utf8Len t.toList = n := by
  obtain ⟨after, hafter⟩ := takeBytes_prefix n s.toList
  have htext := eq_of_sliceTo? h
  refine ⟨after, ?_, ?_⟩
  · rw [htext, String.toList_ofList]
    exact hafter
  · rw [htext, String.toList_ofList]
    rw [sliceTo?] at h
    split at h
    · next hlen => exact hlen
    · cases h

/-- The byte at which a text first goes on with `needle`. -/
def findBytes (needle : List Char) : List Char → Option Nat
  | [] => if needle.isPrefixOf [] then some 0 else none
  | c :: cs =>
    if needle.isPrefixOf (c :: cs) then some 0 else (findBytes needle cs).map (c.utf8Size + ·)

/-- The bytes of a text. -/
def bytesOf (cs : List Char) : Bytes :=
  cs.flatMap String.utf8EncodeChar

/-- The byte is that of an ASCII letter or digit. -/
def isAsciiAlphanumeric (b : UInt8) : Bool :=
  (48 ≤ b && b ≤ 57) || (65 ≤ b && b ≤ 90) || (97 ≤ b && b ≤ 122)

theorem length_bytesOf (cs : List Char) : (bytesOf cs).length = String.utf8Len cs := by
  induction cs with
  | nil => rfl
  | cons c cs ih =>
    rw [bytesOf, List.flatMap_cons, List.length_append, String.length_utf8EncodeChar,
      String.utf8Len_cons, ← ih, Nat.add_comm]
    rfl

theorem not_isAsciiAlphanumeric_continuation (b : UInt8) :
    isAsciiAlphanumeric (b &&& 0x3f ||| 0x80) = false := by
  have hall : ∀ i : Fin 256, isAsciiAlphanumeric (UInt8.ofFin i &&& 0x3f ||| 0x80) = false := by
    decide +kernel
  exact hall b.toFin

theorem le_of_utf8Size_eq_one {c : Char} (h : c.utf8Size = 1) : c.val ≤ 127 := by
  unfold Char.utf8Size at h
  by_contra hle
  have hne : ¬ c.val ≤ UInt32.ofNatLT 0x7F (by decide) := hle
  simp only [hne, if_false] at h
  split at h
  · cases h
  · split at h <;> cases h

theorem utf8Size_of_isAlphanum {c : Char} (h : c.isAlphanum = true) : c.utf8Size = 1 := by
  have hle : c.val ≤ UInt32.ofNatLT 0x7F (by decide) := by
    delta Char.isAlphanum Char.isAlpha Char.isUpper Char.isLower Char.isDigit at h
    simp [UInt32.le_iff_toNat_le] at h ⊢
    omega
  exact if_pos hle

/-- The last byte of a character tells whether it is a letter or digit of ASCII. -/
theorem isAsciiAlphanumeric_getLast (c : Char) :
    (String.utf8EncodeChar c).getLast?.map isAsciiAlphanumeric = some c.isAlphanum := by
  have hsize := c.utf8Size_pos
  have hmax := c.utf8Size_le_four
  have hwide : c.utf8Size ≠ 1 → c.isAlphanum = false := by
    intro hne
    by_contra htrue
    exact hne (utf8Size_of_isAlphanum (by simpa using htrue))
  rcases (by omega : c.utf8Size = 1 ∨ c.utf8Size = 2 ∨ c.utf8Size = 3 ∨ c.utf8Size = 4)
    with h | h | h | h
  · have hle : c.toNat ≤ 127 := UInt32.le_iff_toNat_le.mp (le_of_utf8Size_eq_one h)
    have hbyte : c.toUInt8.toNat = c.toNat := by
      have hmod : c.toUInt8.toNat = c.toNat % 256 := UInt32.toNat_toUInt8 c.val
      omega
    rw [String.utf8EncodeChar_eq_singleton h]
    delta Char.isAlphanum Char.isAlpha Char.isUpper Char.isLower Char.isDigit
    simp [isAsciiAlphanumeric, UInt32.le_iff_toNat_le, UInt8.le_iff_toNat_le, hbyte]
    grind
  · rw [String.utf8EncodeChar_eq_cons_cons h, hwide (by omega)]
    simp [not_isAsciiAlphanumeric_continuation]
  · rw [String.utf8EncodeChar_eq_cons_cons_cons h, hwide (by omega)]
    simp [not_isAsciiAlphanumeric_continuation]
  · rw [String.utf8EncodeChar_eq_cons_cons_cons_cons h, hwide (by omega)]
    simp [not_isAsciiAlphanumeric_continuation]

/-! ## Buffers -/

/-- A slice or vector in memory, of fewer bytes than half the address space. -/
abbrev Buffer : Type := { bytes : Bytes // bytes.length < 2 ^ 63 }

/-- The elements from `i` up to `j`; nothing past the end. -/
def slice? {α : Type*} (xs : List α) (i j : Nat) : Option (List α) :=
  if i ≤ j ∧ j ≤ xs.length then some ((xs.drop i).take (j - i)) else none

theorem slice?_add {α : Type*} {xs : List α} {i n : Nat} (h : i + n ≤ xs.length) :
    slice? xs i (i + n) = some ((xs.drop i).take n) := by
  rw [slice?, if_pos ⟨Nat.le_add_right i n, h⟩, Nat.add_sub_cancel_left]

/-! ## Machine words -/

/-- One past the largest number of 64 bits. -/
def usizeBound : Nat := 2 ^ 64

def addUsize (a b : Nat) : Option Nat :=
  if a + b < usizeBound then some (a + b) else none

def subUsize (a b : Nat) : Option Nat :=
  if b ≤ a then some (a - b) else none

def mulUsize (a b : Nat) : Option Nat :=
  if a * b < usizeBound then some (a * b) else none

/-- A buffer of so many bytes can be asked for. -/
def withCapacity (bytes : Nat) : Option Unit :=
  if bytes < 2 ^ 63 then some () else none

theorem addUsize_of_lt {a b : Nat} (h : a + b < usizeBound) : addUsize a b = some (a + b) :=
  if_pos h

theorem subUsize_of_le {a b : Nat} (h : b ≤ a) : subUsize a b = some (a - b) :=
  if_pos h

theorem mulUsize_of_lt {a b : Nat} (h : a * b < usizeBound) : mulUsize a b = some (a * b) :=
  if_pos h

theorem withCapacity_of_lt {bytes : Nat} (h : bytes < 2 ^ 63) : withCapacity bytes = some () :=
  if_pos h

/-! ## Computations -/

theorem some_bind.{u} {α β : Type u} (a : α) (f : α → Option β) : (some a >>= f) = f a :=
  rfl

/-- A checked computation gives what the plain one gives, and panics exactly in
the bad case. -/
structure PanicsIff {α : Type*} (checked : Option α) (plain : α) (bad : Prop) : Prop where
  panics : bad → checked = none
  returns : ¬ bad → checked = some plain

namespace PanicsIff

universe u

variable {α β : Type u} {checked : Option α} {plain : α} {bad bad' : Prop}

theorem of_eq (h : checked = some plain) (hbad : ¬ bad) : PanicsIff checked plain bad :=
  ⟨fun hb => absurd hb hbad, fun _ => h⟩

theorem congr (h : PanicsIff checked plain bad) (hiff : bad ↔ bad') :
    PanicsIff checked plain bad' :=
  ⟨fun hb => h.panics (hiff.mpr hb), fun hb => h.returns fun hb' => hb (hiff.mp hb')⟩

theorem followed (h : PanicsIff checked plain bad) (f : α → β) :
    PanicsIff (checked >>= fun a => pure (f a)) (f plain) bad :=
  ⟨fun hb => by rw [h.panics hb]; rfl, fun hb => by rw [h.returns hb]; rfl⟩

theorem andThen {f : α → Option β} {plain' : β} (h : PanicsIff checked plain bad)
    (hf : f plain = some plain') : PanicsIff (checked >>= f) plain' bad :=
  ⟨fun hb => by rw [h.panics hb]; rfl, fun hb => by rw [h.returns hb]; exact hf⟩

theorem bind {f : α → Option β} {plain' : β} (h : PanicsIff checked plain bad)
    (hf : PanicsIff (f plain) plain' bad') : PanicsIff (checked >>= f) plain' (bad ∨ bad') := by
  constructor
  · intro hb
    by_cases hbad : bad
    · rw [h.panics hbad]
      rfl
    · rw [h.returns hbad]
      exact hf.panics (hb.resolve_left hbad)
  · intro hb
    rw [h.returns fun hbad => hb (.inl hbad)]
    exact hf.returns fun hbad => hb (.inr hbad)

theorem foldlM {σ : Type u} {ι : Type*} {step : σ → ι → σ} {checked : σ → ι → Option σ}
    {bad : σ → ι → Prop} (Inv : σ → Prop) (hstep : ∀ s i, Inv s → Inv (step s i))
    (h : ∀ s i, Inv s → PanicsIff (checked s i) (step s i) (bad s i)) {s : σ} (h0 : Inv s)
    (is : List ι) :
    PanicsIff (is.foldlM checked s) (run step s is)
      (¬ Along step (fun s i => ¬ bad s i) s is) := by
  induction is generalizing s with
  | nil => exact .of_eq rfl fun h => h trivial
  | cons i is ih =>
    rw [List.foldlM_cons, run_cons]
    refine ((h s i h0).bind (ih (hstep s i h0))).congr ?_
    rw [Along, not_and_or, not_not]

end PanicsIff

end ConquerD.Lib.Slice
