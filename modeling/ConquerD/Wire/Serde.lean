import ConquerD.Lib.JsonRead
import ConquerD.Wire.Space

/-!
# JSON as serde writes it

A value a program has read holds numbers of 64 bits or doubles; it is written
without spaces, an object in the order of its keys. How a double is read and
written is a parameter. A payload of the handlers is the same value with its
doubles by their texts.
-/

namespace ConquerD.Wire

open Lib.Encoding Lib.JsonText

/-! ## Doubles -/

/-- A double by its bits: sign, exponent, fraction. -/
structure F64 where
  bits : UInt64
  deriving DecidableEq

/-- Infinities and NaNs have all exponent bits set. -/
def F64.isFinite (x : F64) : Bool :=
  x.bits >>> 52 &&& 0x7FF != 0x7FF

abbrev FiniteF64 := { x : F64 // x.isFinite = true }

/-- A parsed JSON value. -/
abbrev SerdeValue := Value (Number FiniteF64)

/-- A double as a JSON number; there is none for infinities and NaNs. -/
def numberFromF64 (x : F64) : Option (Number FiniteF64) :=
  if h : x.isFinite = true then some (.float ⟨x, h⟩) else none

theorem numberFromF64_eq_none {x : F64} : numberFromF64 x = none ↔ x.isFinite = false := by
  unfold numberFromF64
  split
  · next h => simp [h]
  · next h => simp [h]

theorem fits64_uint32 (n : UInt32) : Fits64 n.toNat := by
  have hlt := n.toNat_lt
  exact ⟨by omega, by omega⟩

/-! ## The text of a value -/

variable (S : FloatSyntax FiniteF64)

def toText (v : SerdeValue) : String :=
  String.ofList (print (fun n => (n.toLiteral S).val) v)

def toVec (v : SerdeValue) : Bytes :=
  utf8Bytes (toText S v)

theorem toVec_injective : Function.Injective (toVec S) := by
  intro v w h
  have htext : toText S v = toText S w := utf8Bytes_injective h
  have hprint := congrArg String.toList htext
  rw [toText, toText, String.toList_ofList, String.toList_ofList] at hprint
  exact print_injective (Number.writesNumbers S) hprint

theorem head?_toVec_obj (fields : List (String × SerdeValue)) :
    (toVec S (.obj fields)).head? = some 0x7B := by
  have htext : toText S (.obj fields) =
      "\x7b" ++ String.ofList (printFields (fun n => (n.toLiteral S).val) fields) := by
    apply String.toList_inj.mp
    rw [toText, print]
    simp
  rw [toVec, htext, utf8Bytes_append]
  rfl

/-- The text of a document. -/
def docText (d : Doc) : String :=
  String.ofList (print Subtype.val d)

theorem docText_injective : Function.Injective docText := by
  intro d e h
  have hprint := congrArg String.toList h
  rw [docText, docText, String.toList_ofList, String.toList_ofList] at hprint
  exact print_injective writesNumbers_literal hprint

/-- A value as a document: its numbers by their literals. -/
def toDoc (v : SerdeValue) : Doc :=
  v.map (Number.toLiteral S)

theorem toVec_eq (v : SerdeValue) : toVec S v = utf8Bytes (docText (toDoc S v)) := by
  rw [toVec, toText, docText, toDoc, print_map]

/-! ## Reading fields -/

/-- The name of a variant without data: a string, or the only key of an object,
with nothing under it. -/
def variantName {ν : Type} : Value ν → Option String
  | .str s => some s
  | .obj [(s, .null)] => some s
  | _ => none

def valueStr? {ν : Type} : Value ν → Option String
  | .str s => some s
  | _ => none

/-! ## Payloads -/

mutual
/-- A value as the handlers see it. -/
def Json.ofValue : SerdeValue → Json
  | .null => .null
  | .bool b => .bool b
  | .num (.int n _) => .int n
  | .num (.float x) => .float (String.ofList (S.text x).val)
  | .str s => .str s
  | .arr items => .arr (Json.ofItems items)
  | .obj fields => .obj (Json.ofFields fields)

def Json.ofItems : List SerdeValue → List Json
  | [] => []
  | v :: vs => Json.ofValue v :: Json.ofItems vs

def Json.ofFields : List (String × SerdeValue) → List (String × Json)
  | [] => []
  | (k, v) :: fs => (k, Json.ofValue v) :: Json.ofFields fs
end

def Platform.WritesSerde (P : Platform) : Prop :=
  ∀ v, P.jsonToVec (Json.ofValue S v) = toVec S v

/-! ## A platform that writes as serde does -/

mutual
/-- The value of a payload, doubles by their texts. -/
def Json.toValue : Json → Value (Int ⊕ String)
  | .null => .null
  | .bool b => .bool b
  | .int n => .num (.inl n)
  | .float text => .num (.inr text)
  | .str s => .str s
  | .arr items => .arr (Json.toItems items)
  | .obj fields => .obj (Json.toFields fields)

def Json.toItems : List Json → List (Value (Int ⊕ String))
  | [] => []
  | v :: vs => Json.toValue v :: Json.toItems vs

def Json.toFields : List (String × Json) → List (String × Value (Int ⊕ String))
  | [] => []
  | (k, v) :: fs => (k, Json.toValue v) :: Json.toFields fs
end

def showPayloadNumber : Int ⊕ String → List Char
  | .inl n => n.repr.toList
  | .inr text => text.toList

/-- The text of a payload. -/
def Json.toVec (j : Json) : Bytes :=
  utf8Bytes (String.ofList (print showPayloadNumber j.toValue))

mutual
theorem print_toValue : ∀ v : SerdeValue,
    print showPayloadNumber (Json.toValue (Json.ofValue S v)) =
      print (fun n => (n.toLiteral S).val) v
  | .null => rfl
  | .bool true => rfl
  | .bool false => rfl
  | .num (.int _ _) => rfl
  | .num (.float x) => by
    rw [Json.ofValue, Json.toValue, print, print, showPayloadNumber, String.toList_ofList]
    rfl
  | .str _ => rfl
  | .arr items => by
    rw [Json.ofValue, Json.toValue, print, print, print_toItems items]
  | .obj fields => by
    rw [Json.ofValue, Json.toValue, print, print, print_toFields fields]

theorem print_toItems : ∀ vs : List SerdeValue,
    printItems showPayloadNumber (Json.toItems (Json.ofItems S vs)) =
      printItems (fun n => (n.toLiteral S).val) vs
  | [] => rfl
  | v :: vs => by
    rw [Json.ofItems, Json.toItems, printItems, printItems, print_toValue v, print_toMoreItems vs]

theorem print_toMoreItems : ∀ vs : List SerdeValue,
    printMoreItems showPayloadNumber (Json.toItems (Json.ofItems S vs)) =
      printMoreItems (fun n => (n.toLiteral S).val) vs
  | [] => rfl
  | v :: vs => by
    rw [Json.ofItems, Json.toItems, printMoreItems, printMoreItems, print_toValue v,
      print_toMoreItems vs]

theorem print_toFields : ∀ fs : List (String × SerdeValue),
    printFields showPayloadNumber (Json.toFields (Json.ofFields S fs)) =
      printFields (fun n => (n.toLiteral S).val) fs
  | [] => rfl
  | (k, v) :: fs => by
    rw [Json.ofFields, Json.toFields, printFields, printFields, print_toValue v,
      print_toMoreFields fs]

theorem print_toMoreFields : ∀ fs : List (String × SerdeValue),
    printMoreFields showPayloadNumber (Json.toFields (Json.ofFields S fs)) =
      printMoreFields (fun n => (n.toLiteral S).val) fs
  | [] => rfl
  | (k, v) :: fs => by
    rw [Json.ofFields, Json.toFields, printMoreFields, printMoreFields, print_toValue v,
      print_toMoreFields fs]
end

def Platform.serde : Platform :=
  { Platform.symbolic with jsonToVec := Json.toVec }

theorem Platform.serde_writesSerde : Platform.serde.WritesSerde S := by
  intro v
  change utf8Bytes (String.ofList (print showPayloadNumber (Json.ofValue S v).toValue)) = toVec S v
  rw [print_toValue]
  rfl

/-! ## Sample doubles -/

def F64.zero : FiniteF64 := ⟨⟨0⟩, by decide⟩
def F64.one : FiniteF64 := ⟨⟨0x3FF0000000000000⟩, by decide⟩
def F64.nan : F64 := ⟨0x7FF8000000000000⟩
def F64.infinity : F64 := ⟨0x7FF0000000000000⟩

theorem isLiteral_point {ds es : List Char} (hds : IsWholePart ds) (hes : IsDigits es) :
    IsLiteral (ds ++ '.' :: es) := by
  have h := IsLiteral.intro .none hds (.point hes) .none
  simpa using h

theorem isLiteral_exponent {ds es : List Char} (hds : IsWholePart ds) (hes : IsDigits es) :
    IsLiteral (ds ++ 'e' :: es) := by
  have h := IsLiteral.intro .none hds .none (.unsigned (.inl rfl) hes)
  simpa using h

theorem isWholePart_digit {c : Char} (h : c.isDigit = true) : IsWholePart [c] where
  ne_nil := List.cons_ne_nil _ _
  digits d hd := by rwa [List.mem_singleton.mp hd]
  noLeadingZero hhead := by rw [Option.some.inj hhead]

def Literal.zeroPointZero : Literal :=
  ⟨['0', '.', '0'], isLiteral_point (isWholePart_digit (by decide))
    (isWholePart_digit (by decide)).toIsDigits⟩

def Literal.onePointZero : Literal :=
  ⟨['1', '.', '0'], isLiteral_point (isWholePart_digit (by decide))
    (isWholePart_digit (by decide)).toIsDigits⟩

def bitsLiteral (x : FiniteF64) : Literal :=
  ⟨Nat.toDigits 10 x.val.bits.toNat ++ ['e', '0'],
    isLiteral_exponent (isWholePart_toDigits _) (isWholePart_digit (by decide)).toIsDigits⟩

def finiteOfBits (n : Nat) : Option FiniteF64 :=
  if h : n < 2 ^ 64 ∧ (F64.mk (.ofNat n)).isFinite = true then some ⟨⟨.ofNat n⟩, h.2⟩ else none

/-- The usual texts for zero and one, and a text of its own for any other double. -/
def sampleText (x : FiniteF64) : Literal :=
  if x = F64.zero then Literal.zeroPointZero
  else if x = F64.one then Literal.onePointZero
  else bitsLiteral x

def sampleRead (l : Literal) : Option FiniteF64 :=
  if l = Literal.zeroPointZero then some F64.zero
  else if l = Literal.onePointZero ∨ l = Literal.ofInt 1 then some F64.one
  else ((String.ofList l.val.dropLast.dropLast).toNat?).bind finiteOfBits

theorem finiteOfBits_toNat (x : FiniteF64) : finiteOfBits x.val.bits.toNat = some x := by
  unfold finiteOfBits
  rw [dif_pos ⟨x.val.bits.toNat_lt, by rw [UInt64.ofNat_toNat]; exact x.property⟩]
  simp [UInt64.ofNat_toNat]

theorem exponent_mem_bitsLiteral (x : FiniteF64) : 'e' ∈ (bitsLiteral x).val := by
  simp [bitsLiteral]

theorem sampleRead_sampleText (x : FiniteF64) : sampleRead (sampleText x) = some x := by
  unfold sampleText
  split
  · next h => rw [h, sampleRead, if_pos rfl]
  · split
    · next h =>
      rw [h, sampleRead, if_neg (by decide), if_pos (Or.inl rfl)]
    · have hmem := exponent_mem_bitsLiteral x
      have hzero : bitsLiteral x ≠ Literal.zeroPointZero := fun h => by
        rw [h] at hmem
        exact absurd hmem (by decide)
      have hone : ¬(bitsLiteral x = Literal.onePointZero ∨ bitsLiteral x = Literal.ofInt 1) := by
        rintro (h | h)
        · rw [h] at hmem
          exact absurd hmem (by decide)
        · rw [h] at hmem
          exact absurd hmem (by decide)
      rw [sampleRead, if_neg hzero, if_neg hone]
      have hdrop : (bitsLiteral x).val.dropLast.dropLast = Nat.toDigits 10 x.val.bits.toNat := by
        rw [bitsLiteral, List.dropLast_append_of_ne_nil (by simp)]
        simp
      rw [hdrop, ← Nat.repr_eq_ofList_toDigits, Nat.toNat?_repr, Option.bind_some,
        finiteOfBits_toNat]

def FloatSyntax.sample : FloatSyntax FiniteF64 where
  read := sampleRead
  text := sampleText
  text_notWhole x := by
    unfold sampleText
    split
    · rfl
    · split
      · rfl
      · rw [Literal.isWhole, Bool.eq_false_iff]
        intro hall
        have h := List.all_eq_true.mp hall 'e' (exponent_mem_bitsLiteral x)
        exact absurd h (by decide)
  text_injective x y h := by
    have hread := congrArg sampleRead h
    rwa [sampleRead_sampleText, sampleRead_sampleText, Option.some.injEq] at hread

theorem FloatSyntax.sample_roundTrips : FloatSyntax.sample.RoundTrips :=
  sampleRead_sampleText

end ConquerD.Wire
