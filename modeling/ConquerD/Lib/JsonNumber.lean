import ConquerD.Lib.JsonText
import Std.Data.String.ToInt

/-!
# The numbers of a JSON text

A text holds a number as a literal: sign, whole part without leading zeros,
fraction and exponent. A program that reads it keeps a whole number of 64 bits
as it is and rounds any other to a floating point number of its own. How that
number is read and written is left to the platform; what is used of it is that
its text is a literal with a fraction or an exponent, and one number's only.
-/

namespace ConquerD.Lib.JsonText

/-! ## Literals -/

structure IsDigits (ds : List Char) : Prop where
  ne_nil : ds ≠ []
  digits : ∀ c ∈ ds, c.isDigit = true

/-- Digits with no zero in front of them. -/
structure IsWholePart (ds : List Char) : Prop extends IsDigits ds where
  noLeadingZero : ds.head? = some '0' → ds = ['0']

inductive IsSign : List Char → Prop
  | none : IsSign []
  | minus : IsSign ['-']

inductive IsFraction : List Char → Prop
  | none : IsFraction []
  | point {ds} : IsDigits ds → IsFraction ('.' :: ds)

inductive IsExponent : List Char → Prop
  | none : IsExponent []
  | unsigned {e ds} : e = 'e' ∨ e = 'E' → IsDigits ds → IsExponent (e :: ds)
  | signed {e s ds} : e = 'e' ∨ e = 'E' → s = '+' ∨ s = '-' → IsDigits ds → IsExponent (e :: s :: ds)

/-- The number grammar of JSON. -/
inductive IsLiteral : List Char → Prop
  | intro {sign whole fraction exponent} : IsSign sign → IsWholePart whole → IsFraction fraction →
    IsExponent exponent → IsLiteral (sign ++ (whole ++ (fraction ++ exponent)))

/-- A number as a text holds it. -/
abbrev Literal := { cs : List Char // IsLiteral cs }

theorem IsDigits.isNumChar {ds : List Char} (h : IsDigits ds) : ∀ c ∈ ds, isNumChar c = true := by
  intro c hc
  simp [JsonText.isNumChar, h.digits c hc]

theorem IsLiteral.isNumChar {cs : List Char} (h : IsLiteral cs) :
    ∀ c ∈ cs, isNumChar c = true := by
  obtain ⟨hsign, hwhole, hfraction, hexponent⟩ := h
  intro c hc
  rw [List.mem_append, List.mem_append, List.mem_append] at hc
  rcases hc with hc | hc | hc | hc
  · cases hsign with
    | none => cases hc
    | minus => rw [List.mem_singleton.mp hc]; rfl
  · exact hwhole.toIsDigits.isNumChar c hc
  · cases hfraction with
    | none => cases hc
    | point hds =>
      rcases List.mem_cons.mp hc with rfl | hc
      · rfl
      · exact hds.isNumChar c hc
  · cases hexponent with
    | none => cases hc
    | unsigned he hds =>
      rcases List.mem_cons.mp hc with rfl | hc
      · rcases he with rfl | rfl <;> rfl
      · exact hds.isNumChar c hc
    | signed he hs hds =>
      rcases List.mem_cons.mp hc with rfl | hc
      · rcases he with rfl | rfl <;> rfl
      · rcases List.mem_cons.mp hc with rfl | hc
        · rcases hs with rfl | rfl <;> rfl
        · exact hds.isNumChar c hc

theorem IsLiteral.ne_nil {cs : List Char} (h : IsLiteral cs) : cs ≠ [] := by
  obtain ⟨-, hwhole, -, -⟩ := h
  simp [hwhole.ne_nil]

theorem writesNumbers_literal : WritesNumbers (Subtype.val : Literal → List Char) where
  ne_nil l := l.property.ne_nil
  numChars l := l.property.isNumChar
  injective := Subtype.val_injective

/-- There is no fraction and no exponent. -/
def Literal.isWhole (l : Literal) : Bool :=
  l.val.all fun c => c.isDigit || c == '-'

/-- The whole number a literal spells; minus zero is none. -/
def Literal.whole? (l : Literal) : Option Int :=
  if l.isWhole ∧ l.val ≠ ['-', '0'] then (String.ofList l.val).toInt? else none

/-! ## Whole numbers -/

theorem head_toDigits {n : Nat} (h : n ≠ 0) : (Nat.toDigits 10 n).head? ≠ some '0' := by
  induction n using Nat.strong_induction_on with
  | _ n ih =>
    rw [Nat.toDigits_eq_if (by decide)]
    split
    · simpa using h
    · next hge =>
      have hdiv := ih (n / 10) (by omega) (by omega)
      rw [List.head?_append_of_ne_nil _ Nat.toDigits_ne_nil]
      exact hdiv

theorem isWholePart_toDigits (n : Nat) : IsWholePart (Nat.toDigits 10 n) where
  ne_nil := Nat.toDigits_ne_nil
  digits _ hc := Nat.isDigit_of_mem_toDigits (by decide) (by decide) hc
  noLeadingZero hhead := by
    by_cases hn : n = 0
    · rw [hn, Nat.toDigits_zero]
    · exact absurd hhead (head_toDigits hn)

theorem toList_repr (n : Int) : n.repr.toList =
    (if n < 0 then ['-'] else []) ++ Nat.toDigits 10 n.natAbs := by
  cases n with
  | ofNat n => simp [Int.repr]
  | negSucc n => simp [Int.repr, Int.negSucc_lt_zero]

theorem isLiteral_repr (n : Int) : IsLiteral n.repr.toList := by
  rw [toList_repr]
  have hsign : IsSign (if n < 0 then ['-'] else []) := by split; exacts [.minus, .none]
  have hparts := IsLiteral.intro hsign (isWholePart_toDigits n.natAbs) .none .none
  simpa using hparts

/-- The literal of a whole number. -/
def Literal.ofInt (n : Int) : Literal :=
  ⟨n.repr.toList, isLiteral_repr n⟩

@[simp] theorem Literal.isWhole_ofInt (n : Int) : (Literal.ofInt n).isWhole = true := by
  rw [Literal.isWhole, List.all_eq_true]
  intro c hc
  change c ∈ n.repr.toList at hc
  rw [toList_repr, List.mem_append] at hc
  rcases hc with hc | hc
  · split at hc
    · simp [List.mem_singleton.mp hc]
    · cases hc
  · simp [Nat.isDigit_of_mem_toDigits (by decide) (by decide) hc]

theorem Literal.ofInt_ne_minusZero (n : Int) : (Literal.ofInt n).val ≠ ['-', '0'] := by
  intro h
  change n.repr.toList = ['-', '0'] at h
  rw [toList_repr] at h
  split at h
  · next hneg =>
    -- a negative number has no zero in front
    have hdigits : Nat.toDigits 10 n.natAbs = ['0'] := (List.cons.inj h).2
    exact head_toDigits (n := n.natAbs) (by omega) (by rw [hdigits]; rfl)
  · have hminus : '-' ∈ Nat.toDigits 10 n.natAbs := by
      rw [List.nil_append] at h
      simp [h]
    exact absurd (Nat.isDigit_of_mem_toDigits (by decide) (by decide) hminus) (by decide)

@[simp] theorem Literal.whole?_ofInt (n : Int) : (Literal.ofInt n).whole? = some n := by
  rw [Literal.whole?, if_pos ⟨Literal.isWhole_ofInt n, Literal.ofInt_ne_minusZero n⟩]
  change (String.ofList n.repr.toList).toInt? = some n
  rw [String.ofList_toList, Int.toInt?_repr]

theorem Literal.ofInt_injective : Function.Injective Literal.ofInt := by
  intro m n h
  have hread := congrArg Literal.whole? h
  rwa [Literal.whole?_ofInt, Literal.whole?_ofInt, Option.some.injEq] at hread

/-! ## Numbers -/

/-- How a platform reads and writes the numbers of a type `F`. -/
structure FloatSyntax (F : Type) where
  /-- The number nearest to a literal; none when there is none. -/
  read : Literal → Option F
  text : F → Literal
  text_notWhole : ∀ x, (text x).isWhole = false
  text_injective : Function.Injective text

/-- What is written is read back. -/
def FloatSyntax.RoundTrips {F : Type} (S : FloatSyntax F) : Prop :=
  ∀ x, S.read (S.text x) = some x

/-- Whole numbers of 64 bits, with a sign or without. -/
def Fits64 (n : Int) : Prop :=
  -(2 ^ 63) ≤ n ∧ n < 2 ^ 64

instance (n : Int) : Decidable (Fits64 n) :=
  inferInstanceAs (Decidable (_ ∧ _))

/-- A number a program has read. -/
inductive Number (F : Type) where
  | int (n : Int) (fits : Fits64 n)
  | float (x : F)

namespace Number

variable {F : Type} (S : FloatSyntax F)

def ofInt? (n : Int) : Option (Number F) :=
  if h : Fits64 n then some (.int n h) else none

def ofLiteral (l : Literal) : Option (Number F) :=
  (l.whole?.bind ofInt?).or ((S.read l).map .float)

/-- The literal a number is written as. -/
def toLiteral : Number F → Literal
  | int n _ => .ofInt n
  | float x => S.text x

theorem toLiteral_injective : Function.Injective (toLiteral S) := by
  intro a b h
  cases a with
  | int m hm =>
    cases b with
    | int n hn =>
      obtain rfl : m = n := Literal.ofInt_injective h
      rfl
    | float y =>
      have hwhole := congrArg Literal.isWhole h
      rw [toLiteral, toLiteral, Literal.isWhole_ofInt, S.text_notWhole] at hwhole
      cases hwhole
  | float x =>
    cases b with
    | int n hn =>
      have hwhole := congrArg Literal.isWhole h
      rw [toLiteral, toLiteral, Literal.isWhole_ofInt, S.text_notWhole] at hwhole
      cases hwhole
    | float y => rw [S.text_injective h]

theorem writesNumbers : WritesNumbers fun n : Number F => (n.toLiteral S).val where
  ne_nil n := (n.toLiteral S).property.ne_nil
  numChars n := (n.toLiteral S).property.isNumChar
  injective := Subtype.val_injective.comp (toLiteral_injective S)

theorem ofLiteral_toLiteral (h : S.RoundTrips) (n : Number F) :
    ofLiteral S (n.toLiteral S) = some n := by
  cases n with
  | int n hn => simp [ofLiteral, toLiteral, ofInt?, hn]
  | float x =>
    have hnone : (S.text x).whole? = none := by
      rw [Literal.whole?, S.text_notWhole x]
      simp
    simp [ofLiteral, toLiteral, hnone, h x]

end Number

end ConquerD.Lib.JsonText
