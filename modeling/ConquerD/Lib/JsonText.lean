import ConquerD.Lib.Encoding
import Mathlib.Data.List.TakeWhile
import Mathlib.Tactic.IntervalCases

/-!
# The text of a JSON value

A value is written without spaces, an object field by field in the order it
holds them. The text can be read in one way only: two values written in front of
anything that does not go on with a number are equal when the texts are.
-/

namespace ConquerD.Lib.JsonText

open Lib.Encoding

/-- A JSON value over a type of numbers. -/
inductive Value (ν : Type) where
  | null
  | bool (b : Bool)
  | num (n : ν)
  | str (s : String)
  | arr (items : List (Value ν))
  | obj (fields : List (String × Value ν))

instance {ν : Type} : Inhabited (Value ν) := ⟨.null⟩

/-! ## Strings -/

/-- A character within quotes: quote, backslash and control characters are
escaped. -/
def escapeChar (c : Char) : List Char :=
  if c = '"' then ['\\', '"']
  else if c = '\\' then ['\\', '\\']
  else if c = '\x08' then ['\\', 'b']
  else if c = '\x09' then ['\\', 't']
  else if c = '\x0a' then ['\\', 'n']
  else if c = '\x0c' then ['\\', 'f']
  else if c = '\x0d' then ['\\', 'r']
  else if c.toNat < 32 then
    ['\\', 'u', '0', '0', hexDigit (.ofNat (c.toNat / 16)), hexDigit (.ofNat (c.toNat % 16))]
  else [c]

/-- What an escape starts, one by one. -/
def unescape : List Char → Option (Char × List Char)
  | '\\' :: '"' :: r => some ('"', r)
  | '\\' :: '\\' :: r => some ('\\', r)
  | '\\' :: 'b' :: r => some ('\x08', r)
  | '\\' :: 't' :: r => some ('\x09', r)
  | '\\' :: 'n' :: r => some ('\x0a', r)
  | '\\' :: 'f' :: r => some ('\x0c', r)
  | '\\' :: 'r' :: r => some ('\x0d', r)
  | '\\' :: 'u' :: '0' :: '0' :: h :: l :: r =>
    ((hexVal (.ofNat h.toNat)).bind fun hi => (hexVal (.ofNat l.toNat)).map fun lo =>
      (Char.ofNat (hi.toNat * 16 + lo.toNat), r))
  | '\\' :: _ => none
  | c :: r => some (c, r)
  | [] => none

theorem unescape_escapeChar (c : Char) (r : List Char) :
    unescape (escapeChar c ++ r) = some (c, r) := by
  by_cases hcontrol : c.toNat < 32
  · obtain ⟨n, hn, rfl⟩ : ∃ n < 32, c = Char.ofNat n := ⟨c.toNat, hcontrol, (Char.ofNat_toNat c).symm⟩
    interval_cases n <;> rfl
  · have hbig : ∀ d : Char, d.toNat < 32 → c ≠ d := fun d hd h => hcontrol (h ▸ hd)
    unfold escapeChar
    split
    · next h => rw [h]; rfl
    · split
      · next h => rw [h]; rfl
      · next hback =>
        rw [if_neg (hbig '\x08' (by decide)), if_neg (hbig '\x09' (by decide)),
          if_neg (hbig '\x0a' (by decide)), if_neg (hbig '\x0c' (by decide)),
          if_neg (hbig '\x0d' (by decide)), List.singleton_append]
        unfold unescape
        split
        all_goals simp_all

theorem escapeChar_inj {c d : Char} {r r' : List Char}
    (h : escapeChar c ++ r = escapeChar d ++ r') : c = d ∧ r = r' := by
  have hread := congrArg unescape h
  rw [unescape_escapeChar, unescape_escapeChar, Option.some.injEq, Prod.mk.injEq] at hread
  exact hread

theorem head_escapeChar (c : Char) (r : List Char) : (escapeChar c ++ r).head? ≠ some '"' := by
  unfold escapeChar
  split
  · simp
  · next hquote =>
    repeat' split
    all_goals simp [hquote]

def quote (s : String) : List Char :=
  '"' :: (s.toList.flatMap escapeChar ++ ['"'])

theorem escaped_inj {cs ds r r' : List Char}
    (h : cs.flatMap escapeChar ++ '"' :: r = ds.flatMap escapeChar ++ '"' :: r') :
    cs = ds ∧ r = r' := by
  induction cs generalizing ds with
  | nil =>
    cases ds with
    | nil => exact ⟨rfl, (List.cons.inj h).2⟩
    | cons d ds =>
      rw [List.flatMap_cons, List.append_assoc] at h
      exact absurd (congrArg List.head? h).symm (head_escapeChar d _)
  | cons c cs ih =>
    cases ds with
    | nil =>
      rw [List.flatMap_cons, List.append_assoc] at h
      exact absurd (congrArg List.head? h) (head_escapeChar c _)
    | cons d ds =>
      rw [List.flatMap_cons, List.flatMap_cons, List.append_assoc, List.append_assoc] at h
      obtain ⟨rfl, hrest⟩ := escapeChar_inj h
      obtain ⟨rfl, rfl⟩ := ih hrest
      exact ⟨rfl, rfl⟩

theorem quote_inj {s t : String} {r r' : List Char} (h : quote s ++ r = quote t ++ r') :
    s = t ∧ r = r' := by
  simp only [quote, List.cons_append, List.append_assoc, List.cons.injEq, true_and] at h
  obtain ⟨hchars, hrest⟩ := escaped_inj h
  exact ⟨String.toList_inj.mp hchars, hrest⟩

/-! ## Numbers -/

/-- The characters numbers are written with. -/
def isNumChar (c : Char) : Bool :=
  c.isDigit || c == '-' || c == '+' || c == '.' || c == 'e' || c == 'E'

/-- Numbers are written with their own characters, and no two alike. -/
structure WritesNumbers {ν : Type} (showNum : ν → List Char) : Prop where
  ne_nil : ∀ n, showNum n ≠ []
  numChars : ∀ n, ∀ c ∈ showNum n, isNumChar c = true
  injective : Function.Injective showNum

/-- The text does not go on with a number. -/
def Stops (r : List Char) : Prop :=
  ∀ c, r.head? = some c → isNumChar c = false

theorem takeWhile_append_of_stops {n r : List Char} (hn : ∀ c ∈ n, isNumChar c = true)
    (hr : Stops r) : (n ++ r).takeWhile isNumChar = n := by
  rw [List.takeWhile_append_of_pos hn]
  cases r with
  | nil => simp
  | cons c r => rw [List.takeWhile_cons, hr c rfl]; simp

section Print

variable {ν : Type} (showNum : ν → List Char)

theorem WritesNumbers.inj (h : WritesNumbers showNum) {m n : ν} {r r' : List Char} (hr : Stops r)
    (hr' : Stops r') (heq : showNum m ++ r = showNum n ++ r') : m = n ∧ r = r' := by
  have hnum : showNum m = showNum n := by
    have htake := congrArg (List.takeWhile isNumChar) heq
    rwa [takeWhile_append_of_stops (h.numChars m) hr,
      takeWhile_append_of_stops (h.numChars n) hr'] at htake
  rw [hnum] at heq
  exact ⟨h.injective hnum, List.append_cancel_left heq⟩

/-! ## Values -/

mutual
/-- The text of a value. -/
def print : Value ν → List Char
  | .null => "null".toList
  | .bool true => "true".toList
  | .bool false => "false".toList
  | .num n => showNum n
  | .str s => quote s
  | .arr items => '[' :: printItems items
  | .obj fields => '\x7b' :: printFields fields

def printItems : List (Value ν) → List Char
  | [] => [']']
  | v :: vs => print v ++ printMoreItems vs

def printMoreItems : List (Value ν) → List Char
  | [] => [']']
  | v :: vs => ',' :: (print v ++ printMoreItems vs)

def printFields : List (String × Value ν) → List Char
  | [] => ['\x7d']
  | (k, v) :: fs => quote k ++ ':' :: (print v ++ printMoreFields fs)

def printMoreFields : List (String × Value ν) → List Char
  | [] => ['\x7d']
  | (k, v) :: fs => ',' :: (quote k ++ ':' :: (print v ++ printMoreFields fs))
end

variable {showNum}

/-- The character a value starts with; numbers have several. -/
def lead : Value ν → Option Char
  | .null => some 'n'
  | .bool true => some 't'
  | .bool false => some 'f'
  | .num _ => none
  | .str _ => some '"'
  | .arr _ => some '['
  | .obj _ => some '\x7b'

theorem print_head (h : WritesNumbers showNum) (v : Value ν) (r : List Char) :
    ∃ c t, print showNum v ++ r = c :: t ∧ lead v = if isNumChar c then none else some c := by
  cases v with
  | null => exact ⟨'n', _, rfl, rfl⟩
  | bool b =>
    cases b with
    | true => exact ⟨'t', _, rfl, rfl⟩
    | false => exact ⟨'f', _, rfl, rfl⟩
  | num n =>
    obtain ⟨c, t, hct⟩ := List.exists_cons_of_ne_nil (h.ne_nil n)
    refine ⟨c, t ++ r, by rw [print, hct]; rfl, ?_⟩
    rw [h.numChars n c (hct ▸ List.mem_cons_self)]
    rfl
  | str s => exact ⟨'"', _, rfl, rfl⟩
  | arr items => exact ⟨'[', _, rfl, rfl⟩
  | obj fields => exact ⟨'\x7b', _, rfl, rfl⟩

theorem lead_eq (h : WritesNumbers showNum) {v w : Value ν} {r r' : List Char}
    (heq : print showNum v ++ r = print showNum w ++ r') : lead v = lead w := by
  obtain ⟨c, t, hct, hv⟩ := print_head h v r
  obtain ⟨c', t', hct', hw⟩ := print_head h w r'
  rw [hct, hct'] at heq
  rw [hv, hw, (List.cons.inj heq).1]

theorem stops_printMoreItems (vs : List (Value ν)) (r : List Char) :
    Stops (printMoreItems showNum vs ++ r) := by
  cases vs with
  | nil =>
    intro c hc
    cases hc
    rfl
  | cons v vs =>
    intro c hc
    cases hc
    rfl

theorem stops_printMoreFields (fs : List (String × Value ν)) (r : List Char) :
    Stops (printMoreFields showNum fs ++ r) := by
  cases fs with
  | nil =>
    intro c hc
    cases hc
    rfl
  | cons f fs =>
    intro c hc
    cases hc
    rfl

mutual
/-- Two values with one text, in front of anything that is no number, are the
same. -/
theorem print_inj (h : WritesNumbers showNum) : ∀ (v w : Value ν) {r r' : List Char},
    Stops r → Stops r' → print showNum v ++ r = print showNum w ++ r' → v = w ∧ r = r'
  | .null, w, r, r', hr, hr', heq => by
    have hlead := lead_eq h heq
    cases w with
    | null => exact ⟨rfl, List.append_cancel_left heq⟩
    | bool b => cases b <;> simp [lead] at hlead
    | _ => simp [lead] at hlead
  | .bool b, w, r, r', hr, hr', heq => by
    have hlead := lead_eq h heq
    cases w with
    | bool b' =>
      obtain rfl : b = b' := by
        revert hlead
        cases b <;> cases b' <;> simp [lead]
      exact ⟨rfl, List.append_cancel_left heq⟩
    | _ => cases b <;> simp [lead] at hlead
  | .num m, w, r, r', hr, hr', heq => by
    have hlead := lead_eq h heq
    cases w with
    | num n =>
      obtain ⟨rfl, hrest⟩ := h.inj showNum hr hr' heq
      exact ⟨rfl, hrest⟩
    | bool b => cases b <;> simp [lead] at hlead
    | _ => simp [lead] at hlead
  | .str s, w, r, r', hr, hr', heq => by
    have hlead := lead_eq h heq
    cases w with
    | str t =>
      obtain ⟨rfl, hrest⟩ := quote_inj heq
      exact ⟨rfl, hrest⟩
    | bool b => cases b <;> simp [lead] at hlead
    | _ => simp [lead] at hlead
  | .arr vs, w, r, r', hr, hr', heq => by
    have hlead := lead_eq h heq
    cases w with
    | arr ws =>
      obtain ⟨rfl, hrest⟩ := printItems_inj h vs ws (List.cons.inj heq).2
      exact ⟨rfl, hrest⟩
    | bool b => cases b <;> simp [lead] at hlead
    | _ => simp [lead] at hlead
  | .obj fs, w, r, r', hr, hr', heq => by
    have hlead := lead_eq h heq
    cases w with
    | obj gs =>
      obtain ⟨rfl, hrest⟩ := printFields_inj h fs gs (List.cons.inj heq).2
      exact ⟨rfl, hrest⟩
    | bool b => cases b <;> simp [lead] at hlead
    | _ => simp [lead] at hlead

theorem printItems_inj (h : WritesNumbers showNum) : ∀ (vs ws : List (Value ν))
    {r r' : List Char}, printItems showNum vs ++ r = printItems showNum ws ++ r' →
      vs = ws ∧ r = r'
  | [], ws, r, r', heq => by
    cases ws with
    | nil => exact ⟨rfl, (List.cons.inj heq).2⟩
    | cons w ws =>
      rw [printItems, printItems, List.append_assoc] at heq
      obtain ⟨c, t, hct, hlead⟩ := print_head h w (printMoreItems showNum ws ++ r')
      rw [hct] at heq
      rw [← (List.cons.inj heq).1] at hlead
      cases w with
      | bool b => cases b <;> simp [lead, isNumChar] at hlead
      | _ => simp [lead, isNumChar] at hlead
  | v :: vs, ws, r, r', heq => by
    cases ws with
    | nil =>
      rw [printItems, printItems, List.append_assoc] at heq
      obtain ⟨c, t, hct, hlead⟩ := print_head h v (printMoreItems showNum vs ++ r)
      rw [hct] at heq
      rw [(List.cons.inj heq).1] at hlead
      cases v with
      | bool b => cases b <;> simp [lead, isNumChar] at hlead
      | _ => simp [lead, isNumChar] at hlead
    | cons w ws =>
      rw [printItems, printItems, List.append_assoc, List.append_assoc] at heq
      obtain ⟨rfl, hmore⟩ := print_inj h v w (stops_printMoreItems vs r)
        (stops_printMoreItems ws r') heq
      obtain ⟨rfl, hrest⟩ := printMoreItems_inj h vs ws hmore
      exact ⟨rfl, hrest⟩

theorem printMoreItems_inj (h : WritesNumbers showNum) : ∀ (vs ws : List (Value ν))
    {r r' : List Char}, printMoreItems showNum vs ++ r = printMoreItems showNum ws ++ r' →
      vs = ws ∧ r = r'
  | [], ws, r, r', heq => by
    cases ws with
    | nil => exact ⟨rfl, (List.cons.inj heq).2⟩
    | cons w ws => simp [printMoreItems] at heq
  | v :: vs, ws, r, r', heq => by
    cases ws with
    | nil => simp [printMoreItems] at heq
    | cons w ws =>
      rw [printMoreItems, printMoreItems, List.cons_append, List.cons_append,
        List.append_assoc, List.append_assoc] at heq
      obtain ⟨rfl, hmore⟩ := print_inj h v w (stops_printMoreItems vs r)
        (stops_printMoreItems ws r') (List.cons.inj heq).2
      obtain ⟨rfl, hrest⟩ := printMoreItems_inj h vs ws hmore
      exact ⟨rfl, hrest⟩

theorem printFields_inj (h : WritesNumbers showNum) : ∀ (fs gs : List (String × Value ν))
    {r r' : List Char}, printFields showNum fs ++ r = printFields showNum gs ++ r' →
      fs = gs ∧ r = r'
  | [], gs, r, r', heq => by
    cases gs with
    | nil => exact ⟨rfl, (List.cons.inj heq).2⟩
    | cons g gs => simp [printFields, quote] at heq
  | (k, v) :: fs, gs, r, r', heq => by
    cases gs with
    | nil => simp [printFields, quote] at heq
    | cons g gs =>
      obtain ⟨l, w⟩ := g
      rw [printFields, printFields, List.append_assoc, List.append_assoc, List.cons_append,
        List.cons_append, List.append_assoc, List.append_assoc] at heq
      obtain ⟨rfl, hvalue⟩ := quote_inj heq
      obtain ⟨rfl, hmore⟩ := print_inj h v w (stops_printMoreFields fs r)
        (stops_printMoreFields gs r') (List.cons.inj hvalue).2
      obtain ⟨rfl, hrest⟩ := printMoreFields_inj h fs gs hmore
      exact ⟨rfl, hrest⟩

theorem printMoreFields_inj (h : WritesNumbers showNum) : ∀ (fs gs : List (String × Value ν))
    {r r' : List Char}, printMoreFields showNum fs ++ r = printMoreFields showNum gs ++ r' →
      fs = gs ∧ r = r'
  | [], gs, r, r', heq => by
    cases gs with
    | nil => exact ⟨rfl, (List.cons.inj heq).2⟩
    | cons g gs => simp [printMoreFields] at heq
  | (k, v) :: fs, gs, r, r', heq => by
    cases gs with
    | nil => simp [printMoreFields] at heq
    | cons g gs =>
      obtain ⟨l, w⟩ := g
      rw [printMoreFields, printMoreFields, List.cons_append, List.cons_append, List.append_assoc,
        List.append_assoc, List.cons_append, List.cons_append, List.append_assoc,
        List.append_assoc] at heq
      obtain ⟨rfl, hvalue⟩ := quote_inj (List.cons.inj heq).2
      obtain ⟨rfl, hmore⟩ := print_inj h v w (stops_printMoreFields fs r)
        (stops_printMoreFields gs r') (List.cons.inj hvalue).2
      obtain ⟨rfl, hrest⟩ := printMoreFields_inj h fs gs hmore
      exact ⟨rfl, hrest⟩
end

theorem print_injective (h : WritesNumbers showNum) : Function.Injective (print showNum) := by
  intro v w heq
  have hstop : Stops [] := nofun
  refine (print_inj h v w hstop hstop ?_).1
  rw [List.append_nil, List.append_nil, heq]

end Print

end ConquerD.Lib.JsonText
