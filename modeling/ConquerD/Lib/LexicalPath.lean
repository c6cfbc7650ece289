import Mathlib.Data.List.Basic
import Mathlib.Data.List.Infix

/-!
# Names joined to a place

A place is a drive, on a host that has drives, and the segments below its root. A name is
joined to a place without a look at the disk: a drive or a leading separator starts over,
dots stay, two dots go up, and any other segment goes down. What starts over nowhere and
goes up nowhere stays below the place.
-/

namespace ConquerD.Lib.LexicalPath

/-- Whose rules a name is read by. -/
inductive Host where
  | posix
  | windows
  deriving DecidableEq

def Host.isSeparator : Host → Char → Bool
  | .posix, c => c == '/'
  | .windows, c => c == '/' || c == '\\'

/-- The drive a name begins with, and the rest of the name. -/
def Host.drive? : Host → List Char → Option (Char × List Char)
  | .windows, letter :: ':' :: rest => if letter.isAlpha then some (letter, rest) else none
  | _, _ => none

def Host.segments (h : Host) (name : List Char) : List (List Char) :=
  name.splitOnP h.isSeparator

structure Place where
  drive : Option Char
  /-- From the root down. -/
  below : List (List Char)
  deriving DecidableEq

/-- The segment that goes up. -/
def parent : List Char := ['.', '.']

/-- One segment of a name, from where the segments before it lead. -/
def step (below : List (List Char)) (segment : List Char) : List (List Char) :=
  if segment = [] ∨ segment = ['.'] then below
  else if segment = parent then below.dropLast
  else below ++ [segment]

def walk (below segments : List (List Char)) : List (List Char) :=
  segments.foldl step below

/-- Where a name joined to a place leads. -/
def Host.join (h : Host) (base : Place) (name : List Char) : Place :=
  match h.drive? name with
  | some (letter, rest) => ⟨some letter, walk [] (h.segments rest)⟩
  | none =>
    if name.head?.any h.isSeparator then ⟨base.drive, walk [] (h.segments name)⟩
    else ⟨base.drive, walk base.below (h.segments name)⟩

/-- The one place is the other or lies below it. -/
structure Place.Holds (base place : Place) : Prop where
  drive : place.drive = base.drive
  below : base.below <+: place.below

/-! ## Splitting -/

section Splitting

variable {α β : Type}

theorem splitOnP_map (f : α → β) (p : β → Bool) (l : List α) :
    (l.map f).splitOnP p = (l.splitOnP (p ∘ f)).map (List.map f) := by
  induction l with
  | nil => simp [List.splitOnP_nil]
  | cons x xs ih =>
    rw [List.map_cons, List.splitOnP_cons_eq_if_modifyHead, List.splitOnP_cons_eq_if_modifyHead,
      ih]
    cases hx : p (f x) with
    | true => simp [hx]
    | false =>
      obtain ⟨s, ss, hs⟩ := List.exists_cons_of_ne_nil (List.splitOnP_ne_nil (p ∘ f) xs)
      simp [hx, hs]

theorem splitOnP_flatMap {p q : α → Bool} (hpq : ∀ c, p c = true → q c = true) (l : List α) :
    (l.splitOnP p).flatMap (List.splitOnP q) = l.splitOnP q := by
  induction l with
  | nil => simp [List.splitOnP_nil]
  | cons x xs ih =>
    rw [List.splitOnP_cons_eq_if_modifyHead, List.splitOnP_cons_eq_if_modifyHead, ← ih]
    obtain ⟨s, ss, hs⟩ := List.exists_cons_of_ne_nil (List.splitOnP_ne_nil p xs)
    obtain ⟨t, ts, ht⟩ := List.exists_cons_of_ne_nil (List.splitOnP_ne_nil q s)
    cases hp : p x with
    | true => simp [hpq x hp, List.splitOnP_nil]
    | false =>
      cases hq : q x with
      | true => simp [hs, hq, List.splitOnP_cons_eq_if_modifyHead]
      | false => simp [hs, ht, hq, List.splitOnP_cons_eq_if_modifyHead]

theorem mem_splitOnP_of_imp {p q : α → Bool} (hpq : ∀ c, p c = true → q c = true)
    {l piece : List α} (hmem : piece ∈ l.splitOnP p) (hsolid : ∀ c ∈ piece, q c = false) :
    piece ∈ l.splitOnP q := by
  rw [← splitOnP_flatMap hpq, List.mem_flatMap]
  refine ⟨piece, hmem, ?_⟩
  rw [List.splitOnP_eq_singleton hsolid]
  exact List.mem_singleton_self piece

end Splitting

/-! ## Going down -/

theorem prefix_walk {segments : List (List Char)} (h : ∀ s ∈ segments, s ≠ parent)
    (below : List (List Char)) : below <+: walk below segments := by
  induction segments generalizing below with
  | nil => exact List.prefix_rfl
  | cons s rest ih =>
    have hstep : below <+: step below s := by
      unfold step
      split
      · exact List.prefix_rfl
      · rw [if_neg (h s List.mem_cons_self)]
        exact List.prefix_append below [s]
    exact hstep.trans (ih (fun t ht => h t (List.mem_cons_of_mem s ht)) (step below s))

theorem Host.holds_join {h : Host} {name : List Char} (hdrive : h.drive? name = none)
    (hhead : name.head?.any h.isSeparator = false) (hup : ∀ s ∈ h.segments name, s ≠ parent)
    (base : Place) : base.Holds (h.join base name) := by
  unfold Host.join
  rw [hdrive]
  simp only [hhead, Bool.false_eq_true, if_false]
  exact ⟨rfl, prefix_walk hup base.below⟩

/-- What stays below by the rules with drives and two separators does so by the others. -/
theorem Host.drive?_none {name : List Char} (hdrive : Host.windows.drive? name = none) (h : Host) :
    h.drive? name = none := by
  cases h with
  | posix => rfl
  | windows => exact hdrive

theorem Host.isSeparator_windows (h : Host) (c : Char) (hc : h.isSeparator c = true) :
    Host.windows.isSeparator c = true := by
  cases h with
  | posix => simp only [Host.isSeparator] at hc ⊢; rw [hc]; rfl
  | windows => exact hc

theorem Host.head_separator {name : List Char}
    (hhead : name.head?.any Host.windows.isSeparator = false) (h : Host) :
    name.head?.any h.isSeparator = false := by
  cases hn : name.head? with
  | none => rfl
  | some c =>
    rw [hn, Option.any_some] at hhead
    rw [Option.any_some, Bool.eq_false_iff]
    intro hc
    rw [h.isSeparator_windows c hc] at hhead
    cases hhead

theorem Host.ne_parent {name : List Char}
    (hup : ∀ s ∈ Host.windows.segments name, s ≠ parent) (h : Host) :
    ∀ s ∈ h.segments name, s ≠ parent := by
  rintro s hs rfl
  refine hup parent ?_ rfl
  refine mem_splitOnP_of_imp h.isSeparator_windows hs fun c hc => ?_
  simp only [parent, List.mem_cons, List.not_mem_nil, or_false, or_self] at hc
  subst hc
  decide

end ConquerD.Lib.LexicalPath
