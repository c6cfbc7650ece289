import Mathlib.Data.List.Basic
import Mathlib.Data.List.TakeWhile
import Mathlib.Tactic.Tauto

/-!
# Lines and words of a text

A text is read line by line, and a line word by word; words are what white characters
separate. A line added to a text whose last line is blank is read as a line of its own,
and the words of a line written with single blanks between them are the words written.
-/

namespace ConquerD.Lib.Words

/-! ## White characters -/

/-- Unicode's white characters. -/
def isWhite (c : Char) : Bool :=
  let n := c.toNat
  (9 ≤ n && n ≤ 13) || n = 32 || n = 0x85 || n = 0xA0 || n = 0x1680 || (0x2000 ≤ n && n ≤ 0x200A) ||
    n = 0x2028 || n = 0x2029 || n = 0x202F || n = 0x205F || n = 0x3000

/-- The characters between the white ones at either end. -/
def trim (cs : List Char) : List Char :=
  ((cs.dropWhile isWhite).reverse.dropWhile isWhite).reverse

/-- The maximal runs of characters that are not white. -/
def words (cs : List Char) : List (List Char) :=
  (cs.splitOnP isWhite).filter (· ≠ [])

/-- What feeds separate. -/
def pieces (cs : List Char) : List (List Char) :=
  cs.splitOnP (· == '\n')

/-- The lines, without the feeds that end them. A carriage return stays, and is white. -/
def lines (cs : List Char) : List (List Char) :=
  if (pieces cs).getLast? = some [] then (pieces cs).dropLast else pieces cs

/-! ## Words -/

/-- Not empty, and nothing white in it. -/
structure IsWord (w : List Char) : Prop where
  ne_nil : w ≠ []
  solid : ∀ c ∈ w, isWhite c = false

theorem IsWord.of_all {w : List Char} (hne : w ≠ []) (h : (w.all fun c => !isWhite c) = true) :
    IsWord w := by
  refine ⟨hne, fun c hc => ?_⟩
  simpa using List.all_eq_true.mp h c hc

theorem words_single {w : List Char} (h : IsWord w) : words w = [w] := by
  unfold words
  rw [List.splitOnP_eq_singleton h.solid]
  simp [h.ne_nil]

theorem words_cons {w cs : List Char} (h : IsWord w) {c : Char} (hc : isWhite c = true) :
    words (w ++ c :: cs) = w :: words cs := by
  unfold words
  rw [List.splitOnP_append_cons_of_forall_mem h.solid c hc]
  simp [h.ne_nil]

/-! ## Trimming -/

theorem dropWhile_white_append {blank cs : List Char} (h : ∀ c ∈ blank, isWhite c = true) :
    (blank ++ cs).dropWhile isWhite = cs.dropWhile isWhite :=
  List.dropWhile_append_of_pos h

/-- What begins and ends in characters that are not white is trimmed to itself, also
behind blanks. -/
theorem trim_white_append {blank cs : List Char} (h : ∀ c ∈ blank, isWhite c = true)
    (hhead : ∀ c, cs.head? = some c → isWhite c = false)
    (hlast : ∀ c, cs.getLast? = some c → isWhite c = false) : trim (blank ++ cs) = cs := by
  have hkeep : ∀ {ds : List Char}, (∀ c, ds.head? = some c → isWhite c = false) →
      ds.dropWhile isWhite = ds := by
    intro ds hds
    cases ds with
    | nil => rfl
    | cons d ds =>
      rw [List.dropWhile_cons_of_neg]
      simpa using hds d rfl
  unfold trim
  rw [dropWhile_white_append h, hkeep hhead, hkeep, List.reverse_reverse]
  intro c hc
  rw [List.head?_reverse] at hc
  exact hlast c hc

theorem trim_white {blank : List Char} (h : ∀ c ∈ blank, isWhite c = true) : trim blank = [] := by
  have htrim := @trim_white_append blank [] h (fun _ hc => nomatch hc) (fun _ hc => nomatch hc)
  rwa [List.append_nil] at htrim

/-! ## Lines -/

/-- The text is empty, or its last line is blank. -/
def EndsBlank (cs : List Char) : Prop :=
  ∃ blank, (∀ c ∈ blank, isWhite c = true ∧ c ≠ '\n') ∧
    (cs = blank ∨ ∃ front, cs = front ++ '\n' :: blank)

theorem endsBlank_iff {cs : List Char} :
    EndsBlank cs ↔ ((cs.reverse.takeWhile (· ≠ '\n')).all isWhite) = true := by
  constructor
  · rintro ⟨blank, hblank, hcs⟩
    have hrun : cs.reverse.takeWhile (· ≠ '\n') = blank.reverse := by
      have hall : ∀ c ∈ blank.reverse, (decide (c ≠ '\n')) = true := fun c hc => by
        simpa using (hblank c (List.mem_reverse.mp hc)).2
      rcases hcs with rfl | ⟨front, rfl⟩
      · exact List.takeWhile_eq_self_iff.mpr hall
      · rw [List.reverse_append, List.reverse_cons, List.append_assoc,
          List.takeWhile_append_of_pos hall]
        simp
    rw [hrun, List.all_eq_true]
    exact fun c hc => (hblank c (List.mem_reverse.mp hc)).1
  · intro h
    rw [List.all_eq_true] at h
    refine ⟨(cs.reverse.takeWhile (· ≠ '\n')).reverse, ?_, ?_⟩
    · intro c hc
      have hmem := List.mem_reverse.mp hc
      exact ⟨h c hmem, by simpa using List.mem_takeWhile_imp hmem⟩
    · have hsplit : cs = (cs.reverse.dropWhile (· ≠ '\n')).reverse ++
          (cs.reverse.takeWhile (· ≠ '\n')).reverse := by
        rw [← List.reverse_append, List.takeWhile_append_dropWhile, List.reverse_reverse]
      cases hfront : cs.reverse.dropWhile (· ≠ '\n') with
      | nil =>
        rw [hfront] at hsplit
        exact .inl hsplit
      | cons c front =>
        have hc : c = '\n' := by
          have hhead := List.head?_dropWhile_not (· ≠ '\n') cs.reverse
          rw [hfront] at hhead
          simpa using hhead
        rw [hfront, hc, List.reverse_cons, List.append_assoc] at hsplit
        exact .inr ⟨front.reverse, hsplit⟩

instance (cs : List Char) : Decidable (EndsBlank cs) :=
  decidable_of_iff' _ endsBlank_iff

theorem pieces_feed (front back : List Char) :
    pieces (front ++ '\n' :: back) = pieces front ++ pieces back :=
  List.splitOnP_append_cons front back rfl

theorem pieces_of_notMem {cs : List Char} (h : '\n' ∉ cs) : pieces cs = [cs] := by
  refine List.splitOnP_eq_singleton fun c hc => ?_
  simpa using fun heq : c = '\n' => h (heq ▸ hc)

section Read

variable {α : Type} {read : List Char → Option α}

theorem filterMap_lines (hempty : read [] = none) (cs : List Char) :
    (lines cs).filterMap read = (pieces cs).filterMap read := by
  unfold lines
  split
  · rename_i hlast
    have hsplit : (pieces cs).dropLast ++ [[]] = pieces cs :=
      List.dropLast_append_getLast? [] hlast
    calc (pieces cs).dropLast.filterMap read
        = ((pieces cs).dropLast ++ [[]]).filterMap read := by simp [List.filterMap_append, hempty]
      _ = (pieces cs).filterMap read := by rw [hsplit]
  · rfl

theorem filterMap_lines_append
    (hblank : ∀ blank, (∀ c ∈ blank, isWhite c = true) → read blank = none)
    {cs line : List Char} (hcs : EndsBlank cs) (hline : '\n' ∉ line)
    (hread : ∀ blank, (∀ c ∈ blank, isWhite c = true) → read (blank ++ line) = read line) :
    (lines (cs ++ line ++ ['\n'])).filterMap read =
      (lines cs).filterMap read ++ (read line).toList := by
  obtain ⟨blank, hwhite, hcs⟩ := hcs
  have hempty : read [] = none := hblank [] fun _ hc => nomatch hc
  have hnone : read blank = none := hblank blank fun c hc => (hwhite c hc).1
  have hone : read (blank ++ line) = read line := hread blank fun c hc => (hwhite c hc).1
  have hfree : '\n' ∉ blank := fun hc => (hwhite _ hc).2 rfl
  have hfree' : '\n' ∉ blank ++ line := fun hc =>
    (List.mem_append.mp hc).elim hfree hline
  have htail : (pieces (blank ++ line ++ ['\n'])).filterMap read = (read line).toList := by
    rw [pieces_feed, pieces_of_notMem hfree', pieces_of_notMem List.not_mem_nil]
    cases hl : read line <;> simp [hone, hempty, hl]
  rw [filterMap_lines hempty, filterMap_lines hempty]
  rcases hcs with rfl | ⟨front, rfl⟩
  · rw [htail, pieces_of_notMem hfree]
    simp [hnone]
  · have hassoc : front ++ '\n' :: blank ++ line ++ ['\n'] =
        front ++ '\n' :: (blank ++ line ++ ['\n']) := by simp
    have hlong := pieces_feed front (blank ++ line ++ ['\n'])
    rw [hassoc, hlong, pieces_feed front blank, List.filterMap_append, List.filterMap_append,
      htail, pieces_of_notMem hfree]
    simp [hnone]

end Read

end ConquerD.Lib.Words
