import Mathlib.Data.List.DropRight
import Mathlib.Data.String.Basic

/-!
# Text: trailing characters and separators

`trimEndMatches c s` drops every trailing `c` of `s`. Two texts that differ in
trailing `c`s only have the same trimmed form, and the trimmed form is stable.
-/

namespace ConquerD.Lib.Text

/-! ## Trailing characters -/

/-- `s` without its trailing `c`s. -/
def trimEndMatches (c : Char) (s : String) : String :=
  String.ofList (s.toList.rdropWhile (· == c))

@[simp] theorem toList_trimEndMatches (c : Char) (s : String) :
    (trimEndMatches c s).toList = s.toList.rdropWhile (· == c) := by
  simp [trimEndMatches]

@[simp] theorem trimEndMatches_idem (c : Char) (s : String) :
    trimEndMatches c (trimEndMatches c s) = trimEndMatches c s := by
  rw [← String.toList_inj]
  simp [List.rdropWhile_idempotent]

@[simp] theorem trimEndMatches_push (c : Char) (s : String) :
    trimEndMatches c (s.push c) = trimEndMatches c s := by
  rw [← String.toList_inj]
  simp [List.rdropWhile_concat_pos]

/-- Trimming gives back the text when it does not end in the trimmed character. -/
theorem trimEndMatches_of_getLast_ne {c : Char} {s : String}
    (h : ∀ hl : s.toList ≠ [], s.toList.getLast hl ≠ c) : trimEndMatches c s = s := by
  rw [← String.toList_inj, toList_trimEndMatches, List.rdropWhile_eq_self_iff]
  intro hl
  simpa using h hl

/-- A text whose characters all differ from `c` is its own trimmed form. -/
theorem trimEndMatches_of_notMem {c : Char} {s : String} (h : c ∉ s.toList) :
    trimEndMatches c s = s := by
  apply trimEndMatches_of_getLast_ne
  intro hl heq
  exact h (heq ▸ List.getLast_mem hl)

theorem mem_trimEndMatches_or_eq {c c' : Char} {s : String} (h : c' ∈ s.toList) :
    c' ∈ (trimEndMatches c s).toList ∨ c' = c := by
  have hsplit : s.toList.rdropWhile (· == c) ++ s.toList.rtakeWhile (· == c) = s.toList :=
    List.rdropWhile_append_rtakeWhile
  rw [← hsplit] at h
  rcases List.mem_append.mp h with h | h
  · exact .inl (by rwa [toList_trimEndMatches])
  · exact .inr (by simpa using List.mem_rtakeWhile_imp h)

/-! ## Separators -/

theorem append_sep_inj {c : Char} {s s' t t' : List Char} (ht : c ∉ t) (ht' : c ∉ t')
    (h : s ++ c :: t = s' ++ c :: t') : s = s' ∧ t = t' := by
  have hafter : ∀ u v : List Char, c ∉ v → (u ++ c :: v).rtakeWhile (· != c) = v := by
    intro u v hv
    have hrev : (u ++ c :: v).reverse = v.reverse ++ c :: u.reverse := by simp
    rw [List.rtakeWhile, hrev, List.takeWhile_append_of_pos]
    · simp
    · intro a ha
      have hne : a ≠ c := fun heq => hv (heq ▸ List.mem_reverse.mp ha)
      simpa using hne
  have heq : t = t' := by rw [← hafter s t ht, h, hafter s' t' ht']
  subst heq
  exact ⟨List.append_cancel_right h, rfl⟩

theorem notMem_toString_of_not_isDigit {c : Char} (hc : c.isDigit = false) (n : Nat) :
    c ∉ (toString n).toList := by
  intro h
  have hmem : c ∈ Nat.toDigits 10 n := by simpa [Nat.repr] using h
  have hdigit := Nat.isDigit_of_mem_toDigits (by decide) (by decide) hmem
  simp [hc] at hdigit

end ConquerD.Lib.Text
