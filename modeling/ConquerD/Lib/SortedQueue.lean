import Mathlib.Data.List.Sort

/-!
# Bounded queues in the order of a key

A queue takes one element more, sorts by a key, and sheds its first elements where it
holds more than it may. Elements with the same key stay in the order they came in.
-/

namespace ConquerD.Lib.SortedQueue

variable {α κ : Type*} [LinearOrder κ] (key : α → κ) {l : List α} {x y : α}

/-- In the order of the keys. -/
def sortByKey (l : List α) : List α :=
  l.insertionSort fun a b => key a ≤ key b

instance instTotalKeyLe : Std.Total fun a b : α => key a ≤ key b :=
  ⟨fun a b => le_total (key a) (key b)⟩

instance instIsTransKeyLe : IsTrans α fun a b : α => key a ≤ key b :=
  ⟨fun _ _ _ => le_trans⟩

theorem sortByKey_perm (l : List α) : (sortByKey key l).Perm l :=
  List.perm_insertionSort _ l

theorem mem_sortByKey : x ∈ sortByKey key l ↔ x ∈ l :=
  (sortByKey_perm key l).mem_iff

theorem length_sortByKey (l : List α) : (sortByKey key l).length = l.length :=
  (sortByKey_perm key l).length_eq

theorem pairwise_sortByKey (l : List α) :
    (sortByKey key l).Pairwise fun a b => key a ≤ key b :=
  List.pairwise_insertionSort _ l

theorem pairwise_lt_sortByKey (h : (l.map key).Nodup) :
    (sortByKey key l).Pairwise fun a b => key a < key b := by
  have hnodup : (sortByKey key l).Pairwise fun a b => key a ≠ key b := by
    have hkeys := ((sortByKey_perm key l).map key).nodup_iff.mpr h
    rwa [List.Nodup, List.pairwise_map] at hkeys
  exact (pairwise_sortByKey key l).imp₂ (fun _ _ hle hne => lt_of_le_of_ne hle hne) hnodup

/-! ## The bound -/

/-- The elements that are let go past the bound. -/
def shed (most : Nat) (l : List α) : List α :=
  l.take (l.length - most)

/-- The elements that stay. -/
def keep (most : Nat) (l : List α) : List α :=
  l.drop (l.length - most)

variable {most : Nat}

theorem shed_append_keep (most : Nat) (l : List α) : shed most l ++ keep most l = l :=
  List.take_append_drop _ l

theorem keep_sublist (most : Nat) (l : List α) : (keep most l).Sublist l :=
  List.drop_sublist _ l

theorem length_keep_le (most : Nat) (l : List α) : (keep most l).length ≤ most := by
  rw [keep, List.length_drop]
  omega

theorem mem_keep_or_shed (h : x ∈ l) : x ∈ keep most l ∨ x ∈ shed most l := by
  rw [← shed_append_keep most l, List.mem_append] at h
  exact h.symm

theorem of_mem_shed (hsorted : l.Pairwise fun a b => key a ≤ key b) (h : x ∈ shed most l) :
    (keep most l).length = most ∧ ∀ y ∈ keep most l, key x ≤ key y := by
  refine ⟨?_, fun y hy => ?_⟩
  · have hpos : 0 < (shed most l).length := List.length_pos_of_mem h
    rw [shed, List.length_take] at hpos
    rw [keep, List.length_drop]
    omega
  · rw [← shed_append_keep most l, List.pairwise_append] at hsorted
    exact hsorted.2.2 x h y hy

end ConquerD.Lib.SortedQueue
