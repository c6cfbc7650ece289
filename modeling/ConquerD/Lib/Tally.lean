import Mathlib.Algebra.BigOperators.Group.List.Basic
import Mathlib.Algebra.GroupWithZero.Nat
import Mathlib.Data.List.AList
import Mathlib.Algebra.Order.Group.Nat

/-!
# Maps whose values weigh something

A map by its entries, with the number of its keys and the total weight of its
values. Both follow what is inserted and erased.
-/

namespace ConquerD.Lib.Tally

/-- A map by its entries, in any order. -/
abbrev Map (κ α : Type*) := AList fun _ : κ => α

variable {κ α : Type*} {w : α → Nat}

def size (m : Map κ α) : Nat := m.entries.length

/-- The weight of all values. -/
def total (w : α → Nat) (m : Map κ α) : Nat :=
  (m.entries.map fun e => w e.2).sum

@[simp] theorem size_empty : size (∅ : Map κ α) = 0 := rfl

@[simp] theorem total_empty : total w (∅ : Map κ α) = 0 := rfl

theorem size_eq_length_keys (m : Map κ α) : size m = m.keys.length :=
  (List.length_map _).symm

variable [DecidableEq κ] {m : Map κ α} {k k' : κ} {v : α}

/-! ## Erasing -/

theorem erase_of_lookup_eq_none (h : m.lookup k = none) : m.erase k = m :=
  AList.ext (List.kerase_of_notMem_keys (AList.lookup_eq_none.mp h))

theorem total_erase_add (h : m.lookup k = some v) : total w (m.erase k) + w v = total w m := by
  obtain ⟨entries, hnodup⟩ := m
  unfold total AList.erase
  dsimp only
  unfold AList.lookup at h
  dsimp only at h
  clear hnodup
  induction entries with
  | nil => cases h
  | cons e entries ih =>
    obtain ⟨a, b⟩ := e
    by_cases ha : k = a
    · subst ha
      rw [List.dlookup_cons_eq] at h
      cases h
      have hrest : List.kerase k (⟨k, v⟩ :: entries) = entries :=
        List.kerase_cons_eq (β := fun _ => α) rfl
      rw [hrest, List.map_cons, List.sum_cons, Nat.add_comm]
    · rw [List.dlookup_cons_ne _ _ ha] at h
      have hrest : List.kerase k (⟨a, b⟩ :: entries) = ⟨a, b⟩ :: List.kerase k entries :=
        List.kerase_cons_ne ha
      rw [hrest, List.map_cons, List.sum_cons, List.map_cons, List.sum_cons, Nat.add_assoc, ih h]

theorem size_erase_add_one (h : k ∈ m) : size (m.erase k) + 1 = size m := by
  have hlen := List.length_erase_add_one (AList.mem_keys.mp h)
  rw [size_eq_length_keys, AList.keys_erase, size_eq_length_keys]
  exact hlen

theorem size_erase_le (k : κ) : size (m.erase k) ≤ size m := by
  rw [size_eq_length_keys, AList.keys_erase, size_eq_length_keys]
  exact List.length_erase_le

theorem lookup_of_lookup_erase (h : (m.erase k').lookup k = some v) :
    k ≠ k' ∧ m.lookup k = some v := by
  by_cases hk : k = k'
  · subst hk
    rw [AList.lookup_erase] at h
    cases h
  · rw [AList.lookup_erase_ne hk] at h
    exact ⟨hk, h⟩

/-! ## Inserting -/

theorem total_insert (k : κ) (v : α) (m : Map κ α) :
    total w (m.insert k v) = w v + total w (m.erase k) := by
  unfold total
  rw [AList.entries_insert, List.map_cons, List.sum_cons]
  rfl

theorem size_insert (k : κ) (v : α) (m : Map κ α) :
    size (m.insert k v) = size (m.erase k) + 1 := by
  unfold size
  rw [AList.entries_insert, List.length_cons]
  rfl

theorem erase_insert (k : κ) (v : α) (m : Map κ α) : (m.insert k v).erase k = m.erase k :=
  AList.ext (List.kerase_cons_eq (β := fun _ => α) rfl)

theorem size_insert_of_mem (h : k ∈ m) : size (m.insert k v) = size m := by
  rw [size_insert, size_erase_add_one h]

theorem size_insert_of_lookup_eq_none (h : m.lookup k = none) :
    size (m.insert k v) = size m + 1 := by
  rw [size_insert, erase_of_lookup_eq_none h]

theorem lookup_insert_of_ne {v' : α} (h : k ≠ k') :
    (m.insert k' v').lookup k = m.lookup k :=
  AList.lookup_insert_ne h

theorem mem_of_lookup (h : m.lookup k = some v) : k ∈ m :=
  AList.lookup_isSome.mp (h ▸ rfl)

/-! ## Weights in a list -/

theorem sum_map_set {l : List α} {i : Nat} {a : α} (h : l[i]? = some a) (b : α) :
    ((l.set i b).map w).sum + w a = (l.map w).sum + w b := by
  induction l generalizing i with
  | nil => cases h
  | cons x l ih =>
    cases i with
    | zero =>
      cases h
      rw [List.set_cons_zero, List.map_cons, List.sum_cons, List.map_cons, List.sum_cons]
      omega
    | succ i =>
      have hrest := ih (i := i) h
      rw [List.set_cons_succ, List.map_cons, List.sum_cons, List.map_cons, List.sum_cons]
      omega

end ConquerD.Lib.Tally
