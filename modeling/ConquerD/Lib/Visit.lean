import Mathlib.Data.List.Nodup

/-!
# A hash map as one visit sees it

The entries of an unordered map in the order a loop over it visits them. No key
is there twice, so a lookup does not depend on that order.
-/

namespace ConquerD.Lib.Visit

structure VisitMap (α : Type) where
  entries : List (String × α)
  nodup : (entries.map Prod.fst).Nodup

namespace VisitMap

variable {α : Type} (m : VisitMap α)

def get? (key : String) : Option α :=
  m.entries.lookup key

def keys : List String :=
  m.entries.map Prod.fst

def values : List α :=
  m.entries.map Prod.snd

def contains (key : String) : Bool :=
  (m.get? key).isSome

def empty : VisitMap α where
  entries := []
  nodup := List.nodup_nil

def single (key : String) (value : α) : VisitMap α where
  entries := [(key, value)]
  nodup := List.nodup_singleton key

theorem lookup_eq_some_iff {entries : List (String × α)} (h : (entries.map Prod.fst).Nodup)
    {key : String} {value : α} : entries.lookup key = some value ↔ (key, value) ∈ entries := by
  induction entries with
  | nil => simp
  | cons entry rest ih =>
    obtain ⟨k, v⟩ := entry
    obtain ⟨hk, hrest⟩ := List.nodup_cons.mp h
    by_cases hkey : key = k
    · subst hkey
      have hnot : (key, value) ∉ rest := fun hmem =>
        hk (List.mem_map.mpr ⟨(key, value), hmem, rfl⟩)
      simp [hnot, eq_comm]
    · have hbeq : (key == k) = false := beq_false_of_ne hkey
      rw [List.lookup_cons, hbeq]
      simp [ih hrest, hkey]

theorem get?_eq_some_iff {key : String} {value : α} :
    m.get? key = some value ↔ (key, value) ∈ m.entries :=
  lookup_eq_some_iff m.nodup

theorem get?_single {key other : String} {value found : α} :
    (single key value).get? other = some found ↔ other = key ∧ found = value := by
  rw [get?_eq_some_iff]
  simp [single]

theorem mem_values_of_get? {key : String} {value : α} (h : m.get? key = some value) :
    value ∈ m.values :=
  List.mem_map_of_mem (m.get?_eq_some_iff.mp h)

end VisitMap

end ConquerD.Lib.Visit
