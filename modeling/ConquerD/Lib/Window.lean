import Mathlib.Algebra.Order.Group.Defs
import Mathlib.Data.List.Nodup

/-!
# Memories of a history

A memory forgets by age or by number. Keys that are remembered with the time they
were first seen are forgotten once they are older than a window: `Covers window now
seen history` says that the memory misses nothing of a history that is still inside
the window at `now`, the invariant of every such memory, however often it is pruned
and extended. A bounded first-in first-out memory of a history `l` holds its last `n`
entries: recording one more entry appends it and drops the oldest when the memory is
over its bound; an entry is remembered as long as fewer than `n` entries came after it.
-/

namespace ConquerD.Lib.Window

variable {κ τ : Type*} [AddCommGroup τ] [LinearOrder τ]

/-- The entries that are no older than the window. -/
def prune (window now : τ) (seen : List (κ × τ)) : List (κ × τ) :=
  seen.filter fun e => decide (now - e.2 ≤ window)

/-- What the memory lacks of the history is older than the window. -/
def Covers (window now : τ) (seen history : List (κ × τ)) : Prop :=
  ∀ e ∈ history, e ∈ seen ∨ window < now - e.2

theorem Covers.nil (window now : τ) (seen : List (κ × τ)) : Covers window now seen [] := by
  intro e he
  exact absurd he List.not_mem_nil

theorem Covers.cons {window now : τ} {seen history : List (κ × τ)}
    (h : Covers window now seen history) (e : κ × τ) :
    Covers window now (e :: seen) (e :: history) := by
  intro e' he
  rcases List.mem_cons.mp he with rfl | he
  · exact .inl List.mem_cons_self
  · exact (h e' he).imp_left (List.mem_cons_of_mem e)

/-- A key the memory does not know was last seen before the window, if ever. -/
theorem Covers.aged {window now : τ} {seen history : List (κ × τ)}
    (h : Covers window now seen history) {k : κ} (hk : k ∉ seen.map Prod.fst) {t : τ}
    (he : (k, t) ∈ history) : window < now - t := by
  rcases h (k, t) he with hs | hs
  · exact absurd (List.mem_map_of_mem hs) hk
  · exact hs

theorem prune_cons (window now : τ) (e : κ × τ) (seen : List (κ × τ)) :
    prune window now (e :: seen) =
      if now - e.2 ≤ window then e :: prune window now seen else prune window now seen := by
  rw [prune, List.filter_cons]
  simp only [decide_eq_true_eq]
  rfl

variable [IsOrderedAddMonoid τ]

theorem prune_prune {window t now : τ} (ht : t ≤ now) (seen : List (κ × τ)) :
    prune window now (prune window t seen) = prune window now seen := by
  rw [prune, prune, prune, List.filter_filter]
  apply List.filter_congr
  intro e _
  by_cases h : now - e.2 ≤ window
  · have hearlier : t - e.2 ≤ window := (sub_le_sub_right ht e.2).trans h
    simp [h, hearlier]
  · simp [h]

theorem Covers.later {window t now : τ} {seen history : List (κ × τ)}
    (h : Covers window t seen history) (ht : t ≤ now) : Covers window now seen history := by
  intro e he
  exact (h e he).imp_right fun hlt => lt_of_lt_of_le hlt (sub_le_sub_right ht e.2)

theorem Covers.prune {window t now : τ} {seen history : List (κ × τ)}
    (h : Covers window t seen history) (ht : t ≤ now) :
    Covers window now (prune window now seen) history := by
  intro e he
  rcases h.later ht e he with hs | hs
  · by_cases hw : now - e.2 ≤ window
    · exact .inl (List.mem_filter.mpr ⟨hs, decide_eq_true hw⟩)
    · exact .inr (not_le.mp hw)
  · exact .inr hs

end ConquerD.Lib.Window

namespace ConquerD.Lib.Recent

variable {α β : Type*}

/-- The last `n` entries of `l`. -/
def lastN (n : Nat) (l : List α) : List α :=
  l.drop (l.length - n)

@[simp] theorem lastN_nil (n : Nat) : lastN n ([] : List α) = [] := by
  simp [lastN]

theorem mem_of_mem_lastN {n : Nat} {l : List α} {a : α} (h : a ∈ lastN n l) : a ∈ l :=
  List.mem_of_mem_drop h

/-- A memory over its bound is one entry too long, so dropping one is enough. -/
theorem lastN_concat (n : Nat) (l : List α) (a : α) :
    lastN n (l ++ [a]) =
      if (lastN n l ++ [a]).length > n then (lastN n l ++ [a]).drop 1 else lastN n l ++ [a] := by
  have hlen : (lastN n l ++ [a]).length = min n l.length + 1 := by
    simp only [lastN, List.length_append, List.length_drop, List.length_singleton]
    omega
  have happ : lastN n l ++ [a] = (l ++ [a]).drop (l.length - n) := by
    rw [lastN, List.drop_append_of_le_length (Nat.sub_le _ _)]
  rw [hlen, happ]
  unfold lastN
  split
  · rw [List.drop_drop, List.length_append, List.length_singleton]
    congr 1
    omega
  · rw [List.length_append, List.length_singleton]
    congr 1
    omega

theorem mem_lastN_of_idxOf [DecidableEq α] {n : Nat} {l : List α} {a : α} (ha : a ∈ l)
    (h : l.length ≤ l.idxOf a + n) : a ∈ lastN n l := by
  have hlt : l.idxOf a < l.length := List.idxOf_lt_length_of_mem ha
  rw [lastN, List.mem_drop_iff_getElem]
  refine ⟨l.idxOf a - (l.length - n), by omega, ?_⟩
  have hidx : l.length - n + (l.idxOf a - (l.length - n)) = l.idxOf a := by omega
  simp only [hidx]
  exact List.getElem_idxOf hlt

theorem map_lastN (f : α → β) (n : Nat) (l : List α) : (lastN n l).map f = lastN n (l.map f) := by
  simp [lastN, List.map_drop]

end ConquerD.Lib.Recent
