import Mathlib.Algebra.Order.Ring.Rat
import Mathlib.Data.Rat.Floor
import Mathlib.Tactic.Linarith

/-!
# Token buckets

A bucket fills at a steady rate up to a second's worth and never above. What is
taken from it in a stretch of time is bounded by how long the stretch is.
-/

namespace ConquerD.Lib.Bucket

/-- The tokens after some seconds, at a rate that is also the most it holds. -/
def filled (rate tokens elapsed : Rat) : Rat :=
  min (tokens + rate * elapsed) rate

variable {rate tokens a b : Rat}

theorem filled_full (hrate : 0 ≤ rate) (hb : 0 ≤ b) : filled rate rate b = rate := by
  unfold filled
  have hmore : 0 ≤ rate * b := mul_nonneg hrate hb
  rw [min_eq_right (by linarith)]

/-! ## What is taken in a stretch of time -/

/-- Nanoseconds as seconds. -/
def secs (ns : Nat) : Rat := (ns : Rat) / 1000000000

theorem secs_nonneg (ns : Nat) : 0 ≤ secs ns :=
  div_nonneg (Nat.cast_nonneg _) (by norm_num)

theorem secs_add (m n : Nat) : secs (m + n) = secs m + secs n := by
  unfold secs
  rw [Nat.cast_add, add_div]

theorem secs_le {m n : Nat} (h : m ≤ n) : secs m ≤ secs n := by
  obtain ⟨k, rfl⟩ := Nat.exists_eq_add_of_le h
  rw [secs_add]
  exact le_add_of_nonneg_right (secs_nonneg k)

/-- A stretch of time between two numbers of seconds is one between two clock readings,
or holds none. -/
theorem exists_readings {start stop : Rat} :
    (∀ now, ¬ (start ≤ secs now ∧ secs now ≤ stop)) ∨
      ∃ t0 t1, (∀ now, start ≤ secs now ∧ secs now ≤ stop ↔ t0 ≤ now ∧ now ≤ t1) ∧
        secs (t1 - t0) ≤ stop - start := by
  by_cases hsome : ∃ now, start ≤ secs now ∧ secs now ≤ stop
  · obtain ⟨now, hstart, hstop⟩ := hsome
    have hnano : (0 : Rat) < 1000000000 := by norm_num
    have hstop0 : 0 ≤ stop * 1000000000 :=
      mul_nonneg ((secs_nonneg now).trans hstop) hnano.le
    have hinside : ∀ n, start ≤ secs n ∧ secs n ≤ stop ↔
        ⌈start * 1000000000⌉₊ ≤ n ∧ n ≤ ⌊stop * 1000000000⌋₊ := by
      intro n
      unfold secs
      rw [Nat.ceil_le, Nat.le_floor_iff hstop0, le_div_iff₀ hnano, div_le_iff₀ hnano]
    refine .inr ⟨_, _, hinside, ?_⟩
    generalize ⌈start * 1000000000⌉₊ = t0 at hinside ⊢
    generalize ⌊stop * 1000000000⌋₊ = t1 at hinside ⊢
    have hle : t0 ≤ t1 := by
      obtain ⟨h0, h1⟩ := (hinside now).mp ⟨hstart, hstop⟩
      exact h0.trans h1
    have hfirst := ((hinside t0).mpr ⟨le_rfl, hle⟩).1
    have hlast := ((hinside t1).mpr ⟨hle, le_rfl⟩).2
    have hsplit : secs t1 = secs t0 + secs (t1 - t0) := by
      rw [← secs_add]
      congr 1
      omega
    linarith
  · exact .inl fun now hin => hsome ⟨now, hin⟩

/-- What was taken from a bucket in a stretch of time, against what is left in it
since it was last looked at. -/
structure Accounts (rate : Rat) (start stop : Nat) (tokens : Rat) (last : Nat) (taken : Rat) :
    Prop where
  capped : tokens ≤ rate
  bounded : taken ≤ rate * (1 + secs (stop - start))
  inside : last ≤ stop → taken + tokens ≤ rate * (1 + secs (last - start))
  before : last < start → taken = 0

namespace Accounts

variable {start stop last now : Nat} {taken cost : Rat}

theorem full (hrate : 0 ≤ rate) : Accounts rate start stop rate last 0 where
  capped := le_rfl
  bounded := mul_nonneg hrate (add_nonneg zero_le_one (secs_nonneg _))
  inside _ := by
    rw [zero_add]
    exact le_mul_of_one_le_right hrate (le_add_of_nonneg_right (secs_nonneg _))
  before _ := rfl

theorem filled (h : Accounts rate start stop tokens last taken) (hrate : 0 ≤ rate)
    (hle : last ≤ now) :
    Accounts rate start stop (filled rate tokens (secs (now - last))) now taken where
  capped := min_le_right _ _
  bounded := h.bounded
  inside hstop := by
    rcases Nat.lt_or_ge last start with hlast | hlast
    · -- the stretch begins after the last look, so the cap is what counts
      rw [h.before hlast, zero_add]
      refine le_trans (min_le_right _ _) ?_
      exact le_mul_of_one_le_right hrate (le_add_of_nonneg_right (secs_nonneg _))
    · have hsplit : now - start = (last - start) + (now - last) := by omega
      have hinside := h.inside (hle.trans hstop)
      have hfill : Bucket.filled rate tokens (secs (now - last)) ≤
          tokens + rate * secs (now - last) := min_le_left _ _
      rw [hsplit, secs_add]
      linarith [mul_add rate (1 + secs (last - start)) (secs (now - last)),
        add_assoc 1 (secs (last - start)) (secs (now - last))]
  before hnow := h.before (lt_of_le_of_lt hle hnow)

theorem take (h : Accounts rate start stop tokens now taken) (hrate : 0 ≤ rate)
    (hcost : 0 ≤ cost) (henough : cost ≤ tokens) (hstart : start ≤ now) (hstop : now ≤ stop) :
    Accounts rate start stop (tokens - cost) now (taken + cost) where
  capped := (sub_le_self _ hcost).trans h.capped
  bounded := by
    have hlonger : rate * (1 + secs (now - start)) ≤ rate * (1 + secs (stop - start)) :=
      mul_le_mul_of_nonneg_left (add_le_add_right (secs_le (by omega)) 1) hrate
    linarith [h.inside hstop]
  inside _ := by linarith [h.inside hstop]
  before hnow := absurd hstart (not_le.mpr hnow)

theorem takeOutside (h : Accounts rate start stop tokens now taken) (hcost : 0 ≤ cost) :
    Accounts rate start stop (tokens - cost) now taken where
  capped := (sub_le_self _ hcost).trans h.capped
  bounded := h.bounded
  inside hstop := by linarith [h.inside hstop]
  before := h.before

end Accounts

end ConquerD.Lib.Bucket
