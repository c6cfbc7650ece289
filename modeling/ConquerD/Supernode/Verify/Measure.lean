import ConquerD.Features.Verify.Quota

/-!
# Supernode: what a quota measures

A quota counts bytes or datagrams, and both are counted alike. What a bucket let pass
in a stretch of time is accounted for by what is left in it.
-/

namespace ConquerD.Supernode

open ConquerD.Features Lib.Bucket

/-! ## Bytes and datagrams alike -/

/-- What a quota counts. -/
inductive Measure where
  | bytes
  | datagrams

namespace Measure

variable (m : Measure)

def rate (p : QuotaParams) : Rat :=
  match m with
  | .bytes => p.bytesPerSec
  | .datagrams => p.datagramsPerSec

def tokens (s : QuotaState) : Rat :=
  match m with
  | .bytes => s.bytesTokens
  | .datagrams => s.datagramTokens

/-- What a frame of so many bytes costs. -/
def cost (bytes : Nat) : Rat :=
  match m with
  | .bytes => bytes
  | .datagrams => 1

theorem cost_nonneg (bytes : Nat) : 0 ≤ m.cost bytes := by
  cases m
  · exact Nat.cast_nonneg _
  · exact zero_le_one

theorem not_unbounded {p : QuotaParams} (h : 0 < m.rate p) : p.isUnbounded = false := by
  unfold QuotaParams.isUnbounded
  cases m
  · have hne : p.bytesPerSec ≠ 0 := h.ne'
    simp [hne]
  · have hne : p.datagramsPerSec ≠ 0 := h.ne'
    simp [hne]

theorem tokens_new {p : QuotaParams} (now : Nat) : m.tokens (.new p now) = m.rate p := by
  cases m <;> rfl

theorem tokens_refill {s : QuotaState} (h : 0 < m.rate s.params) (now : Nat) :
    m.tokens (s.refill now) =
      filled (m.rate s.params) (m.tokens s) (secs (now - s.lastRefill)) := by
  rw [← QuotaState.elapsed_exact]
  cases m
  · exact if_pos h
  · exact if_pos h

theorem tokens_charge {s : QuotaState} (h : 0 < m.rate s.params) (n : Nat) :
    m.tokens (s.charge n) = m.tokens s - m.cost n := by
  cases m
  · exact if_pos h
  · exact if_pos h

theorem cost_le_of_allows {s : QuotaState} {n : Nat} (h : 0 < m.rate s.params)
    (hallows : s.allows n = true) : m.cost n ≤ m.tokens s := by
  unfold QuotaState.allows at hallows
  obtain ⟨hbytes, hdatagrams⟩ := Bool.and_eq_true_iff.mp hallows
  cases m
  · have hne : s.params.bytesPerSec ≠ 0 := h.ne'
    have hle : (n : Rat) ≤ s.bytesTokens := by simpa [hne] using hbytes
    exact hle
  · have hne : s.params.datagramsPerSec ≠ 0 := h.ne'
    have hle : 1 ≤ s.datagramTokens := by simpa [hne] using hdatagrams
    exact hle

/-- What a datagram of unknown size costs. -/
def datagramCost : Rat :=
  match m with
  | .bytes => 0
  | .datagrams => 1

end Measure

/-! ## One bucket -/

/-- What was taken from a bucket in a stretch of time, for the bucket as it
stands: nothing, while there is none. -/
def BucketSound (m : Measure) (p : QuotaParams) (t0 t1 clock : Nat) (o : Option QuotaState)
    (taken : Rat) : Prop :=
  match o with
  | none => taken = 0
  | some s => s.params = p ∧ s.lastRefill ≤ clock ∧
      Accounts (m.rate p) t0 t1 (m.tokens s) s.lastRefill taken

namespace BucketSound

variable {m : Measure} {p : QuotaParams} {t0 t1 clock now n : Nat} {o : Option QuotaState}
  {taken : Rat}

theorem later (h : BucketSound m p t0 t1 clock o taken) (hle : clock ≤ now) :
    BucketSound m p t0 t1 now o taken := by
  cases o with
  | none => exact h
  | some s => exact ⟨h.1, h.2.1.trans hle, h.2.2⟩

theorem getD (h : BucketSound m p t0 t1 clock o taken) (hrate : 0 < m.rate p) (hle : clock ≤ now) :
    BucketSound m p t0 t1 now (some (o.getD (.new p now))) taken := by
  cases o with
  | none =>
    obtain rfl : taken = 0 := h
    refine ⟨rfl, le_rfl, ?_⟩
    rw [Option.getD_none, m.tokens_new]
    exact .full hrate.le
  | some s => exact h.later hle

theorem bounded (h : BucketSound m p t0 t1 clock o taken) (hrate : 0 < m.rate p) :
    taken ≤ m.rate p * (1 + secs (t1 - t0)) := by
  cases o with
  | none =>
    obtain rfl : taken = 0 := h
    exact mul_nonneg hrate.le (add_nonneg zero_le_one (secs_nonneg _))
  | some s => exact h.2.2.bounded

theorem tryConsume {s : QuotaState} (h : BucketSound m p t0 t1 now (some s) taken)
    (hrate : 0 < m.rate p) :
    BucketSound m p t0 t1 now (some (s.tryConsume now n).1)
      (taken + if (s.tryConsume now n).2 = true ∧ t0 ≤ now ∧ now ≤ t1 then m.cost n else 0) := by
  obtain ⟨rfl, hlast, haccounts⟩ := h
  have hrefilled : Accounts (m.rate s.params) t0 t1 (m.tokens (s.refill now)) now taken := by
    rw [m.tokens_refill hrate]
    exact haccounts.filled hrate.le hlast
  unfold QuotaState.tryConsume
  rw [if_neg (by rw [m.not_unbounded hrate]; exact Bool.false_ne_true)]
  split
  · next hallows =>
    refine ⟨rfl, le_rfl, ?_⟩
    have hcost : m.cost n ≤ m.tokens (s.refill now) := m.cost_le_of_allows hrate hallows
    have hcharge : m.tokens ((s.refill now).charge n) = m.tokens (s.refill now) - m.cost n :=
      m.tokens_charge (s := s.refill now) hrate n
    dsimp only
    rw [hcharge]
    by_cases hin : t0 ≤ now ∧ now ≤ t1
    · rw [if_pos ⟨rfl, hin⟩]
      exact hrefilled.take hrate.le (m.cost_nonneg n) hcost hin.1 hin.2
    · rw [if_neg (fun hall => hin hall.2), add_zero]
      exact hrefilled.takeOutside (m.cost_nonneg n)
  · refine ⟨rfl, le_rfl, ?_⟩
    rw [if_neg (by simp), add_zero]
    exact hrefilled

theorem tryConsumeDatagram {s : QuotaState} (h : BucketSound m p t0 t1 now (some s) taken)
    (hrate : 0 < m.rate p) :
    BucketSound m p t0 t1 now (some (s.tryConsumeDatagram now).1)
      (taken + if (s.tryConsumeDatagram now).2 = true ∧ t0 ≤ now ∧ now ≤ t1 then m.datagramCost
        else 0) := by
  obtain ⟨rfl, hlast, haccounts⟩ := h
  have hrefilled : Accounts (m.rate s.params) t0 t1 (m.tokens (s.refill now)) now taken := by
    rw [m.tokens_refill hrate]
    exact haccounts.filled hrate.le hlast
  unfold QuotaState.tryConsumeDatagram
  cases m with
  | bytes =>
    -- the datagrams may be without bound, the bytes are left alone
    have hfree : ∀ b : Bool, (taken + if b = true ∧ t0 ≤ now ∧ now ≤ t1 then
        Measure.datagramCost .bytes else 0) = taken := by
      intro b
      simp [Measure.datagramCost]
    rw [hfree]
    split
    · exact ⟨rfl, hlast, haccounts⟩
    · dsimp only
      split
      · exact ⟨rfl, le_rfl, hrefilled⟩
      · exact ⟨rfl, le_rfl, hrefilled⟩
  | datagrams =>
    have hbound : ¬ (s.params.datagramsPerSec == 0) = true := by
      have hne : s.params.datagramsPerSec ≠ 0 := ne_of_gt hrate
      simpa using hne
    rw [if_neg hbound]
    dsimp only
    split
    · next henough =>
      refine ⟨rfl, le_rfl, ?_⟩
      by_cases hin : t0 ≤ now ∧ now ≤ t1
      · rw [if_pos ⟨rfl, hin⟩]
        exact hrefilled.take hrate.le zero_le_one henough hin.1 hin.2
      · rw [if_neg (fun hall => hin hall.2), add_zero]
        exact hrefilled.takeOutside zero_le_one
    · refine ⟨rfl, le_rfl, ?_⟩
      rw [if_neg (by simp), add_zero]
      exact hrefilled

end BucketSound

end ConquerD.Supernode
