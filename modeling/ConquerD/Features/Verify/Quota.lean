import ConquerD.Features.Quota

/-!
# Buckets over time

How a bucket is found at a moment is all that later verdicts depend on. Two buckets
that are found alike give the same verdicts and go on being so. A message that meets
no bound leaves every later moment as it was; one that is refused does where the
refill it came with, split in two, rounds as before.
-/

namespace ConquerD.Features

open Lib.Bucket

/-! ## Rounding whole numbers -/

namespace Rounding

/-- Whole numbers of 53 binary digits are not rounded, and nothing is rounded past one. -/
structure KeepsWhole (R : Rounding) : Prop where
  exact : ∀ n : Nat, n < 2 ^ 53 → R.fl n = n
  le : ∀ (n : Nat) (q : Rat), n < 2 ^ 53 → n ≤ q → n ≤ R.fl q

theorem KeepsWhole.nonneg {R : Rounding} (hR : R.KeepsWhole) {q : Rat} (h : 0 ≤ q) :
    0 ≤ R.fl q := by
  have hle := hR.le 0 q (by norm_num) (by rwa [Nat.cast_zero])
  rwa [Nat.cast_zero] at hle

theorem halfEven_intCast (n : Int) : halfEven n = n := by
  rw [halfEven, Int.floor_intCast, sub_self, if_pos (.inl (by norm_num))]

theorem le_halfEven {n : Int} {q : Rat} (h : n ≤ q) : n ≤ halfEven q := by
  have hfloor : n ≤ ⌊q⌋ := Int.le_floor.mpr h
  rw [halfEven]
  split
  · exact hfloor
  · omega

/-- Up to the exponent of the 53rd digit a whole number is one of units. -/
theorem exists_units {k : Int} (hk : k ≤ 52) (n : Nat) :
    ∃ j : Int, (n : Rat) = j * 2 ^ (k - 52) := by
  obtain ⟨m, hm⟩ := Int.eq_ofNat_of_zero_le (sub_nonneg.mpr hk)
  refine ⟨n * 2 ^ m, ?_⟩
  have hexp : k - 52 = -(m : Int) := by omega
  rw [hexp, zpow_neg, zpow_natCast]
  push_cast
  field_simp

theorem keepsWhole_binary64 : binary64.KeepsWhole where
  exact n hn := by
    have hlog : Int.log 2 |(n : Rat)| ≤ 52 := by
      have habs : |(n : Rat)| < (2 : Nat) ^ (53 : Int) := by
        rw [abs_of_nonneg (Nat.cast_nonneg n)]
        exact_mod_cast hn
      rcases Nat.eq_zero_or_pos n with rfl | hpos
      · simp
      · have hlt := (Int.lt_zpow_iff_log_lt (b := 2) (by norm_num) (by positivity)).mp habs
        omega
    obtain ⟨j, hj⟩ := exists_units hlog n
    have hunit : (2 : Rat) ^ (Int.log 2 |(n : Rat)| - 52) ≠ 0 := zpow_ne_zero _ (by norm_num)
    have hquot : (n : Rat) / 2 ^ (Int.log 2 |(n : Rat)| - 52) = j := by
      rw [div_eq_iff hunit]
      exact hj
    change (halfEven ((n : Rat) / 2 ^ (Int.log 2 |(n : Rat)| - 52)) : Rat) * _ = n
    rw [hquot, halfEven_intCast]
    exact hj.symm
  le n q hn hq := by
    have hunit : (0 : Rat) < 2 ^ (Int.log 2 |q| - 52) := zpow_pos (by norm_num) _
    have hround : ∀ j : Int, (j : Rat) * 2 ^ (Int.log 2 |q| - 52) ≤ q →
        (j : Rat) * 2 ^ (Int.log 2 |q| - 52) ≤ binary64.fl q := by
      intro j hj
      have hle : j ≤ halfEven (q / 2 ^ (Int.log 2 |q| - 52)) :=
        le_halfEven ((le_div_iff₀ hunit).mpr hj)
      exact mul_le_mul_of_nonneg_right (by exact_mod_cast hle) hunit.le
    by_cases hlog : Int.log 2 |q| ≤ 52
    · obtain ⟨j, hj⟩ := exists_units hlog n
      rw [hj] at hq ⊢
      exact hround j hq
    · -- the power of two that q reaches is a whole number of units, and above n
      have hpos : 0 < q := by
        by_contra hneg
        have hzero : q = 0 := le_antisymm (not_lt.mp hneg) ((Nat.cast_nonneg n).trans hq)
        rw [hzero] at hlog
        simp at hlog
      have hreach : (2 : Rat) ^ Int.log 2 |q| ≤ q := by
        have hpow := Int.zpow_log_le_self (b := 2) (by norm_num) (abs_pos.mpr hpos.ne')
        rwa [abs_of_pos hpos] at hpow ⊢
      have hsplit : ((2 ^ 52 : Int) : Rat) * 2 ^ (Int.log 2 |q| - 52) = 2 ^ Int.log 2 |q| := by
        rw [zpow_sub₀ (by norm_num)]
        push_cast
        field_simp
      have hbelow : (n : Rat) ≤ 2 ^ Int.log 2 |q| := by
        calc (n : Rat) ≤ (2 : Rat) ^ (53 : Int) := by exact_mod_cast hn.le
          _ ≤ 2 ^ Int.log 2 |q| := zpow_le_zpow_right₀ (by norm_num) (by omega)
      calc (n : Rat) ≤ ((2 ^ 52 : Int) : Rat) * 2 ^ (Int.log 2 |q| - 52) := hsplit ▸ hbelow
        _ ≤ binary64.fl q := hround _ (hsplit ▸ hreach)

end Rounding

/-! ## Buckets -/

namespace QuotaState

variable {s : QuotaState} {params : QuotaParams} {o o' : Option QuotaState} {t t' n : Nat}

section Rounded

variable [Rounding]

@[simp] theorem refill_params : (s.refill t).params = s.params := rfl

@[simp] theorem refill_lastRefill : (s.refill t).lastRefill = t := rfl

@[simp] theorem tryConsume_params (n : Nat) : (s.tryConsume t n).1.params = s.params := by
  unfold tryConsume
  split
  · rfl
  · split
    · rfl
    · rfl

/-- The bucket as a call finds it, made first if nobody used it. -/
def found (params : QuotaParams) (o : Option QuotaState) (t : Nat) : QuotaState :=
  (o.getD (new params t)).refill t

/-- Two buckets are found alike from a moment on. -/
def Alike (params : QuotaParams) (since : Nat) (o o' : Option QuotaState) : Prop :=
  ∀ t, since ≤ t → found params o t = found params o' t

/-- A refill of the bucket goes unnoticed by all later ones. -/
def Unnoticed (params : QuotaParams) (t : Nat) (o : Option QuotaState) : Prop :=
  ∀ u, t ≤ u → (found params o t).refill u = found params o u

theorem Alike.refl : Alike params t o o := fun _ _ => rfl

theorem Alike.later (h : Alike params t o o') (hle : t ≤ t') : Alike params t' o o' :=
  fun u hu => h u (hle.trans hu)

theorem refill_of_unbounded (h : s.params.isUnbounded = true) :
    s.refill t = { s with lastRefill := t } := by
  simp only [QuotaParams.isUnbounded, Bool.and_eq_true, beq_iff_eq] at h
  simp [refill, h.1, h.2]

theorem found_some_of_unbounded (h : (o.getD (new params t)).params.isUnbounded = true) (u : Nat) :
    found params (some (o.getD (new params t))) u = found params o u := by
  cases o with
  | none =>
    have hparams : params.isUnbounded = true := h
    have hstart : ∀ v, (new params v).params.isUnbounded = true := fun _ => hparams
    simp only [found, Option.getD_some, Option.getD_none, refill_of_unbounded (hstart _)]
    rfl
  | some s => rfl

/-- Buckets that are found alike give the same verdict and are found alike after it. -/
theorem Alike.tryConsume (h : Alike params t o o') :
    ((o.getD (new params t)).tryConsume t n).2 = ((o'.getD (new params t)).tryConsume t n).2 ∧
      Alike params t (some ((o.getD (new params t)).tryConsume t n).1)
        (some ((o'.getD (new params t)).tryConsume t n).1) := by
  have hnow : (o.getD (new params t)).refill t = (o'.getD (new params t)).refill t := h t le_rfl
  have hparams : (o.getD (new params t)).params = (o'.getD (new params t)).params :=
    (congrArg QuotaState.params hnow :)
  unfold QuotaState.tryConsume
  rw [hparams, hnow]
  split
  · next hunbounded =>
    refine ⟨rfl, fun u hu => ?_⟩
    rw [found_some_of_unbounded (hparams ▸ hunbounded), found_some_of_unbounded hunbounded]
    exact h u hu
  · split
    · exact ⟨rfl, .refl⟩
    · exact ⟨rfl, .refl⟩

/-- A message that meets no bound, or is refused by a bucket whose refill goes unnoticed,
leaves the bucket as it would be without. -/
theorem alike_of_uncharged (h : (o.getD (new params t)).params.isUnbounded = true ∨
      (((o.getD (new params t)).tryConsume t n).2 = false ∧ Unnoticed params t o)) :
    Alike params t (some ((o.getD (new params t)).tryConsume t n).1) o := by
  intro u hu
  unfold QuotaState.tryConsume at h ⊢
  by_cases hparams : (o.getD (new params t)).params.isUnbounded = true
  · rw [if_pos hparams]
    exact found_some_of_unbounded hparams u
  · obtain ⟨hrefused, hlook⟩ := h.resolve_left hparams
    rw [if_neg hparams] at hrefused ⊢
    split at hrefused
    · cases hrefused
    · next hnot =>
      rw [if_neg hnot]
      exact hlook u hu

end Rounded

/-! ### Whole tokens -/

section Whole

variable [R : Rounding] {bytes datagrams : Nat} {rate : Rat}

/-- A bucket of whole tokens. -/
def whole (params : QuotaParams) (t bytes datagrams : Nat) : QuotaState where
  bytesTokens := bytes
  datagramTokens := datagrams
  lastRefill := t
  params := params

theorem elapsed_nonneg (hR : R.KeepsWhole) : 0 ≤ s.elapsed t :=
  hR.nonneg (add_nonneg (hR.nonneg (Nat.cast_nonneg _))
    (hR.nonneg (div_nonneg (Nat.cast_nonneg _) (by norm_num))))

theorem elapsed_self (hR : R.KeepsWhole) : s.elapsed s.lastRefill = 0 := by
  have hzero : R.fl 0 = 0 := hR.exact 0 (by norm_num)
  simp [elapsed, hzero]

theorem topUp_zero (hR : R.KeepsWhole) (hn : n < 2 ^ 53) (hle : n ≤ rate) :
    topUp rate n 0 = n := by
  have hzero : R.fl 0 = 0 := hR.exact 0 (by norm_num)
  rw [topUp, mul_zero, hzero, add_zero, hR.exact n hn, min_eq_left hle]

theorem topUp_full (hR : R.KeepsWhole) (hn : n < 2 ^ 53) {elapsed : Rat} (h : 0 ≤ elapsed) :
    topUp n n elapsed = n := by
  have hmore : 0 ≤ R.fl (n * elapsed) := hR.nonneg (mul_nonneg (Nat.cast_nonneg n) h)
  have hfull : (n : Rat) ≤ R.fl (n + R.fl (n * elapsed)) :=
    hR.le n _ hn (le_add_of_nonneg_right hmore)
  rw [topUp, min_eq_right hfull]

theorem refill_whole (hR : R.KeepsWhole) (hbytes : bytes < 2 ^ 53) (hdatagrams : datagrams < 2 ^ 53)
    (hbytesRate : bytes ≤ params.bytesPerSec) (hdatagramsRate : datagrams ≤ params.datagramsPerSec) :
    (whole params t bytes datagrams).refill t = whole params t bytes datagrams := by
  have helapsed : (whole params t bytes datagrams).elapsed t = 0 := elapsed_self hR
  unfold refill
  rw [helapsed]
  simp only [whole, topUp_zero hR hbytes hbytesRate, topUp_zero hR hdatagrams hdatagramsRate,
    ite_self]

theorem tryConsume_whole (hR : R.KeepsWhole) (hbytes : bytes < 2 ^ 53)
    (hdatagrams : datagrams < 2 ^ 53) (hbytesRate : bytes ≤ params.bytesPerSec)
    (hdatagramsRate : datagrams ≤ params.datagramsPerSec) (hpos : 0 < params.bytesPerSec)
    (hn : n ≤ bytes) (hsome : 0 < datagrams) :
    (whole params t bytes datagrams).tryConsume t n =
      (whole params t (bytes - n) (datagrams - 1), true) := by
  have hsize : R.fl n = n := hR.exact n (hn.trans_lt hbytes)
  have hone : (1 : Rat) ≤ datagrams := by exact_mod_cast hsome
  have hpos' : 0 < params.datagramsPerSec := by linarith
  have hbounded : params.isUnbounded = false := by
    simp [QuotaParams.isUnbounded, hpos.ne']
  have hallows : (whole params t bytes datagrams).allows n = true := by
    simp only [allows, whole, hsize, Bool.and_eq_true, Bool.or_eq_true]
    exact ⟨.inr (decide_eq_true (by exact_mod_cast hn)), .inr (decide_eq_true hone)⟩
  have hcharge : (whole params t bytes datagrams).charge n =
      whole params t (bytes - n) (datagrams - 1) := by
    have hless : R.fl (bytes - n : Rat) = (bytes - n : Nat) := by
      rw [← Nat.cast_sub hn]
      exact hR.exact _ (by omega)
    have hless' : R.fl (datagrams - 1 : Rat) = (datagrams - 1 : Nat) := by
      rw [← Nat.cast_one, ← Nat.cast_sub hsome]
      exact hR.exact _ (by omega)
    simp only [charge, whole, hsize, hpos, hpos', if_true, hless, hless']
  unfold tryConsume
  rw [refill_whole hR hbytes hdatagrams hbytesRate hdatagramsRate, hallows, hcharge]
  simp [whole, hbounded]

theorem tryConsume_whole_refused (hR : R.KeepsWhole) (hbytes : bytes < 2 ^ 53)
    (hdatagrams : datagrams < 2 ^ 53) (hbytesRate : bytes ≤ params.bytesPerSec)
    (hdatagramsRate : datagrams ≤ params.datagramsPerSec) (hpos : 0 < params.bytesPerSec)
    (hsize : n < 2 ^ 53) (hn : bytes < n ∨ datagrams = 0 ∧ 0 < params.datagramsPerSec) :
    ((whole params t bytes datagrams).tryConsume t n).2 = false := by
  have hbounded : params.isUnbounded = false := by
    simp [QuotaParams.isUnbounded, hpos.ne']
  have hrefused : (whole params t bytes datagrams).allows n = false := by
    rw [allows, Bool.and_eq_false_iff]
    rcases hn with hn | ⟨rfl, hpos'⟩
    · left
      simp [whole, hpos.ne', hR.exact n hsize, hn]
    · right
      simp [whole, hpos'.ne']
  unfold tryConsume
  rw [refill_whole hR hbytes hdatagrams hbytesRate hdatagramsRate, hrefused]
  simp [whole, hbounded]

theorem unnoticed_new (hR : R.KeepsWhole) (hbytes : bytes < 2 ^ 53) (hdatagrams : datagrams < 2 ^ 53)
    (hbytesRate : params.bytesPerSec = bytes) (hdatagramsRate : params.datagramsPerSec = datagrams) :
    Unnoticed params t none := by
  have hfull : ∀ v u, (new params v).refill u = new params u := by
    intro v u
    unfold refill
    simp only [new, hbytesRate, hdatagramsRate, topUp_full hR hbytes (elapsed_nonneg hR),
      topUp_full hR hdatagrams (elapsed_nonneg hR), ite_self]
  intro u _
  simp only [found, Option.getD_none, hfull]

end Whole

/-! ### Exact numbers -/

theorem elapsed_exact (s : QuotaState) (now : Nat) : s.elapsed now = secs (now - s.lastRefill) := by
  have hsplit := Nat.div_add_mod' (now - s.lastRefill) 1000000000
  simp only [elapsed, Rounding.fl_exact, secs]
  rw [eq_div_iff (by norm_num), add_mul, div_mul_cancel₀ _ (by norm_num)]
  exact_mod_cast hsplit

theorem refill_new : (new params t).refill t' = new params t' := by
  have hlater : 0 ≤ (new params t).elapsed t' := by
    rw [elapsed_exact]
    exact secs_nonneg _
  have hbytes : ((new params t).refill t').bytesTokens = params.bytesPerSec := by
    by_cases hrate : params.bytesPerSec > 0
    · exact (if_pos hrate).trans (filled_full params.bytes_nonneg hlater)
    · exact if_neg hrate
  have hdatagrams : ((new params t).refill t').datagramTokens = params.datagramsPerSec := by
    by_cases hrate : params.datagramsPerSec > 0
    · exact (if_pos hrate).trans (filled_full params.datagrams_nonneg hlater)
    · exact if_neg hrate
  unfold refill at hbytes hdatagrams ⊢
  simp only [new, QuotaState.mk.injEq] at hbytes hdatagrams ⊢
  exact ⟨hbytes, hdatagrams, trivial, trivial⟩

/-- The bucket as it stands at a moment; one that nobody used is full. -/
def standing (params : QuotaParams) (o : Option QuotaState) (t : Nat) : QuotaState :=
  (o.map (·.refill t)).getD (new params t)

theorem getD_refill : (o.getD (new params t)).refill t' = standing params o t' := by
  cases o with
  | none => exact refill_new
  | some s => rfl

end QuotaState

/-- Buckets of a feature that are alike for everybody answer alike, and stay so. -/
theorem QuotaRegistry.alike_tryConsume [Rounding] {reg reg' : QuotaRegistry} {featureId : String}
    {params : QuotaParams} {t : Nat} (peerId : String) (n : Nat)
    (h : ∀ p, QuotaState.Alike params t (reg.states featureId p) (reg'.states featureId p)) :
    (reg.tryConsume featureId peerId t n params).2 =
        (reg'.tryConsume featureId peerId t n params).2 ∧
      ∀ p, QuotaState.Alike params t
        ((reg.tryConsume featureId peerId t n params).1.states featureId p)
        ((reg'.tryConsume featureId peerId t n params).1.states featureId p) := by
  obtain ⟨hverdict, halike⟩ := (h peerId).tryConsume (n := n)
  refine ⟨hverdict, fun p => ?_⟩
  simp only [QuotaRegistry.tryConsume, QuotaRegistry.set, true_and]
  split
  · exact halike
  · exact h p

namespace FeatureRegistry

variable [Rounding] {reg : FeatureRegistry} {featureId peerId : String} {now n : Nat}

@[simp] theorem gateInbound_inner :
    (reg.gateInboundThroughFeature featureId peerId now n).1.inner = reg.inner := by
  unfold gateInboundThroughFeature
  split
  · rfl
  · rfl

end FeatureRegistry

end ConquerD.Features
