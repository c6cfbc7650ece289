import ConquerD.Lib.Run
import ConquerD.Supernode.Verify.Measure

/-!
# Supernode: what a quota lets through in a stretch of time

Two calls draw on a bucket, one for a message and one for a datagram of unknown size.
In whatever order they come, a bucket admits a second's worth more than its rate in any
stretch of time. What other peers and features do is of no account.
-/

namespace ConquerD.Features

open Lib.Bucket Lib.Run ConquerD.Supernode

namespace QuotaCall

/-- The call is for the bucket of the feature and the peer. -/
def asks (featureId peerId : String) : QuotaCall → Bool
  | .tryConsume f p _ _ => f = featureId ∧ p = peerId
  | .tryConsumeDatagram f p _ => f = featureId ∧ p = peerId
  | .clearPeer _ => false

/-- What a call takes when it is admitted. -/
def cost (m : Measure) : QuotaCall → Rat
  | .tryConsume _ _ byteCount _ => m.cost byteCount
  | .tryConsumeDatagram .. => m.datagramCost
  | .clearPeer _ => 0

end QuotaCall

/-- A bucket that a call asks. -/
def QuotaState.ask (s : QuotaState) (now : Nat) : QuotaCall → QuotaState × Bool
  | .tryConsume _ _ byteCount _ => s.tryConsume now byteCount
  | .tryConsumeDatagram .. => s.tryConsumeDatagram now
  | .clearPeer _ => (s, true)

namespace QuotaRegistry

/-- The buckets after a call, with its time. -/
def step (reg : QuotaRegistry) (e : Nat × QuotaCall) : QuotaRegistry :=
  (reg.call e.1 e.2).1

variable (m : Measure) (featureId peerId : String)

/-- What a bucket admits along the calls at the times that count. -/
def admitted (counts : Nat → Prop) [DecidablePred counts] :
    QuotaRegistry → List (Nat × QuotaCall) → Rat
  | _, [] => 0
  | reg, e :: es =>
    (if (reg.call e.1 e.2).2 = true ∧ e.2.asks featureId peerId = true ∧ counts e.1 then
        e.2.cost m else 0) + admitted counts (reg.step e) es

/-- What the calls for a bucket are answered. -/
def answers : QuotaRegistry → List (Nat × QuotaCall) → List Bool
  | _, [] => []
  | reg, e :: es =>
    (if e.2.asks featureId peerId then [(reg.call e.1 e.2).2] else []) ++
      answers (reg.step e) es

end QuotaRegistry

/-! ## One bucket -/

namespace QuotaState

variable {s : QuotaState} {m : Measure} {c : QuotaCall} {now : Nat}

theorem ask_params : (s.ask now c).1.params = s.params := by
  cases c with
  | tryConsume f p n params => exact tryConsume_params n
  | tryConsumeDatagram f p params =>
    simp only [ask, tryConsumeDatagram]
    split
    · rfl
    · split
      · rfl
      · rfl
  | clearPeer p => rfl

theorem ask_of_refused (h : (s.ask now c).2 = false) : (s.ask now c).1 = s.refill now := by
  cases c with
  | tryConsume f p n params =>
    simp only [ask, tryConsume] at h ⊢
    split at h
    · cases h
    · next hbounded =>
      rw [if_neg hbounded]
      split at h
      · cases h
      · next hshort => rw [if_neg hshort]
  | tryConsumeDatagram f p params =>
    simp only [ask, tryConsumeDatagram] at h ⊢
    split at h
    · cases h
    · next hbounded =>
      rw [if_neg hbounded]
      split at h
      · cases h
      · next hshort => rw [if_neg hshort]
  | clearPeer p => cases h

theorem tokens_refill_nonneg (hrate : 0 < m.rate s.params) (h : 0 ≤ m.tokens s) :
    0 ≤ m.tokens (s.refill now) := by
  rw [m.tokens_refill hrate]
  exact le_min (add_nonneg h (mul_nonneg hrate.le (secs_nonneg _))) hrate.le

theorem tokens_ask_nonneg (hrate : 0 < m.rate s.params) (h : 0 ≤ m.tokens s) :
    0 ≤ m.tokens (s.ask now c).1 := by
  have hrefilled : 0 ≤ m.tokens (s.refill now) := tokens_refill_nonneg hrate h
  cases c with
  | tryConsume f p n params =>
    simp only [ask, tryConsume]
    split
    · exact h
    · split
      · next hallows =>
        have hcost : m.cost n ≤ m.tokens (s.refill now) := m.cost_le_of_allows hrate hallows
        have hcharge : m.tokens ((s.refill now).charge n) = m.tokens (s.refill now) - m.cost n :=
          m.tokens_charge (s := s.refill now) hrate n
        rw [hcharge]
        exact sub_nonneg.mpr hcost
      · exact hrefilled
  | tryConsumeDatagram f p params =>
    simp only [ask, tryConsumeDatagram]
    split
    · exact h
    · split
      · next henough =>
        cases m with
        | bytes => exact hrefilled
        | datagrams => exact sub_nonneg.mpr henough
      · exact hrefilled
  | clearPeer p => exact h

end QuotaState

theorem boundSound_ask {m : Measure} {p : QuotaParams} {t0 t1 now : Nat} {s : QuotaState}
    {taken : Rat} (h : BucketSound m p t0 t1 now (some s) taken) (hrate : 0 < m.rate p)
    (c : QuotaCall) :
    BucketSound m p t0 t1 now (some (s.ask now c).1)
      (taken + if (s.ask now c).2 = true ∧ t0 ≤ now ∧ now ≤ t1 then c.cost m else 0) := by
  cases c with
  | tryConsume f p' n params => exact h.tryConsume hrate
  | tryConsumeDatagram f p' params => exact h.tryConsumeDatagram hrate
  | clearPeer p' =>
    simp only [QuotaCall.cost, ite_self, add_zero]
    exact h

/-! ## The buckets -/

namespace QuotaRegistry

variable {reg reg' : QuotaRegistry} {featureId peerId : String} {now : Nat} {c : QuotaCall}

/-- A call for a bucket asks it, and makes it first if it is not there. -/
theorem call_of_asks (now : Nat) (h : c.asks featureId peerId = true) :
    ∃ params, ∀ reg : QuotaRegistry,
      let s := (reg.states featureId peerId).getD (.new params now)
      (reg.call now c).2 = (s.ask now c).2 ∧
        (reg.call now c).1.states featureId peerId = some (s.ask now c).1 := by
  cases c with
  | tryConsume f p n params =>
    obtain ⟨rfl, rfl⟩ := of_decide_eq_true h
    exact ⟨params, fun reg => ⟨rfl, if_pos ⟨rfl, rfl⟩⟩⟩
  | tryConsumeDatagram f p params =>
    obtain ⟨rfl, rfl⟩ := of_decide_eq_true h
    exact ⟨params, fun reg => ⟨rfl, if_pos ⟨rfl, rfl⟩⟩⟩
  | clearPeer p => cases h

theorem call_of_not_asks (h : c.asks featureId peerId = false) (hkept : c ≠ .clearPeer peerId) :
    (reg.call now c).1.states featureId peerId = reg.states featureId peerId := by
  cases c with
  | tryConsume f p n params =>
    have hother := of_decide_eq_false h
    exact if_neg fun heq => hother ⟨heq.1.symm, heq.2.symm⟩
  | tryConsumeDatagram f p params =>
    have hother := of_decide_eq_false h
    exact if_neg fun heq => hother ⟨heq.1.symm, heq.2.symm⟩
  | clearPeer p => exact if_neg fun heq => hkept (congrArg QuotaCall.clearPeer heq.symm)

/-- What a bucket admitted in a stretch of time is accounted for, and it has no debts. -/
structure Sound (m : Measure) (featureId peerId : String) (t0 t1 clock : Nat)
    (reg : QuotaRegistry) (taken : Rat) : Prop where
  unused : reg.states featureId peerId = none → taken = 0
  used : ∀ s, reg.states featureId peerId = some s → 0 < m.rate s.params →
    BucketSound m s.params t0 t1 clock (some s) taken ∧ 0 ≤ m.tokens s

variable {m : Measure} {t0 t1 clock : Nat} {taken : Rat}

theorem Sound.later (h : Sound m featureId peerId t0 t1 clock reg taken) (hle : clock ≤ now) :
    Sound m featureId peerId t0 t1 now reg taken where
  unused := h.unused
  used s hs hrate := ⟨(h.used s hs hrate).1.later hle, (h.used s hs hrate).2⟩

theorem Sound.getD (h : Sound m featureId peerId t0 t1 now reg taken) (params : QuotaParams) :
    let s := (reg.states featureId peerId).getD (.new params now)
    0 < m.rate s.params → BucketSound m s.params t0 t1 now (some s) taken ∧ 0 ≤ m.tokens s := by
  cases hs : reg.states featureId peerId with
  | none =>
    intro s hrate
    obtain rfl := h.unused hs
    have hfull : m.tokens s = m.rate s.params := m.tokens_new now
    refine ⟨⟨rfl, le_rfl, ?_⟩, ?_⟩
    · rw [hfull]
      exact .full hrate.le
    · rw [hfull]
      exact hrate.le
  | some s => exact h.used s hs

theorem sound_step (h : Sound m featureId peerId t0 t1 clock reg taken) {e : Nat × QuotaCall}
    (hclock : clock ≤ e.1) (hkept : e.2 ≠ .clearPeer peerId) :
    Sound m featureId peerId t0 t1 e.1 (reg.step e)
      (taken + if (reg.call e.1 e.2).2 = true ∧ e.2.asks featureId peerId = true ∧
        (t0 ≤ e.1 ∧ e.1 ≤ t1) then e.2.cost m else 0) := by
  have hnow := h.later hclock
  cases hasks : e.2.asks featureId peerId with
  | false =>
    have hsame : (reg.step e).states featureId peerId = reg.states featureId peerId :=
      call_of_not_asks hasks hkept
    rw [if_neg (by simp), add_zero]
    constructor
    · rw [hsame]
      exact hnow.unused
    · rw [hsame]
      exact hnow.used
  | true =>
    obtain ⟨params, hcall⟩ := call_of_asks e.1 hasks
    obtain ⟨hanswer, hstate⟩ := hcall reg
    have hstate' : (reg.step e).states featureId peerId = _ := hstate
    constructor
    · intro hnone
      cases hstate'.symm.trans hnone
    · intro s hs hrate
      obtain rfl := Option.some.inj (hstate'.symm.trans hs)
      rw [QuotaState.ask_params] at hrate ⊢
      obtain ⟨hsound, hpaid⟩ := hnow.getD params hrate
      refine ⟨?_, QuotaState.tokens_ask_nonneg hrate hpaid⟩
      rw [hanswer]
      simpa using boundSound_ask hsound hrate e.2

theorem sound_run (h : Sound m featureId peerId t0 t1 clock reg taken)
    {es : List (Nat × QuotaCall)} (hclock : (clock :: es.map (·.1)).Pairwise (· ≤ ·))
    (hkept : ∀ e ∈ es, e.2 ≠ .clearPeer peerId) :
    ∃ later, Sound m featureId peerId t0 t1 later (run step reg es)
      (taken + reg.admitted m featureId peerId (fun now => t0 ≤ now ∧ now ≤ t1) es) := by
  induction es generalizing reg clock taken with
  | nil =>
    refine ⟨clock, ?_⟩
    simpa [admitted] using h
  | cons e es ih =>
    rw [List.map_cons, List.pairwise_cons] at hclock
    have hstep := sound_step h (hclock.1 e.1 List.mem_cons_self) (hkept e List.mem_cons_self)
    obtain ⟨later, hlater⟩ := ih hstep hclock.2 fun e' he' =>
      hkept e' (List.mem_cons_of_mem _ he')
    refine ⟨later, ?_⟩
    rw [run_cons, admitted, ← add_assoc]
    exact hlater

theorem sound_of_unused (h : reg.states featureId peerId = none) :
    Sound m featureId peerId t0 t1 0 reg 0 where
  unused _ := rfl
  used s hs := by cases h.symm.trans hs

theorem admitted_congr {counts counts' : Nat → Prop} [DecidablePred counts]
    [DecidablePred counts'] (h : ∀ now, counts now ↔ counts' now) {es : List (Nat × QuotaCall)} :
    reg.admitted m featureId peerId counts es = reg.admitted m featureId peerId counts' es := by
  induction es generalizing reg with
  | nil => rfl
  | cons e es ih => simp only [admitted, ih, h]

theorem admitted_none {counts : Nat → Prop} [DecidablePred counts] (h : ∀ now, ¬ counts now)
    {es : List (Nat × QuotaCall)} : reg.admitted m featureId peerId counts es = 0 := by
  induction es generalizing reg with
  | nil => rfl
  | cons e es ih => simp only [admitted, ih, h, and_false, if_false, add_zero]

theorem answers_filter (h : reg.states featureId peerId = reg'.states featureId peerId)
    {es : List (Nat × QuotaCall)} (hkept : ∀ e ∈ es, e.2 ≠ .clearPeer peerId) :
    reg.answers featureId peerId es =
      reg'.answers featureId peerId (es.filter fun e => e.2.asks featureId peerId) := by
  induction es generalizing reg reg' with
  | nil => rfl
  | cons e es ih =>
    have hrest : ∀ e' ∈ es, e'.2 ≠ .clearPeer peerId :=
      fun e' he' => hkept e' (List.mem_cons_of_mem _ he')
    cases hasks : e.2.asks featureId peerId with
    | false =>
      rw [List.filter_cons_of_neg (by simp [hasks]), answers, hasks]
      refine ih ?_ hrest
      exact (call_of_not_asks hasks (hkept e List.mem_cons_self)).trans h
    | true =>
      obtain ⟨params, hcall⟩ := call_of_asks e.1 hasks
      obtain ⟨hanswer, hstate⟩ := hcall reg
      obtain ⟨hanswer', hstate'⟩ := hcall reg'
      rw [List.filter_cons_of_pos (p := fun e : Nat × QuotaCall => e.2.asks featureId peerId) hasks,
        answers, answers, hasks, hanswer, hanswer', h]
      refine congrArg _ (ih ?_ hrest)
      have hnext : (reg.step e).states featureId peerId = _ := hstate
      have hnext' : (reg'.step e).states featureId peerId = _ := hstate'
      rw [hnext, hnext', h]

/-- A bucket that is made anew and not cleared admits, in any stretch of time, a second's
worth more than its rate of whatever it counts; its tokens stay between none and a
second's worth; a refused call leaves it as it stands; and it answers as if there were
no others. -/
theorem quota_windows {es : List (Nat × QuotaCall)} (hunused : reg.states featureId peerId = none)
    (hclock : (es.map (·.1)).Pairwise (· ≤ ·)) (hkept : ∀ e ∈ es, e.2 ≠ .clearPeer peerId) :
    (∀ m s start stop, (run step reg es).states featureId peerId = some s →
      0 < Measure.rate m s.params → start ≤ stop →
        reg.admitted m featureId peerId (fun now => start ≤ secs now ∧ secs now ≤ stop) es ≤
          m.rate s.params * (1 + (stop - start))) ∧
    (∀ before m s, before <+: es → (run step reg before).states featureId peerId = some s →
      0 < Measure.rate m s.params → 0 ≤ m.tokens s ∧ m.tokens s ≤ m.rate s.params) ∧
    (∀ reg' now c, QuotaCall.asks featureId peerId c = true →
      (QuotaRegistry.call reg' now c).2 = false → ∃ params,
        (reg'.call now c).1.states featureId peerId =
          some (QuotaState.standing params (reg'.states featureId peerId) now)) ∧
    reg.answers featureId peerId es =
      reg.answers featureId peerId (es.filter fun e => e.2.asks featureId peerId) := by
  have hruns : ∀ before, before <+: es → ∀ (m : Measure) t0 t1, ∃ later,
      Sound m featureId peerId t0 t1 later (run step reg before)
        (0 + reg.admitted m featureId peerId (fun now => t0 ≤ now ∧ now ≤ t1) before) := by
    intro before hbefore m t0 t1
    have hordered : (0 :: before.map (·.1)).Pairwise (· ≤ ·) :=
      List.pairwise_cons.mpr ⟨fun _ _ => Nat.zero_le _,
        hclock.sublist (hbefore.map _).sublist⟩
    exact sound_run (sound_of_unused hunused) hordered fun e he => hkept e (hbefore.subset he)
  refine ⟨fun m s start stop hs hrate hle => ?_, fun before m s hbefore hs hrate => ?_,
    fun reg' now c hasks hrefused => ?_, answers_filter rfl hkept⟩
  · rcases @exists_readings start stop with hnone | ⟨t0, t1, hinside, hlength⟩
    · rw [admitted_none hnone]
      exact mul_nonneg hrate.le (add_nonneg zero_le_one (sub_nonneg.mpr hle))
    · obtain ⟨later, hsound⟩ := hruns es (List.prefix_refl es) m t0 t1
      have hbounded := ((hsound.used s hs hrate).1.bounded hrate)
      rw [zero_add] at hbounded
      rw [admitted_congr hinside]
      refine hbounded.trans (mul_le_mul_of_nonneg_left ?_ hrate.le)
      linarith
  · obtain ⟨later, hsound⟩ := hruns before hbefore m 0 0
    obtain ⟨⟨-, -, haccounts⟩, hpaid⟩ := hsound.used s hs hrate
    exact ⟨hpaid, haccounts.capped⟩
  · obtain ⟨params, hcall⟩ := call_of_asks now hasks
    obtain ⟨hanswer, hstate⟩ := hcall reg'
    refine ⟨params, ?_⟩
    rw [hstate, QuotaState.ask_of_refused (hanswer.symm.trans hrefused), QuotaState.getD_refill]

/-- A peer sends three kilobytes at once at a rate of two. -/
def eagerPeer : List (Nat × QuotaCall) :=
  [(0, .tryConsume "core.chat.v1" "alice" 2048 ⟨2048, 8, by norm_num, by norm_num⟩),
    (0, .tryConsume "core.chat.v1" "alice" 1024 ⟨2048, 8, by norm_num, by norm_num⟩),
    (0, .tryConsume "core.chat.v1" "bob" 1024 ⟨2048, 8, by norm_num, by norm_num⟩)]

/-- The peer is answered as if it were alone. -/
theorem quota_windows_eager :
    new.answers "core.chat.v1" "alice" eagerPeer =
      new.answers "core.chat.v1" "alice" (eagerPeer.take 2) := by
  have hkept : ∀ e ∈ eagerPeer, e.2 ≠ .clearPeer "alice" := by
    intro e he
    simp only [eagerPeer, List.mem_cons, List.not_mem_nil, or_false] at he
    rcases he with rfl | rfl | rfl
    · nofun
    · nofun
    · nofun
  exact (@quota_windows new "core.chat.v1" "alice" eagerPeer rfl (by decide) hkept).2.2.2

end QuotaRegistry

end ConquerD.Features
