import ConquerD.Client.Playout
import ConquerD.Lib.Run
import Mathlib.Data.List.Chain
import Mathlib.Logic.Function.Iterate

/-!
# The reorder buffer of content audio

What a tick can do is said once, by `Ticks`; the counters bound each other, and what a
buffer has left to do goes down with every tick. Numbers that stay clear of the end of
their range are played once and in order. Where they wrap, the buffer sorts and compares
them as plain numbers, so that a frame that was played is let in again. A hole longer than
the concealments allowed in a row takes the frames behind it along.
-/

namespace ConquerD.Client.Playout

open Lib.Run Lib.SortedQueue

namespace JitterBuffer

/-! ## What a tick does -/

/-- The counters of a buffer bound each other. -/
structure Sound (b : JitterBuffer) : Prop where
  sorted : b.pending.Pairwise fun f g => f.seq.toNat < g.seq.toNat
  few : b.pending.length ≤ maxBufferedFrames
  streak : b.concealedStreak ≤ maxConcealedFrames
  /-- Without a timeline the cushion is being filled. -/
  fresh : b.nextSeq = none → b.buffering = true ∧ b.concealedStreak = 0
  /-- A refill starts with an underrun. -/
  refill : b.nextSeq ≠ none → b.buffering = true → b.concealedStreak = b.fillTicks + 1
  full : b.buffering = false → b.fillTicks = 0
  underrun : b.buffering = false → b.pending = [] → b.concealedStreak = 0

/-- The tick conceals in front of a frame that is held. -/
def Skips (b : JitterBuffer) : Prop :=
  b.buffering = false ∧ ∃ n first, b.nextSeq = some n ∧ b.pending.head? = some first ∧
    b.releases n first = false

/-- All concealments allowed in a row are spent in front of a frame that is held. -/
def Spent (b : JitterBuffer) : Prop :=
  b.Skips ∧ b.concealedStreak = maxConcealedFrames

instance (b : JitterBuffer) : Decidable b.Skips :=
  decidable_of_iff
    (b.buffering = false ∧ (b.nextSeq.any fun n => b.pending.head?.any fun first =>
      !b.releases n first) = true) <| by
    simp only [Skips, Option.any_eq_true, Bool.not_eq_true']
    constructor
    · rintro ⟨hmode, n, hn, first, hfirst, hreleases⟩
      exact ⟨hmode, n, first, hn, hfirst, hreleases⟩
    · rintro ⟨hmode, n, first, hn, hfirst, hreleases⟩
      exact ⟨hmode, n, hn, first, hfirst, hreleases⟩

instance (b : JitterBuffer) : Decidable b.Spent :=
  inferInstanceAs (Decidable (_ ∧ _))

/-- The buffer after `first` was played and `rest` is left. -/
def afterPlay (first : PendingFrame) (rest : List PendingFrame) : JitterBuffer where
  pending := rest
  nextSeq := some (first.seq + 1)
  nextPtsUs := saturatingAdd first.ptsUs frameDurationUs
  concealedStreak := 0
  buffering := false
  fillTicks := 0

def afterConceal (b : JitterBuffer) : JitterBuffer :=
  { b with
    nextPtsUs := saturatingAdd b.nextPtsUs frameDurationUs
    concealedStreak := b.concealedStreak + 1 }

/-- All a tick of a sound buffer can do. -/
inductive Ticks (b : JitterBuffer) : JitterBuffer → TickAction → Prop
  | plays {first : PendingFrame} {rest : List PendingFrame} (hheld : b.pending = first :: rest) :
    Ticks b (afterPlay first rest) (.play first)
  | skips {n : UInt32} (hskips : b.Skips) (hn : b.nextSeq = some n)
      (hstreak : b.concealedStreak < maxConcealedFrames) :
    Ticks b { b.afterConceal with nextSeq := some (n + 1) } (.conceal b.nextPtsUs)
  | spends (hspent : b.Spent) : Ticks b new .idle
  | underruns (hmode : b.buffering = false) (hn : b.nextSeq ≠ none) (hheld : b.pending = []) :
    Ticks b { b.afterConceal with buffering := true } (.conceal b.nextPtsUs)
  | refills (hmode : b.buffering = true) (hn : b.nextSeq ≠ none)
      (hwait : b.pending = [] ∨ b.fillTicks < jitterDepth)
      (hstreak : b.concealedStreak < maxConcealedFrames) :
    Ticks b { b.afterConceal with fillTicks := b.fillTicks + 1 } (.conceal b.nextPtsUs)
  | ends (hheld : b.pending = []) : Ticks b new .idle
  | fills (hn : b.nextSeq = none) (hwait : b.pending = [] ∨ b.fillTicks < jitterDepth) :
    Ticks b { b with fillTicks := b.fillTicks + 1 } .idle

section Tick

variable {b : JitterBuffer}

theorem sound_new : new.Sound where
  sorted := .nil
  few := Nat.zero_le _
  streak := Nat.zero_le _
  fresh _ := ⟨rfl, rfl⟩
  refill h := absurd rfl h
  full h := by cases h
  underrun h := by cases h

theorem filter_ne_first {first : PendingFrame} {rest : List PendingFrame} (h : b.Sound)
    (hheld : b.pending = first :: rest) :
    b.pending.filter (fun f => f.seq != first.seq) = rest := by
  have hsorted := h.sorted
  rw [hheld, List.pairwise_cons] at hsorted
  rw [hheld, List.filter_cons_of_neg (by simp)]
  refine List.filter_eq_self.mpr fun f hf => bne_iff_ne.mpr fun heq => ?_
  have hlt := hsorted.1 f hf
  rw [heq] at hlt
  exact absurd hlt (Nat.lt_irrefl _)

theorem conceal_spent (b : JitterBuffer) (advanceSeq : Bool)
    (h : b.concealedStreak ≥ maxConcealedFrames) : b.conceal advanceSeq = (new, .idle) := by
  rw [conceal, if_pos h]

theorem conceal_left (b : JitterBuffer) (advanceSeq : Bool)
    (h : b.concealedStreak < maxConcealedFrames) :
    b.conceal advanceSeq =
      ({ b.afterConceal with
          nextSeq := if advanceSeq then b.nextSeq.map (· + 1) else b.nextSeq },
        .conceal b.nextPtsUs) := by
  rw [conceal, if_neg (Nat.not_le_of_lt h), afterConceal]

theorem ticks_tick (h : b.Sound) : Ticks b b.tick.1 b.tick.2 := by
  have hsome : ∀ {n : UInt32}, b.nextSeq = some n → b.nextSeq ≠ none := fun hn => by
    rw [hn]
    nofun
  fun_cases tick b with
  | case1 hmode stalled hwaits filled n hn =>
    have hwait : b.pending = [] ∨ b.fillTicks < jitterDepth := by
      rcases Nat.lt_or_ge b.fillTicks jitterDepth with hlt | hge
      · exact .inr hlt
      · simpa [stalled, hge] using Or.inl hwaits.2
    rcases Nat.lt_or_ge b.concealedStreak maxConcealedFrames with hleft | hspent
    · rw [conceal_left filled false hleft]
      exact .refills hmode (hsome hn) hwait hleft
    · rw [conceal_spent filled false hspent]
      refine .ends (hwait.resolve_right fun hfill => ?_)
      have hstreak := h.refill (hsome hn) hmode
      simp only [maxConcealedFrames, jitterDepth] at hspent hfill
      omega
  | case2 hmode stalled hwaits filled hn =>
    refine .fills hn ?_
    rcases Nat.lt_or_ge b.fillTicks jitterDepth with hlt | hge
    · exact .inr hlt
    · simpa [stalled, hge] using Or.inl hwaits.2
  | case3 hmode stalled hleaves full first hhead =>
    obtain ⟨rest, hheld⟩ := List.head?_eq_some_iff.mp hhead
    simp only [startFrom, full, filter_ne_first h hheld]
    exact .plays hheld
  | case4 hmode stalled hleaves full hhead =>
    have hheld : b.pending = [] := List.head?_eq_none_iff.mp hhead
    refine absurd ⟨?_, ?_⟩ hleaves
    · rw [hheld]
      decide
    · simp only [stalled, hheld, List.isEmpty_nil, Bool.not_true, Bool.and_false]
  | case5 hmode hn => exact absurd (h.fresh hn).1 hmode
  | case6 hmode n hn first hhead hreleases =>
    obtain ⟨rest, hheld⟩ := List.head?_eq_some_iff.mp hhead
    have hrunning : b.buffering = false := Bool.not_eq_true _ ▸ hmode
    simp only [startFrom, filter_ne_first h hheld, hrunning, h.full hrunning]
    exact .plays hheld
  | case7 hmode n hn first hhead hholds =>
    have hskips : b.Skips :=
      ⟨Bool.not_eq_true _ ▸ hmode, n, first, hn, hhead, Bool.not_eq_true _ ▸ hholds⟩
    rcases Nat.lt_or_ge b.concealedStreak maxConcealedFrames with hleft | hspent
    · rw [conceal_left b true hleft, hn]
      exact .skips hskips hn hleft
    · rw [conceal_spent b true hspent]
      exact .spends ⟨hskips, Nat.le_antisymm h.streak hspent⟩
  | case8 hmode n hn hhead =>
    have hheld : b.pending = [] := List.head?_eq_none_iff.mp hhead
    have hrunning : b.buffering = false := Bool.not_eq_true _ ▸ hmode
    have hleft : b.concealedStreak < maxConcealedFrames := by
      rw [h.underrun hrunning hheld]
      decide
    rw [conceal_left { b with buffering := true } false hleft]
    exact .underruns hrunning (hsome hn) hheld

theorem Sound.ticks {b' : JitterBuffer} {a : TickAction} (h : b.Sound) (ht : Ticks b b' a) :
    b'.Sound := by
  cases ht with
  | plays hheld =>
    have hsorted := h.sorted
    have hfew := h.few
    rw [hheld] at hsorted hfew
    exact ⟨hsorted.of_cons, Nat.le_of_succ_le hfew, Nat.zero_le _,
      fun hnone => absurd hnone (Option.some_ne_none _),
      fun _ hbuffers => absurd hbuffers Bool.false_ne_true, fun _ => rfl, fun _ _ => rfl⟩
  | skips hskips hn hleft =>
    obtain ⟨hmode, -, first, -, hhead, -⟩ := hskips
    refine ⟨h.sorted, h.few, hleft, fun hnone => absurd hnone (Option.some_ne_none _),
      fun _ hbuffers => ?_, h.full, fun _ hempty => ?_⟩
    · rw [afterConceal, hmode] at hbuffers
      cases hbuffers
    · rw [show b.pending = [] from hempty] at hhead
      cases hhead
  | spends => exact sound_new
  | underruns hmode hn hheld =>
    have hstreak := h.underrun hmode hheld
    refine ⟨h.sorted, h.few, ?_, fun hnone => absurd hnone hn, fun _ _ => ?_,
      fun hstops => absurd hstops (Bool.false_ne_true ·.symm),
      fun hstops => absurd hstops (Bool.false_ne_true ·.symm)⟩
    · simp only [afterConceal, hstreak]
      decide
    · simp only [afterConceal, hstreak, h.full hmode]
  | refills hmode hn hwait hleft =>
    have hrunning : b.buffering ≠ false := by
      rw [hmode]
      nofun
    refine ⟨h.sorted, h.few, hleft, fun hnone => absurd hnone hn, fun _ _ => ?_,
      fun hstops => absurd hstops hrunning, fun hstops => absurd hstops hrunning⟩
    simp only [afterConceal, h.refill hn hmode]
  | ends => exact sound_new
  | fills hn hwait =>
    have hrunning : b.buffering ≠ false := by
      rw [(h.fresh hn).1]
      nofun
    exact ⟨h.sorted, h.few, h.streak, fun _ => h.fresh hn, fun hsome => absurd hn hsome,
      fun hstops => absurd hstops hrunning, h.underrun⟩

theorem Sound.tick (h : b.Sound) : b.tick.1.Sound :=
  h.ticks (ticks_tick h)

theorem push_refused {frame : PendingFrame} (h : b.refuses frame = true) : b.push frame = b := by
  rw [push, if_pos h]

theorem push_taken {frame : PendingFrame} (h : b.refuses frame = false) :
    b.push frame = { b with pending := keep maxBufferedFrames (b.sortedWith frame) } := by
  rw [push, if_neg (by rw [h]; nofun)]

theorem mem_sortedWith {frame f : PendingFrame} :
    f ∈ b.sortedWith frame ↔ f ∈ b.pending ∨ f = frame := by
  rw [sortedWith, mem_sortByKey, List.mem_append, List.mem_singleton]

theorem sorted_sortedWith (h : b.Sound) {frame : PendingFrame} (hnew : b.refuses frame = false) :
    (b.sortedWith frame).Pairwise fun f g => f.seq.toNat < g.seq.toNat := by
  refine pairwise_lt_sortByKey _ ?_
  rw [refuses, Bool.or_eq_false_iff, List.any_eq_false] at hnew
  rw [List.map_append, List.nodup_append']
  refine ⟨?_, List.nodup_singleton _, ?_⟩
  · rw [List.Nodup, List.pairwise_map]
    exact h.sorted.imp fun hlt => Nat.ne_of_lt hlt
  · intro n hn hframe
    obtain ⟨f, hf, rfl⟩ := List.mem_map.mp hn
    have heq : f.seq.toNat = frame.seq.toNat := List.mem_singleton.mp hframe
    exact hnew.1 f hf (beq_iff_eq.mpr (UInt32.toNat_inj.mp heq))

theorem pending_push_ne_nil {frame : PendingFrame} (h : b.refuses frame = false) :
    (b.push frame).pending ≠ [] := by
  rw [push_taken h]
  intro hempty
  have hlen := congrArg List.length hempty
  simp only [keep, sortedWith, List.length_drop, length_sortByKey, List.length_append,
    List.length_singleton, List.length_nil] at hlen
  exact absurd hlen (by simp only [maxBufferedFrames, jitterDepth]; omega)

theorem isIdle_push (frame : PendingFrame) : (b.push frame).isIdle = false := by
  rw [isIdle, Bool.and_eq_false_iff, List.isEmpty_eq_false_iff]
  cases hrefuses : b.refuses frame with
  | false => exact .inr (pending_push_ne_nil hrefuses)
  | true =>
    rw [push_refused hrefuses]
    cases hn : b.nextSeq with
    | some n => exact .inl rfl
    | none =>
      refine .inr fun hempty => ?_
      rw [refuses, hn, hempty] at hrefuses
      cases hrefuses

theorem Sound.push (h : b.Sound) (frame : PendingFrame) : (b.push frame).Sound := by
  cases hrefuses : b.refuses frame with
  | true =>
    rw [push_refused hrefuses]
    exact h
  | false =>
    have hheld := pending_push_ne_nil hrefuses
    rw [push_taken hrefuses] at hheld ⊢
    exact ⟨(sorted_sortedWith h hrefuses).sublist (keep_sublist _ _), length_keep_le _ _, h.streak,
      h.fresh, h.refill, h.full, fun _ hempty => absurd hempty hheld⟩

end Tick

/-! ## Progress -/

/-- The buffer after some ticks in which nothing is pushed. -/
def afterTicks (k : Nat) (b : JitterBuffer) : JitterBuffer :=
  (fun b => b.tick.1)^[k] b

/-- How many ticks the buffer may wait before it plays what it holds. -/
def patience (b : JitterBuffer) : Nat :=
  if b.buffering then jitterDepth - b.fillTicks else maxConcealedFrames - b.concealedStreak

/-- How many ticks the buffer has work for: no more than two over the concealments allowed
in a row go to each frame held, and to the end of the stream. -/
def work (b : JitterBuffer) : Nat :=
  match b.nextSeq with
  | none =>
    if b.pending.isEmpty then 0
    else (maxConcealedFrames + 2) * (b.pending.length + 1) + (jitterDepth - b.fillTicks)
  | some _ => (maxConcealedFrames + 2) * (b.pending.length + 1) - b.concealedStreak

/-- The most work there is. -/
def mostWork : Nat :=
  (maxConcealedFrames + 2) * (maxBufferedFrames + 1) + jitterDepth

section Progress

variable {b : JitterBuffer}

theorem afterTicks_succ (k : Nat) (b : JitterBuffer) :
    b.tick.1.afterTicks k = b.afterTicks (k + 1) :=
  (Function.iterate_succ_apply _ _ _).symm

theorem Sound.afterTicks (h : b.Sound) (k : Nat) : (b.afterTicks k).Sound := by
  induction k generalizing b with
  | zero => exact h
  | succ k ih =>
    rw [← afterTicks_succ]
    exact ih h.tick

theorem work_eq_zero_iff (h : b.Sound) : b.work = 0 ↔ b.isIdle = true := by
  have hstreak := h.streak
  unfold work isIdle
  cases b.nextSeq with
  | none =>
    cases b.pending with
    | nil => simp
    | cons f rest => simp [maxConcealedFrames]
  | some n =>
    simp only [maxConcealedFrames] at hstreak ⊢
    simp only [Option.isNone_some, Bool.false_and, Bool.false_eq_true, iff_false]
    omega

theorem work_le (h : b.Sound) : b.work ≤ mostWork := by
  have hfew := h.few
  unfold work mostWork
  simp only [maxConcealedFrames, maxBufferedFrames, jitterDepth] at hfew ⊢
  cases b.nextSeq with
  | none =>
    simp only
    split
    · omega
    · omega
  | some n =>
    simp only
    omega

theorem work_tick (h : b.Sound) : b.tick.1.work ≤ b.work - 1 := by
  have hstreak := h.streak
  have hnew : new.work = 0 := rfl
  have hsome : ∀ {n : UInt32}, b.nextSeq = some n →
      b.work = (maxConcealedFrames + 2) * (b.pending.length + 1) - b.concealedStreak :=
    fun hn => by rw [work, hn]
  have htick := ticks_tick h
  generalize b.tick.1 = b' at htick
  generalize b.tick.2 = a at htick
  cases htick with
  | plays hheld =>
    have hplayed : ∀ first rest, (afterPlay first rest).work =
        (maxConcealedFrames + 2) * (rest.length + 1) := fun _ _ => rfl
    rw [hplayed, work, hheld]
    simp only [maxConcealedFrames, List.length_cons, List.isEmpty_cons] at hstreak ⊢
    cases b.nextSeq with
    | none =>
      simp only [Bool.false_eq_true, if_false]
      omega
    | some n =>
      simp only
      omega
  | skips hskips hn hleft =>
    rw [hsome hn, work]
    simp only [afterConceal]
    omega
  | spends => simp only [hnew, Nat.zero_le]
  | underruns hmode hn hheld =>
    obtain ⟨n, hn⟩ := Option.ne_none_iff_exists'.mp hn
    rw [hsome hn, work]
    simp only [afterConceal, hn]
    omega
  | refills hmode hn hwait hleft =>
    obtain ⟨n, hn⟩ := Option.ne_none_iff_exists'.mp hn
    rw [hsome hn, work]
    simp only [afterConceal, hn]
    omega
  | ends => simp only [hnew, Nat.zero_le]
  | fills hn hwait =>
    unfold work
    simp only [hn]
    split
    · exact Nat.zero_le _
    · next hheld =>
      have hfill := hwait.resolve_left fun hempty => hheld (by rw [hempty, List.isEmpty_nil])
      simp only [jitterDepth] at hfill ⊢
      omega

theorem work_afterTicks (h : b.Sound) (k : Nat) : (b.afterTicks k).work ≤ b.work - k := by
  induction k generalizing b with
  | zero => exact Nat.le_refl _
  | succ k ih =>
    rw [← afterTicks_succ]
    have hrest := ih h.tick
    have hone := work_tick h
    omega

/-- A buffer to which nothing is pushed is idle in the end, and stays so. -/
theorem isIdle_afterTicks (h : b.Sound) {k : Nat} (hk : mostWork ≤ k) :
    (b.afterTicks k).isIdle = true := by
  refine (work_eq_zero_iff (h.afterTicks k)).mp ?_
  have hdone := work_afterTicks h k
  have hmost := work_le h
  omega

theorem isIdle_tick (h : b.Sound) (hidle : b.isIdle = true) :
    b.tick.1.isIdle = true ∧ ∀ f, b.tick.2 ≠ .play f := by
  have hwork := (work_eq_zero_iff h).mpr hidle
  have htick := work_tick h
  refine ⟨(work_eq_zero_iff h.tick).mp (by omega), fun f hplays => ?_⟩
  have hheld : b.pending = [] := by
    rw [isIdle, Bool.and_eq_true, List.isEmpty_iff] at hidle
    exact hidle.2
  have hcases := ticks_tick h
  rw [hplays] at hcases
  generalize b.tick.1 = b' at hcases
  cases hcases with
  | plays hsome =>
    rw [hheld] at hsome
    cases hsome

theorem ne_play_of_isIdle (h : b.Sound) (hidle : b.isIdle = true) (k : Nat) (f : PendingFrame) :
    (b.afterTicks k).tick.2 ≠ .play f := by
  induction k generalizing b with
  | zero => exact (isIdle_tick h hidle).2 f
  | succ k ih =>
    rw [← afterTicks_succ]
    exact ih h.tick (isIdle_tick h hidle).1

theorem tick_held (h : b.Sound) (hheld : b.pending ≠ []) :
    (∃ f, b.tick.2 = .play f) ∨ b.Spent ∨
      (b.tick.1.pending ≠ [] ∧ b.tick.1.patience < b.patience) := by
  have htick := ticks_tick h
  generalize b.tick.1 = b' at htick ⊢
  generalize b.tick.2 = a at htick ⊢
  cases htick with
  | plays => exact .inl ⟨_, rfl⟩
  | skips hskips hn hleft =>
    refine .inr (.inr ⟨hheld, ?_⟩)
    simp only [patience, afterConceal, hskips.1]
    simp only [Bool.false_eq_true, if_false]
    omega
  | spends hspent => exact .inr (.inl hspent)
  | underruns hmode hn hempty => exact absurd hempty hheld
  | refills hmode hn hwait hleft =>
    have hfill := hwait.resolve_left hheld
    refine .inr (.inr ⟨hheld, ?_⟩)
    simp only [patience, afterConceal, hmode, if_true]
    omega
  | ends hempty => exact absurd hempty hheld
  | fills hn hwait =>
    have hfill := hwait.resolve_left hheld
    refine .inr (.inr ⟨hheld, ?_⟩)
    simp only [patience, (h.fresh hn).1, if_true]
    omega

theorem patience_le (b : JitterBuffer) : b.patience ≤ maxConcealedFrames := by
  unfold patience
  split
  · exact (Nat.sub_le _ _).trans (by decide)
  · exact Nat.sub_le _ _

theorem plays_or_spends (h : b.Sound) (hheld : b.pending ≠ []) :
    ∃ k ≤ b.patience, (∃ f, (b.afterTicks k).tick.2 = .play f) ∨ (b.afterTicks k).Spent := by
  generalize hp : b.patience = p
  induction p using Nat.strongRecOn generalizing b with
  | ind p ih =>
    rcases tick_held h hheld with hplays | hspent | ⟨hstill, hless⟩
    · exact ⟨0, Nat.zero_le _, .inl hplays⟩
    · exact ⟨0, Nat.zero_le _, .inr hspent⟩
    · obtain ⟨k, hk, hdone⟩ := ih _ (hp ▸ hless) h.tick hstill rfl
      rw [afterTicks_succ] at hdone
      exact ⟨k + 1, by omega, hdone⟩

end Progress

end JitterBuffer

/-! ## Runs -/

namespace TickAction

def isConceal : TickAction → Bool
  | .conceal _ => true
  | _ => false

/-- The timestamp that is reported, of the frame or of the silence in its place. -/
def ptsUs? : TickAction → Option UInt64
  | .play frame => some frame.ptsUs
  | .conceal ptsUs => some ptsUs
  | .idle => none

/-- One action after another: a frame is played with a timestamp of its own, and silence
goes on where the last action ended. -/
def Follows (later : UInt64 → UInt64 → Prop) (a a' : TickAction) : Prop :=
  (∃ f, a' = .play f) ∨ ∃ p p', a.ptsUs? = some p ∧ a'.ptsUs? = some p' ∧ later p p'

end TickAction

/-- The order of sequence numbers that wrap. -/
def SerialLt (a b : UInt32) : Prop :=
  a ≠ b ∧ b - a < 0x80000000

instance (a b : UInt32) : Decidable (SerialLt a b) :=
  inferInstanceAs (Decidable (_ ∧ _))

inductive PlayoutStep where
  | push (frame : PendingFrame)
  | tick

/-- A buffer, with what became of its frames. -/
structure JitterLog where
  buffer : JitterBuffer
  /-- What the ticks did. -/
  actions : List TickAction
  /-- The frames that were pushed before a later one was played. -/
  inTime : List PendingFrame
  /-- The frames that were let go past the ceiling. -/
  shed : List PendingFrame
  /-- The numbers a concealment advanced past. -/
  overtaken : List UInt32

namespace JitterLog

def start : JitterLog where
  buffer := .new
  actions := []
  inTime := []
  shed := []
  overtaken := []

variable (L : JitterLog)

def played : List PendingFrame :=
  L.actions.filterMap fun
    | .play frame => some frame
    | _ => none

def playedSeqs : List UInt32 :=
  L.played.map (·.seq)

def reported : List TickAction :=
  L.actions.filter fun a => a ≠ .idle

/-- The frame is later than what the stream played last. -/
def comesInTime (frame : PendingFrame) : Bool :=
  L.buffer.nextSeq.isNone || L.playedSeqs.getLast?.all fun last => decide (SerialLt last frame.seq)

def step : PlayoutStep → JitterLog
  | .push frame =>
    { L with
      buffer := L.buffer.push frame
      inTime := if L.comesInTime frame then L.inTime ++ [frame] else L.inTime
      shed :=
        if L.buffer.refuses frame then L.shed
        else L.shed ++ Lib.SortedQueue.shed maxBufferedFrames (L.buffer.sortedWith frame) }
  | .tick =>
    { L with
      buffer := L.buffer.tick.1
      actions := L.actions ++ [L.buffer.tick.2]
      overtaken :=
        if L.buffer.tick.2.isConceal ∧ L.buffer.tick.1.nextSeq ≠ L.buffer.nextSeq then
          L.overtaken ++ L.buffer.nextSeq.toList
        else L.overtaken }

end JitterLog

open JitterBuffer TickAction

section Timeline

variable {L : JitterLog}

theorem sound_step (h : L.buffer.Sound) (s : PlayoutStep) : (L.step s).buffer.Sound := by
  cases s with
  | push frame => exact h.push frame
  | tick => exact h.tick

theorem sound_run (steps : List PlayoutStep) :
    (run JitterLog.step .start steps).buffer.Sound :=
  run_inv (fun L : JitterLog => L.buffer.Sound) sound_new fun _ s h => sound_step h s

/-- Silence goes on one frame later, up to the largest timestamp. -/
def OneFrameOn (p p' : UInt64) : Prop :=
  p' = saturatingAdd p frameDurationUs

/-- The timeline of a run: each action follows on the one before, and the next silence
will follow on the last. -/
structure Timeline (L : JitterLog) : Prop where
  chain : L.reported.IsChain (Follows OneFrameOn)
  next : L.buffer.nextSeq ≠ none → ∃ a p, L.reported.getLast? = some a ∧ a.ptsUs? = some p ∧
    OneFrameOn p L.buffer.nextPtsUs

theorem reported_tick (L : JitterLog) : (L.step .tick).reported =
    L.reported ++ if L.buffer.tick.2 = .idle then [] else [L.buffer.tick.2] := by
  simp only [JitterLog.reported, JitterLog.step, List.filter_append, List.filter_singleton]
  split
  · next hidle => simp [hidle]
  · next hidle => simp [hidle]

theorem Timeline.play {actions : List TickAction} (h : actions.IsChain (Follows OneFrameOn))
    (f : PendingFrame) : (actions ++ [TickAction.play f]).IsChain (Follows OneFrameOn) :=
  List.isChain_append.mpr ⟨h, .singleton _, fun a _ a' ha' => by
    cases Option.mem_some_iff.mp ha'
    exact .inl ⟨f, rfl⟩⟩

theorem Timeline.conceal (h : Timeline L) (hn : L.buffer.nextSeq ≠ none) :
    (L.reported ++ [TickAction.conceal L.buffer.nextPtsUs]).IsChain (Follows OneFrameOn) := by
  obtain ⟨last, p, hlast, hp, hnext⟩ := h.next hn
  refine List.isChain_append.mpr ⟨h.chain, .singleton _, fun a ha a' ha' => ?_⟩
  cases Option.mem_some_iff.mp ha'
  rw [hlast] at ha
  cases Option.mem_some_iff.mp ha
  exact .inr ⟨p, _, hp, rfl, hnext⟩

theorem Timeline.step (h : Timeline L) (hsound : L.buffer.Sound) (s : PlayoutStep) :
    Timeline (L.step s) := by
  cases s with
  | push frame =>
    refine ⟨h.chain, ?_⟩
    simp only [JitterLog.step, JitterBuffer.push]
    split
    · exact h.next
    · exact h.next
  | tick =>
    have hreported := reported_tick L
    have htick := ticks_tick hsound
    have hbuffer : (L.step .tick).buffer = L.buffer.tick.1 := rfl
    generalize L.buffer.tick.1 = b' at htick hbuffer
    generalize L.buffer.tick.2 = a at htick hreported
    -- concealed frames keep the timeline as it is, one frame on
    have hconceals : L.buffer.nextSeq ≠ none → a = .conceal L.buffer.nextPtsUs →
        b'.nextPtsUs = saturatingAdd L.buffer.nextPtsUs frameDurationUs →
        Timeline (L.step .tick) := by
      rintro hn rfl hpts
      rw [if_neg (by nofun)] at hreported
      refine ⟨hreported ▸ h.conceal hn, fun _ => ⟨.conceal L.buffer.nextPtsUs, _, ?_, rfl, ?_⟩⟩
      · rw [hreported, List.getLast?_append, List.getLast?_singleton, Option.some_or]
      · rw [hbuffer]
        exact hpts
    have hrests : a = .idle → b'.nextSeq = none → Timeline (L.step .tick) := by
      rintro rfl hnone
      rw [if_pos rfl, List.append_nil] at hreported
      exact ⟨hreported ▸ h.chain, fun hn => absurd (hbuffer ▸ hnone) hn⟩
    cases htick with
    | @plays first rest hheld =>
      rw [if_neg (by nofun)] at hreported
      refine ⟨hreported ▸ Timeline.play h.chain first, fun _ => ⟨.play first, _, ?_, rfl, ?_⟩⟩
      · rw [hreported, List.getLast?_append, List.getLast?_singleton, Option.some_or]
      · rw [hbuffer]
        rfl
    | skips hskips hn hleft => exact hconceals (by rw [hn]; nofun) rfl rfl
    | spends => exact hrests rfl rfl
    | underruns hmode hn hheld => exact hconceals hn rfl rfl
    | refills hmode hn hwait hleft => exact hconceals hn rfl rfl
    | ends => exact hrests rfl rfl
    | fills hn hwait => exact hrests rfl hn

theorem timeline_run (steps : List PlayoutStep) : Timeline (run JitterLog.step .start steps) := by
  have hinv : (run JitterLog.step .start steps).buffer.Sound ∧
      Timeline (run JitterLog.step .start steps) :=
    run_inv (fun L : JitterLog => L.buffer.Sound ∧ Timeline L)
      ⟨sound_new, .nil, fun hn => absurd rfl hn⟩
      fun _ s h => ⟨sound_step h.1 s, h.2.step h.1 s⟩
  exact hinv.2

/-- Whatever is pushed and when: a frame that is held is played within the concealments
allowed in a row, or these are all spent in front of it; the buffer is idle once its work
is done; and every action reported follows on the last. -/
theorem timeline_moves (steps : List PlayoutStep) :
    ((run JitterLog.step .start steps).buffer.pending ≠ [] → ∃ k ≤ maxConcealedFrames,
      (∃ f, ((run JitterLog.step .start steps).buffer.afterTicks k).tick.2 = .play f) ∨
        ((run JitterLog.step .start steps).buffer.afterTicks k).Spent) ∧
    (∀ k ≥ mostWork, ((run JitterLog.step .start steps).buffer.afterTicks k).isIdle = true) ∧
    (run JitterLog.step .start steps).reported.IsChain (Follows OneFrameOn) := by
  have hsound := sound_run steps
  refine ⟨fun hheld => ?_, fun k hk => isIdle_afterTicks hsound hk, (timeline_run steps).chain⟩
  obtain ⟨k, hk, hdone⟩ := plays_or_spends hsound hheld
  exact ⟨k, hk.trans (patience_le _), hdone⟩

def frameOf (seq : UInt32) (ptsUs : UInt64) : PendingFrame :=
  ⟨seq, ptsUs, []⟩

/-- The next frame to come is the thirtieth. -/
def holeSteps : List PlayoutStep :=
  [.push (frameOf 0 0), .tick, .tick, .tick, .tick, .push (frameOf 30 600000)]

/-- Silence after the largest timestamp. -/
def lastPtsSteps : List PlayoutStep :=
  [.push (frameOf 0 0xFFFFFFFFFFFFFFFF), .tick, .tick, .tick, .tick, .tick]

/-- A frame behind a long hole is never played, and the largest timestamp is reported
again. -/
theorem timeline_stalls :
    ((run JitterLog.step .start holeSteps).buffer.pending ≠ [] ∧ ∀ k f,
      ((run JitterLog.step .start holeSteps).buffer.afterTicks k).tick.2 ≠ .play f) ∧
    ¬ (run JitterLog.step .start lastPtsSteps).reported.IsChain
      (Follows fun p p' => p'.toNat = p.toNat + frameDurationUs.toNat) := by
  have hreported : (run JitterLog.step .start lastPtsSteps).reported =
      [.play (frameOf 0 0xFFFFFFFFFFFFFFFF), .conceal 0xFFFFFFFFFFFFFFFF] := by decide +kernel
  refine ⟨⟨by decide +kernel, fun k f hplays => ?_⟩, fun hchain => ?_⟩
  · -- twenty ticks conceal, and the next one starts afresh
    rcases Nat.lt_or_ge k 21 with hlt | hge
    · have hnone : ∀ k < 21,
          ((run JitterLog.step .start holeSteps).buffer.afterTicks k).tick.2.ptsUs?.isSome →
          ((run JitterLog.step .start holeSteps).buffer.afterTicks k).tick.2.isConceal = true := by
        decide +kernel
      have hconceals := hnone k hlt (by rw [hplays]; rfl)
      rw [hplays] at hconceals
      cases hconceals
    · obtain ⟨j, rfl⟩ := Nat.exists_eq_add_of_le' hge
      rw [afterTicks, Function.iterate_add_apply] at hplays
      exact ne_play_of_isIdle (Sound.afterTicks (sound_run holeSteps) 21) (by decide +kernel) j f
        hplays
  · rw [hreported] at hchain
    rcases List.isChain_pair.mp hchain with ⟨f, hplays⟩ | ⟨p, p', hp, hp', hlater⟩
    · cases hplays
    · cases hp
      cases hp'
      exact absurd hlater (by decide)

end Timeline

/-! ## All peers -/

inductive PlayoutOp where
  | accept (peer : String) (frame : PendingFrame)
  | tick
  | forget (peer : String)

def ContentPlayout.step (p : ContentPlayout) : PlayoutOp → ContentPlayout
  | .accept peer frame => p.accept peer frame
  | .tick => p.tick.1
  | .forget peer => p.forget peer

/-- Each buffer is not idle, and that of a run of its own: of its peer's frames and the
ticks since it was made. -/
def ContentPlayout.Runs (p : ContentPlayout) : Prop :=
  ∀ (peer : String) (b : JitterBuffer), p.buffers[peer]? = some b →
    b.isIdle = false ∧ ∃ steps, (run JitterLog.step .start steps).buffer = b

section Peers

variable {p : ContentPlayout}

theorem buffer_run_concat (steps : List PlayoutStep) (s : PlayoutStep) :
    (run JitterLog.step .start (steps ++ [s])).buffer =
      ((run JitterLog.step .start steps).step s).buffer := by
  rw [run_append, run_cons, run_nil]

theorem isIdle_of_nextSeq {b : JitterBuffer} (h : b.nextSeq ≠ none) : b.isIdle = false := by
  rw [isIdle, Bool.and_eq_false_iff]
  exact .inl (Option.isNone_eq_false_iff.mpr (Option.isSome_iff_ne_none.mpr h))

theorem isIdle_of_reports {b b' : JitterBuffer} {a : TickAction} (h : Ticks b b' a) :
    a ≠ .idle → b'.isIdle = false := by
  intro hreports
  cases h with
  | plays => rfl
  | skips => exact isIdle_of_nextSeq (Option.some_ne_none _)
  | underruns hmode hn => exact isIdle_of_nextSeq hn
  | refills hmode hn => exact isIdle_of_nextSeq hn
  | _ => exact absurd rfl hreports

theorem kept_eq_some {b b' : JitterBuffer} (hsound : b.Sound) (h : ContentPlayout.kept b = some b') :
    b' = b.tick.1 ∧ b'.isIdle = false := by
  rw [ContentPlayout.kept] at h
  split at h
  · cases h
  · next hstays =>
    cases h
    refine ⟨rfl, ?_⟩
    by_cases hidle : b.tick.2 = .idle
    · exact Bool.eq_false_iff.mpr fun hdone => hstays ⟨hidle, hdone⟩
    · exact isIdle_of_reports (ticks_tick hsound) hidle

theorem ContentPlayout.Runs.step (h : p.Runs) (op : PlayoutOp) : (p.step op).Runs := by
  intro who b hb
  cases op with
  | accept peer frame =>
    rw [ContentPlayout.step, ContentPlayout.accept, Std.ExtTreeMap.getElem?_insert] at hb
    split at hb
    · cases hb
      refine ⟨isIdle_push frame, ?_⟩
      cases hheld : p.buffers[peer]? with
      | none => exact ⟨[.push frame], rfl⟩
      | some b =>
        obtain ⟨-, steps, rfl⟩ := h peer b hheld
        exact ⟨steps ++ [.push frame], buffer_run_concat steps _⟩
    · exact h who b hb
  | tick =>
    rw [ContentPlayout.step, ContentPlayout.tick, Std.ExtTreeMap.getElem?_filterMap'] at hb
    obtain ⟨b₀, hb₀, hkept⟩ := Option.bind_eq_some_iff.mp hb
    obtain ⟨-, steps, rfl⟩ := h who b₀ hb₀
    obtain ⟨rfl, hstays⟩ := kept_eq_some (sound_run steps) hkept
    exact ⟨hstays, steps ++ [.tick], buffer_run_concat steps _⟩
  | forget peer =>
    rw [ContentPlayout.step, ContentPlayout.forget, Std.ExtTreeMap.getElem?_erase] at hb
    split at hb
    · cases hb
    · exact h who b hb

/-- Each buffer that is kept is that of a run of one buffer, whatever the other peers do. -/
theorem runs_of_ops (ops : List PlayoutOp) :
    (run ContentPlayout.step ⟨∅⟩ ops).Runs :=
  run_inv ContentPlayout.Runs (fun _ _ hb => by cases hb) fun _ op h => h.step op

end Peers

/-! ## Numbers clear of the end of their range -/

/-- What is expected of a run. -/
structure Orderly (L : JitterLog) : Prop where
  once : L.playedSeqs.Nodup
  ordered : L.playedSeqs.IsChain SerialLt
  apart : (L.buffer.pending.map (·.seq)).Nodup
  few : L.buffer.pending.length ≤ maxBufferedFrames
  /-- No more ticks in a row conceal than may. -/
  concealed : ∀ l, l <:+: L.actions → (∀ a ∈ l, a.isConceal = true) →
    l.length ≤ maxConcealedFrames
  conserved : ∀ f ∈ L.inTime, f.seq ∈ L.buffer.pending.map (·.seq) ∨ f.seq ∈ L.playedSeqs ∨
    f.seq ∈ L.shed.map (·.seq) ∨ f.seq ∈ L.overtaken

/-- What is pushed is less than the gap from the number expected, around the wrap. -/
def JitterLog.InGap (L : JitterLog) : PlayoutStep → Prop
  | .push frame => ∀ n ∈ L.buffer.nextSeq, frame.seq - n < resyncGap ∨ n - frame.seq < resyncGap
  | .tick => True

/-- What is pushed is less than the gap from the number expected, and does not wrap.
Without a timeline it is above all that was played, and less than half the range from what
is held and what was played last. No tick finds all concealments spent in front of a frame
that is held. -/
def JitterLog.Clear (L : JitterLog) : PlayoutStep → Prop
  | .push frame => frame.seq.toNat + 1 < 2 ^ 32 ∧
    match L.buffer.nextSeq with
    | some n => n.toNat < frame.seq.toNat + resyncGap.toNat ∧
        frame.seq.toNat < n.toNat + resyncGap.toNat
    | none => (∀ s ∈ L.playedSeqs, s.toNat < frame.seq.toNat) ∧
        ∀ s ∈ L.buffer.pending.map (·.seq) ++ L.playedSeqs.getLast?.toList,
          s.toNat < frame.seq.toNat + 2 ^ 31 ∧ frame.seq.toNat < s.toNat + 2 ^ 31
  | .tick => ¬ L.buffer.Spent

instance (L : JitterLog) (s : PlayoutStep) : Decidable (L.InGap s) :=
  match s with
  | .push _ => Option.decidableForallMem L.buffer.nextSeq
  | .tick => .isTrue trivial

instance (L : JitterLog) (s : PlayoutStep) : Decidable (L.Clear s) :=
  match s with
  | .push _ =>
    @instDecidableAnd _ _ _ <|
      match L.buffer.nextSeq with
      | some _ => inferInstanceAs (Decidable (_ ∧ _))
      | none => @instDecidableAnd _ _ (List.decidableBAll _ _) (List.decidableBAll _ _)
  | .tick => inferInstanceAs (Decidable (¬ _))

/-! ### Concealments in a row -/

structure Trail (L : JitterLog) : Prop where
  last : ∀ l, l <:+ L.actions → (∀ a ∈ l, a.isConceal = true) →
    l.length ≤ L.buffer.concealedStreak
  all : ∀ l, l <:+: L.actions → (∀ a ∈ l, a.isConceal = true) → l.length ≤ maxConcealedFrames

theorem streak_of_ticks {b b' : JitterBuffer} {a : TickAction} (h : Ticks b b' a) :
    a.isConceal = true → b'.concealedStreak = b.concealedStreak + 1 := by
  cases h with
  | skips => exact fun _ => rfl
  | underruns => exact fun _ => rfl
  | refills => exact fun _ => rfl
  | _ => exact nofun

theorem Trail.step {L : JitterLog} (h : Trail L) (hsound : L.buffer.Sound) (s : PlayoutStep) :
    Trail (L.step s) := by
  cases s with
  | push frame =>
    refine ⟨fun l hl hconceal => ?_, h.all⟩
    have hstreak : (L.buffer.push frame).concealedStreak = L.buffer.concealedStreak := by
      unfold JitterBuffer.push
      split
      · rfl
      · rfl
    exact (h.last l hl hconceal).trans_eq hstreak.symm
  | tick =>
    have hlast : ∀ l, l <:+ L.actions ++ [L.buffer.tick.2] → (∀ a ∈ l, a.isConceal = true) →
        l.length ≤ L.buffer.tick.1.concealedStreak := by
      intro l hl hconceal
      rcases List.suffix_concat_iff.mp hl with rfl | ⟨l', rfl, hl'⟩
      · exact Nat.zero_le _
      · rw [streak_of_ticks (ticks_tick hsound)
          (hconceal _ (List.mem_append_right _ (List.mem_singleton_self _))),
          List.length_append, List.length_singleton]
        exact Nat.succ_le_succ (h.last l' hl' fun a ha => hconceal a (List.mem_append_left _ ha))
    refine ⟨hlast, fun l hl hconceal => ?_⟩
    rcases List.infix_concat_iff.mp hl with hend | hold
    · exact (hlast l hend hconceal).trans hsound.tick.streak
    · exact h.all l hold hconceal

/-! ### Numbers held and played -/

structure Numbers (held : List PendingFrame) (next : Option UInt32) (streak : Nat)
    (played : List UInt32) : Prop where
  roomy : ∀ f ∈ held, f.seq.toNat + 1 < 2 ^ 32
  ahead : ∀ n, next = some n → ∀ f ∈ held, n.toNat ≤ f.seq.toNat
  rising : played.Pairwise fun s t => s.toNat < t.toNat
  above : ∀ s ∈ played, ∀ f ∈ held, s.toNat < f.seq.toNat
  /-- A timeline is ahead of what was played last by what was concealed since. -/
  last : ∀ n, next = some n → ∃ s, played.getLast? = some s ∧ s.toNat < n.toNat ∧
    n.toNat ≤ s.toNat + 1 + streak
  near : ∀ s, played.getLast? = some s → ∀ f ∈ held, f.seq.toNat < s.toNat + 2 ^ 31
  close : next = none → ∀ f ∈ held, ∀ g ∈ held, f.seq.toNat < g.seq.toNat + 2 ^ 31
  ordered : played.IsChain SerialLt

namespace Numbers

variable {held : List PendingFrame} {next : Option UInt32} {streak : Nat} {played : List UInt32}

theorem nothing (hrising : played.Pairwise fun s t => s.toNat < t.toNat)
    (hordered : played.IsChain SerialLt) : Numbers [] none streak played :=
  ⟨nofun, nofun, hrising, nofun, nofun, nofun, nofun, hordered⟩

theorem silent (h : Numbers held next streak played) {streak' : Nat} (hle : streak ≤ streak') :
    Numbers held next streak' played := by
  refine ⟨h.roomy, h.ahead, h.rising, h.above, fun n hn => ?_, h.near, h.close, h.ordered⟩
  obtain ⟨s, hs, hlt, hbound⟩ := h.last n hn
  exact ⟨s, hs, hlt, by omega⟩

theorem toNat_succ {n : UInt32} (h : n.toNat + 1 < 2 ^ 32) : (n + 1).toNat = n.toNat + 1 := by
  rw [UInt32.toNat_add, UInt32.toNat_one, Nat.mod_eq_of_lt h]

theorem serialLt_of_toNat {s t : UInt32} (hlt : s.toNat < t.toNat)
    (hnear : t.toNat < s.toNat + 2 ^ 31) : SerialLt s t := by
  refine ⟨fun heq => absurd (heq ▸ hlt) (Nat.lt_irrefl _), ?_⟩
  rw [UInt32.lt_iff_toNat_lt, UInt32.toNat_sub_of_le _ _ (UInt32.le_iff_toNat_le.mpr hlt.le)]
  have hhalf : (0x80000000 : UInt32).toNat = 2 ^ 31 := rfl
  omega

theorem plays {first : PendingFrame} {rest : List PendingFrame}
    (h : Numbers (first :: rest) next streak played)
    (hsorted : (first :: rest).Pairwise fun f g => f.seq.toNat < g.seq.toNat) :
    Numbers rest (some (first.seq + 1)) 0 (played ++ [first.seq]) := by
  have hafter := (List.pairwise_cons.mp hsorted).1
  have hsucc := toNat_succ (h.roomy first List.mem_cons_self)
  have hfirst : ∀ s ∈ played, s.toNat < first.seq.toNat :=
    fun s hs => h.above s hs first List.mem_cons_self
  refine ⟨fun f hf => h.roomy f (List.mem_cons_of_mem _ hf), ?_, ?_, ?_, ?_, ?_, nofun, ?_⟩
  · rintro n ⟨⟩ f hf
    rw [hsucc]
    exact hafter f hf
  · refine List.pairwise_append.mpr ⟨h.rising, List.pairwise_singleton _ _, fun s hs t ht => ?_⟩
    rw [List.mem_singleton.mp ht]
    exact hfirst s hs
  · intro s hs f hf
    rcases List.mem_append.mp hs with hold | hnew
    · exact h.above s hold f (List.mem_cons_of_mem _ hf)
    · rw [List.mem_singleton.mp hnew]
      exact hafter f hf
  · rintro n ⟨⟩
    refine ⟨first.seq, by rw [List.getLast?_append, List.getLast?_singleton, Option.some_or], ?_⟩
    rw [hsucc]
    omega
  · intro s hs f hf
    rw [List.getLast?_append, List.getLast?_singleton, Option.some_or] at hs
    cases Option.mem_some_iff.mp hs
    cases hnext : next with
    | none => exact h.close hnext f (List.mem_cons_of_mem _ hf) first List.mem_cons_self
    | some n =>
      obtain ⟨last, hlast, -, -⟩ := h.last n hnext
      have hbefore := hfirst last (List.mem_of_getLast? hlast)
      have hnear := h.near last hlast f (List.mem_cons_of_mem _ hf)
      omega
  · refine List.isChain_append.mpr ⟨h.ordered, .singleton _, fun s hs t ht => ?_⟩
    cases Option.mem_some_iff.mp ht
    exact serialLt_of_toNat (hfirst s (List.mem_of_getLast? hs))
      (h.near s hs first List.mem_cons_self)

theorem skips {n : UInt32} (h : Numbers held (some n) streak played)
    (hsorted : held.Pairwise fun f g => f.seq.toNat < g.seq.toNat) {first : PendingFrame}
    (hhead : held.head? = some first) (hne : first.seq ≠ n) :
    Numbers held (some (n + 1)) (streak + 1) played := by
  obtain ⟨rest, rfl⟩ := List.head?_eq_some_iff.mp hhead
  have hlt : n.toNat < first.seq.toNat := by
    refine Nat.lt_of_le_of_ne (h.ahead n rfl first List.mem_cons_self) fun heq => ?_
    exact hne (UInt32.toNat_inj.mp heq.symm)
  have hsucc : (n + 1).toNat = n.toNat + 1 :=
    toNat_succ (by have hroom := h.roomy first List.mem_cons_self; omega)
  refine ⟨h.roomy, ?_, h.rising, h.above, ?_, h.near, nofun, h.ordered⟩
  · rintro n' ⟨⟩ f hf
    rw [hsucc]
    rcases List.mem_cons.mp hf with rfl | hf
    · exact hlt
    · exact hlt.trans ((List.pairwise_cons.mp hsorted).1 f hf)
  · rintro n' ⟨⟩
    obtain ⟨s, hs, hbefore, hbound⟩ := h.last n rfl
    exact ⟨s, hs, by omega, by omega⟩

theorem pushes (h : Numbers held next streak played) (hstreak : streak ≤ maxConcealedFrames)
    {frame : PendingFrame} {held' : List PendingFrame}
    (hsub : ∀ f ∈ held', f ∈ held ∨ f = frame) (hroom : frame.seq.toNat + 1 < 2 ^ 32)
    (hsome : ∀ n, next = some n → n.toNat ≤ frame.seq.toNat ∧
      frame.seq.toNat < n.toNat + resyncGap.toNat)
    (hnone : next = none → (∀ s ∈ played, s.toNat < frame.seq.toNat) ∧
      ∀ s ∈ held.map (·.seq) ++ played.getLast?.toList,
        s.toNat < frame.seq.toNat + 2 ^ 31 ∧ frame.seq.toNat < s.toNat + 2 ^ 31) :
    Numbers held' next streak played := by
  have hgap : resyncGap.toNat = 50 := rfl
  -- nothing that was played is past what was played last
  have hlast : ∀ n, next = some n → ∀ s ∈ played, s.toNat < n.toNat := by
    intro n hn s hs
    obtain ⟨last, hlast, hlt, -⟩ := h.last n hn
    obtain ⟨before, rfl⟩ := List.getLast?_eq_some_iff.mp hlast
    rcases List.mem_append.mp hs with hold | hnew
    · have hrising := (List.pairwise_append.mp h.rising).2.2 s hold last (List.mem_singleton_self _)
      exact hrising.trans hlt
    · rwa [List.mem_singleton.mp hnew]
  refine ⟨fun f hf => ?_, fun n hn f hf => ?_, h.rising, fun s hs f hf => ?_, h.last,
    fun s hs f hf => ?_, fun hfresh f hf g hg => ?_, h.ordered⟩
  · rcases hsub f hf with hold | rfl
    · exact h.roomy f hold
    · exact hroom
  · rcases hsub f hf with hold | rfl
    · exact h.ahead n hn f hold
    · exact (hsome n hn).1
  · rcases hsub f hf with hold | rfl
    · exact h.above s hs f hold
    · cases hnext : next with
      | none => exact (hnone hnext).1 s hs
      | some n => exact (hlast n hnext s hs).trans_le (hsome n hnext).1
  · rcases hsub f hf with hold | rfl
    · exact h.near s hs f hold
    · cases hnext : next with
      | none =>
        refine ((hnone hnext).2 s (List.mem_append_right _ ?_)).2
        rw [hs]
        exact List.mem_singleton_self _
      | some n =>
        obtain ⟨last, hlast, -, hbound⟩ := h.last n hnext
        rw [hs] at hlast
        cases hlast
        have hfar := (hsome n hnext).2
        simp only [maxConcealedFrames] at hstreak
        omega
  · have hpair : ∀ g ∈ held, g.seq.toNat < frame.seq.toNat + 2 ^ 31 ∧
        frame.seq.toNat < g.seq.toNat + 2 ^ 31 :=
      fun g hg => (hnone hfresh).2 g.seq (List.mem_append_left _ (List.mem_map_of_mem hg))
    rcases hsub f hf with hold | rfl
    · rcases hsub g hg with hold' | rfl
      · exact h.close hfresh f hold g hold'
      · exact (hpair f hold).1
    · rcases hsub g hg with hold' | rfl
      · exact (hpair g hold').2
      · omega

end Numbers

/-- The numbers of a run, and what became of the frames that came in time. -/
structure Numbered (L : JitterLog) : Prop where
  numbers : Numbers L.buffer.pending L.buffer.nextSeq L.buffer.concealedStreak L.playedSeqs
  /-- What lies between the frame played last and the one expected was concealed. -/
  passed : ∀ n, L.buffer.nextSeq = some n → ∀ last, L.playedSeqs.getLast? = some last →
    ∀ s : UInt32, last.toNat < s.toNat → s.toNat < n.toNat → s ∈ L.overtaken
  conserved : ∀ f ∈ L.inTime, f.seq ∈ L.buffer.pending.map (·.seq) ∨ f.seq ∈ L.playedSeqs ∨
    f.seq ∈ L.shed.map (·.seq) ∨ f.seq ∈ L.overtaken

section Numbered

variable {L : JitterLog}

theorem playedSeqs_tick (L : JitterLog) : (L.step .tick).playedSeqs =
    L.playedSeqs ++ match L.buffer.tick.2 with
      | .play frame => [frame.seq]
      | _ => [] := by
  simp only [JitterLog.playedSeqs, JitterLog.played, JitterLog.step, List.filterMap_append,
    List.map_append, List.append_cancel_left_eq]
  cases L.buffer.tick.2 with
  | play frame => rfl
  | conceal ptsUs => rfl
  | idle => rfl

theorem le_of_not_refused {b : JitterBuffer} {frame : PendingFrame} (h : b.refuses frame = false)
    {n : UInt32} (hn : b.nextSeq = some n) (hnear : n.toNat < frame.seq.toNat + resyncGap.toNat) :
    n.toNat ≤ frame.seq.toNat := by
  rw [refuses, Bool.or_eq_false_iff, hn, Option.any_some, Bool.and_eq_false_iff,
    decide_eq_false_iff_not, decide_eq_false_iff_not] at h
  rcases h.2 with hbehind | hfar
  · rw [UInt32.lt_iff_toNat_lt] at hbehind
    exact Nat.le_of_not_lt hbehind
  · rw [UInt32.lt_iff_toNat_lt] at hfar
    by_contra hlt
    rw [UInt32.toNat_sub_of_le _ _ (UInt32.le_iff_toNat_le.mpr (Nat.le_of_not_le hlt))] at hfar
    omega

theorem toNat_lt_of_serialLt {last s : UInt32} (h : SerialLt last s)
    (hnear : last.toNat < s.toNat + 2 ^ 31) : last.toNat < s.toNat := by
  rcases Nat.lt_trichotomy last.toNat s.toNat with hlt | heq | hgt
  · exact hlt
  · exact absurd (UInt32.toNat_inj.mp heq) h.1
  · have hdist := UInt32.lt_iff_toNat_lt.mp h.2
    rw [UInt32.toNat_sub] at hdist
    have hlast := last.toNat_lt
    have hs := s.toNat_lt
    have hhalf : (0x80000000 : UInt32).toNat = 2 ^ 31 := rfl
    omega

theorem Numbered.refused (h : Numbered L) {frame : PendingFrame}
    (hrefuses : L.buffer.refuses frame = true) (htime : L.comesInTime frame = true) :
    frame.seq ∈ L.buffer.pending.map (·.seq) ∨ frame.seq ∈ L.overtaken := by
  rw [refuses, Bool.or_eq_true, List.any_eq_true] at hrefuses
  rcases hrefuses with ⟨f, hf, hseq⟩ | hpassed
  · rw [← beq_iff_eq.mp hseq]
    exact .inl (List.mem_map_of_mem hf)
  · simp only [Option.any_eq_true, Bool.and_eq_true, decide_eq_true_eq] at hpassed
    obtain ⟨n, hn, hbehind, hgap⟩ := hpassed
    obtain ⟨last, hlast, hlt, hbound⟩ := h.numbers.last n hn
    rw [JitterLog.comesInTime, hn, hlast, Option.isNone_some, Bool.false_or, Option.all_some,
      decide_eq_true_eq] at htime
    rw [UInt32.lt_iff_toNat_lt] at hbehind hgap
    rw [UInt32.toNat_sub_of_le _ _ (UInt32.le_iff_toNat_le.mpr hbehind.le)] at hgap
    have hfifty : resyncGap.toNat = 50 := rfl
    have hafter := toNat_lt_of_serialLt htime (by omega)
    exact .inr (h.passed n hn last hlast _ hafter hbehind)

theorem Numbered.push (h : Numbered L) (hsound : L.buffer.Sound) {frame : PendingFrame}
    (hclear : L.Clear (.push frame)) : Numbered (L.step (.push frame)) := by
  obtain ⟨hroom, hnear⟩ := hclear
  cases hrefuses : L.buffer.refuses frame with
  | true =>
    simp only [JitterLog.step, push_refused hrefuses, hrefuses, if_true]
    refine ⟨h.numbers, h.passed, fun f hf => ?_⟩
    split at hf
    · next htime =>
      rcases List.mem_append.mp hf with hold | hnew
      · exact h.conserved f hold
      · rw [List.mem_singleton.mp hnew]
        rcases h.refused hrefuses htime with hheld | hover
        · exact .inl hheld
        · exact .inr (.inr (.inr hover))
    · exact h.conserved f hf
  | false =>
    simp only [JitterLog.step, push_taken hrefuses, hrefuses, Bool.false_eq_true, if_false]
    refine ⟨h.numbers.pushes hsound.streak (fun f hf => mem_sortedWith.mp ((keep_sublist _ _).mem hf))
      hroom
      (fun n hn => ?_) (fun hn => ?_), h.passed, fun f hf => ?_⟩
    · rw [hn] at hnear
      exact ⟨le_of_not_refused hrefuses hn hnear.1, hnear.2⟩
    · rw [hn] at hnear
      exact hnear
    · have hstays : ∀ g, g ∈ L.buffer.pending ∨ g = frame →
          g.seq ∈ (keep maxBufferedFrames (L.buffer.sortedWith frame)).map (·.seq) ∨
            g.seq ∈ (L.shed ++ shed maxBufferedFrames (L.buffer.sortedWith frame)).map (·.seq) := by
        intro g hg
        rcases mem_keep_or_shed (mem_sortedWith.mpr hg) with hkept | hshed
        · exact .inl (List.mem_map_of_mem hkept)
        · exact .inr (List.mem_map_of_mem (List.mem_append_right _ hshed))
      have hfrom : f ∈ L.inTime ∨ f = frame := by
        split at hf
        · exact (List.mem_append.mp hf).imp id List.mem_singleton.mp
        · exact .inl hf
      rcases hfrom with hold | rfl
      · rcases h.conserved f hold with hheld | hplayed | hshed | hover
        · obtain ⟨g, hg, hseq⟩ := List.mem_map.mp hheld
          rw [← hseq]
          exact (hstays g (.inl hg)).imp id fun hshed => .inr (.inl hshed)
        · exact .inr (.inl hplayed)
        · rw [List.map_append]
          exact .inr (.inr (.inl (List.mem_append_left _ hshed)))
        · exact .inr (.inr (.inr hover))
      · exact (hstays f (.inr rfl)).imp id fun hshed => .inr (.inl hshed)

theorem Numbered.rests (h : Numbered L) {b : JitterBuffer} {lost : List UInt32}
    (hheld : b.pending = L.buffer.pending) (hsub : ∀ s ∈ L.overtaken, s ∈ lost)
    (hnumbers : Numbers b.pending b.nextSeq b.concealedStreak L.playedSeqs)
    (hpassed : ∀ n, b.nextSeq = some n → ∀ last, L.playedSeqs.getLast? = some last →
      ∀ s : UInt32, last.toNat < s.toNat → s.toNat < n.toNat → s ∈ lost) {a : TickAction}
    (ha : ∀ frame, a ≠ .play frame) :
    Numbered { L with buffer := b, actions := L.actions ++ [a], overtaken := lost } := by
  have hplayed : ({ L with buffer := b, actions := L.actions ++ [a], overtaken := lost } :
      JitterLog).playedSeqs = L.playedSeqs := by
    simp only [JitterLog.playedSeqs, JitterLog.played, List.filterMap_append]
    cases a with
    | play frame => exact absurd rfl (ha frame)
    | conceal ptsUs => simp
    | idle => simp
  refine ⟨?_, ?_, fun f hf => ?_⟩
  · rw [hplayed]
    exact hnumbers
  · rw [hplayed]
    exact hpassed
  · rw [hplayed, hheld]
    exact (h.conserved f hf).imp id (Or.imp id (Or.imp id (hsub f.seq)))

theorem Numbered.tick (h : Numbered L) (hsound : L.buffer.Sound) (hclear : L.Clear .tick) :
    Numbered (L.step .tick) := by
  have htick := ticks_tick hsound
  have hplayed := playedSeqs_tick L
  rw [JitterLog.step] at hplayed ⊢
  have hnotSpent : ¬ L.buffer.Spent := hclear
  generalize L.buffer.tick.1 = b' at htick hplayed ⊢
  generalize L.buffer.tick.2 = a at htick hplayed ⊢
  cases htick with
  | @plays first rest hheld =>
    have hnumbers := h.numbers
    have hsorted := hsound.sorted
    rw [hheld] at hnumbers hsorted
    have hsucc := Numbers.toNat_succ (hnumbers.roomy first List.mem_cons_self)
    refine ⟨?_, ?_, fun f hf => ?_⟩
    · rw [hplayed]
      exact hnumbers.plays hsorted
    · rw [hplayed]
      rintro n hn last hlast s hlt hle
      cases hn
      rw [List.getLast?_append, List.getLast?_singleton, Option.some_or] at hlast
      cases hlast
      omega
    · rw [hplayed]
      rcases h.conserved f hf with hin | hdone | hrest
      · rw [hheld, List.map_cons] at hin
        rcases List.mem_cons.mp hin with heq | hin
        · rw [heq]
          exact .inr (.inl (List.mem_append_right _ (List.mem_singleton_self _)))
        · exact .inl hin
      · exact .inr (.inl (List.mem_append_left _ hdone))
      · exact .inr (.inr hrest)
  | @skips n hskips hn hleft =>
    obtain ⟨-, n', first, hn', hhead, hholds⟩ := hskips
    have hne : first.seq ≠ n := by
      rintro rfl
      cases hn.symm.trans hn'
      simp [releases] at hholds
    have hnumbers := h.numbers
    rw [hn] at hnumbers
    have hnext := hnumbers.skips hsound.sorted hhead hne
    have hsucc : (n + 1).toNat = n.toNat + 1 := by
      have hfirst := List.mem_of_head? hhead
      have hroom := hnumbers.roomy first hfirst
      have hahead := hnumbers.ahead n rfl first hfirst
      exact Numbers.toNat_succ (by omega)
    have hmoved : some (n + 1) ≠ L.buffer.nextSeq := by
      rw [hn]
      intro heq
      rw [Option.some_inj.mp heq] at hsucc
      omega
    rw [if_pos ⟨rfl, hmoved⟩]
    refine h.rests (b := { L.buffer.afterConceal with nextSeq := some (n + 1) }) rfl
      (fun s hs => List.mem_append_left _ hs) hnext ?_ (fun _ hplay => by cases hplay)
    rintro _ ⟨⟩ last hlast s hafter hbefore
    rcases Nat.lt_or_ge s.toNat n.toNat with hlt | hge
    · exact List.mem_append_left _ (h.passed n hn last hlast s hafter hlt)
    · have heq : s = n := UInt32.toNat_inj.mp (by omega)
      rw [heq, hn]
      exact List.mem_append_right _ (List.mem_singleton_self _)
  | spends hspent => exact absurd hspent hnotSpent
  | underruns hmode hn hheld =>
    rw [if_neg (fun hmoved => hmoved.2 rfl)]
    exact h.rests (b := { L.buffer.afterConceal with buffering := true }) rfl (fun _ hs => hs)
      (h.numbers.silent (Nat.le_succ _)) h.passed (fun _ hplay => by cases hplay)
  | refills hmode hn hwait hleft =>
    rw [if_neg (fun hmoved => hmoved.2 rfl)]
    exact h.rests (b := { L.buffer.afterConceal with fillTicks := L.buffer.fillTicks + 1 }) rfl
      (fun _ hs => hs) (h.numbers.silent (Nat.le_succ _)) h.passed (fun _ hplay => by cases hplay)
  | ends hheld =>
    rw [if_neg (fun hmoved => absurd hmoved.1 Bool.false_ne_true)]
    exact h.rests hheld.symm (fun _ hs => hs) (.nothing h.numbers.rising h.numbers.ordered)
      (fun _ hnone => by cases hnone) (fun _ hplay => by cases hplay)
  | fills hn hwait =>
    rw [if_neg (fun hmoved => absurd hmoved.1 Bool.false_ne_true)]
    exact h.rests (b := { L.buffer with fillTicks := L.buffer.fillTicks + 1 }) rfl
      (fun _ hs => hs) h.numbers h.passed (fun _ hplay => by cases hplay)

theorem Numbered.step (h : Numbered L) (hsound : L.buffer.Sound) {s : PlayoutStep}
    (hclear : L.Clear s) : Numbered (L.step s) := by
  cases s with
  | push frame => exact h.push hsound hclear
  | tick => exact h.tick hsound hclear

theorem Numbered.start : Numbered .start :=
  ⟨.nothing .nil .nil, (fun _ hnone => by cases hnone), (fun _ hf => by cases hf)⟩

theorem trail_start : Trail .start :=
  ⟨fun _ hl _ => hl.length_le, fun _ hl _ => hl.length_le.trans (Nat.zero_le _)⟩

/-- Numbers that stay clear of the end of their range are played once and in order, and
what comes in time is played, shed, or stepped over. -/
theorem orderly_of_clear (steps : List PlayoutStep)
    (h : Along JitterLog.step JitterLog.Clear .start steps) :
    Orderly (run JitterLog.step .start steps) := by
  have hinv := h.run_inv (fun L => L.buffer.Sound ∧ Trail L ∧ Numbered L)
    ⟨sound_new, trail_start, .start⟩ fun L s ⟨hsound, htrail, hnumbered⟩ hclear =>
      ⟨sound_step hsound s, htrail.step hsound s, hnumbered.step hsound hclear⟩
  obtain ⟨hsound, htrail, hnumbered⟩ := hinv
  refine ⟨?_, hnumbered.numbers.ordered, ?_, hsound.few, htrail.all, hnumbered.conserved⟩
  · exact hnumbered.numbers.rising.imp fun hlt heq => absurd (heq ▸ hlt) (Nat.lt_irrefl _)
  · rw [List.Nodup, List.pairwise_map]
    exact hsound.sorted.imp fun hlt heq => absurd (heq ▸ hlt) (Nat.lt_irrefl _)

/-- A stream that loses a frame and has one late. -/
def lossySteps : List PlayoutStep :=
  [.push (frameOf 7 0), .tick, .push (frameOf 9 0), .push (frameOf 8 0), .tick, .tick, .tick,
    .push (frameOf 12 0), .tick, .push (frameOf 10 0), .tick, .tick]

theorem lossy_orderly :
    Along JitterLog.step JitterLog.Clear .start lossySteps ∧
      Orderly (run JitterLog.step .start lossySteps) := by
  have hclear : Along JitterLog.step JitterLog.Clear .start lossySteps := by decide +kernel
  exact ⟨hclear, orderly_of_clear _ hclear⟩

/-- The frame before the wrap, played and sent again. -/
def wrapSteps : List PlayoutStep :=
  [.push (frameOf 0xFFFFFFFF 0), .tick, .tick, .tick, .tick, .push (frameOf 0xFFFFFFFF 0), .tick]

/-- At the wrap a frame is played twice. -/
theorem wrap_plays_twice :
    Along JitterLog.step JitterLog.InGap .start wrapSteps ∧
      ¬ Orderly (run JitterLog.step .start wrapSteps) := by
  have hplayed : (run JitterLog.step .start wrapSteps).playedSeqs = [0xFFFFFFFF, 0xFFFFFFFF] := by
    decide +kernel
  refine ⟨by decide +kernel, fun horderly => ?_⟩
  have honce := horderly.once
  rw [hplayed] at honce
  exact absurd honce (by decide)

end Numbered

end ConquerD.Client.Playout
