import ConquerD.Features.Replay

/-!
# Features: what the replay guard remembers

A history lists the messages the guard let through. `Remembers` is the guard's
invariant against it: whatever of the history the guard has forgotten is older
than the window. So a pair that is let through a second time was let through
longer than a window ago, and that is all the guard promises: it knows nothing
of the time a message says it was sent. Along a whole sequence of calls the
guard answers as a window over what it let through is meant to.
-/

namespace ConquerD.Features

open Std (ExtTreeMap)
open Lib.Encoding Lib.Window

/-- A message that was let through: who sent it, its signature, and when. -/
structure Sighting where
  sender : String
  signature : Bytes
  time : Rat

/-- What a history says of one sender, as the guard files it. -/
def keysOf (history : List Sighting) (sender : String) : List (Bytes × Rat) :=
  (history.filter (·.sender = sender)).map fun e => (sigKey e.signature, e.time)

theorem keysOf_cons_self (e : Sighting) (history : List Sighting) :
    keysOf (e :: history) e.sender = (sigKey e.signature, e.time) :: keysOf history e.sender := by
  simp [keysOf]

theorem keysOf_cons_of_ne {e : Sighting} {sender : String} (h : e.sender ≠ sender)
    (history : List Sighting) : keysOf (e :: history) sender = keysOf history sender := by
  simp [keysOf, h]

theorem mem_keysOf {history : List Sighting} {e : Sighting} (he : e ∈ history) :
    (sigKey e.signature, e.time) ∈ keysOf history e.sender :=
  List.mem_map_of_mem (List.mem_filter.mpr ⟨he, decide_eq_true rfl⟩)

namespace ReplayGuard

/-- The guard has forgotten nothing that is still inside its window. -/
def Remembers (g : ReplayGuard) (now : Rat) (history : List Sighting) : Prop :=
  ∀ sender, Covers g.window now (g.seen sender) (keysOf history sender)

theorem remembers_nil (g : ReplayGuard) (now : Rat) : g.Remembers now [] :=
  fun sender => Covers.nil g.window now (g.seen sender)

variable {g : ReplayGuard}

@[simp] theorem seen_setSeen_self (g : ReplayGuard) (sender : String)
    (seen : List (Bytes × Rat)) : (g.setSeen sender seen).seen sender = seen := by
  simp [setSeen, ReplayGuard.seen]

theorem seen_setSeen_of_ne {sender other : String} (h : sender ≠ other)
    (seen : List (Bytes × Rat)) : (g.setSeen sender seen).seen other = g.seen other := by
  simp [setSeen, ReplayGuard.seen, ExtTreeMap.getElem?_insert, h]

@[simp] theorem window_setSeen (g : ReplayGuard) (sender : String)
    (seen : List (Bytes × Rat)) : (g.setSeen sender seen).window = g.window := rfl

theorem checkAndRecordAt_cases (g : ReplayGuard) (sender : String) (signature : Bytes)
    (now : Rat) :
    g.checkAndRecordAt sender signature now = (false, g) ∨
    g.checkAndRecordAt sender signature now =
      (false, g.setSeen sender (prune g.window now (g.seen sender))) ∨
    (sigKey signature ∉ (prune g.window now (g.seen sender)).map Prod.fst ∧
      g.checkAndRecordAt sender signature now =
        (true, g.setSeen sender
          ((sigKey signature, now) :: prune g.window now (g.seen sender)))) := by
  unfold checkAndRecordAt
  by_cases hempty : signature.isEmpty
  · exact .inl (if_pos hempty)
  · right
    rw [if_neg hempty]
    by_cases hheld : sigKey signature ∈ (prune g.window now (g.seen sender)).map Prod.fst
    · exact .inl (if_pos hheld)
    · simp only [if_neg hheld]
      split
      · exact .inl rfl
      · exact .inr ⟨hheld, rfl⟩

@[simp] theorem window_checkAndRecordAt (g : ReplayGuard) (sender : String) (signature : Bytes)
    (now : Rat) : (g.checkAndRecordAt sender signature now).2.window = g.window := by
  rcases g.checkAndRecordAt_cases sender signature now with h | h | ⟨-, h⟩ <;> rw [h] <;> rfl

theorem Remembers.setSeen {t now : Rat} {history history' : List Sighting} {sender : String}
    {seen : List (Bytes × Rat)} (h : g.Remembers t history) (ht : t ≤ now)
    (hself : Covers g.window now seen (keysOf history' sender))
    (hother : ∀ other, sender ≠ other → keysOf history' other = keysOf history other) :
    (g.setSeen sender seen).Remembers now history' := by
  intro other
  by_cases ho : sender = other
  · subst ho
    rw [seen_setSeen_self]
    exact hself
  · rw [seen_setSeen_of_ne ho, hother other ho]
    exact (h other).later ht

theorem Remembers.later {t now : Rat} {history : List Sighting} (h : g.Remembers t history)
    (ht : t ≤ now) : g.Remembers now history :=
  fun sender => (h sender).later ht

theorem Remembers.refused {t now : Rat} {history : List Sighting} {sender : String}
    {signature : Bytes} (h : g.Remembers t history) (ht : t ≤ now)
    (hr : (g.checkAndRecordAt sender signature now).1 = false) :
    (g.checkAndRecordAt sender signature now).2.Remembers now history := by
  rcases g.checkAndRecordAt_cases sender signature now with hc | hc | ⟨-, hc⟩
  · rw [hc]
    exact h.later ht
  · rw [hc]
    exact h.setSeen ht ((h sender).prune ht) fun _ _ => rfl
  · rw [hc] at hr
    exact absurd hr Bool.true_eq_false.mp

theorem Remembers.accepted {t now : Rat} {history : List Sighting} {sender : String}
    {signature : Bytes} (h : g.Remembers t history) (ht : t ≤ now)
    (hr : (g.checkAndRecordAt sender signature now).1 = true) :
    (g.checkAndRecordAt sender signature now).2.Remembers now
      (⟨sender, signature, now⟩ :: history) := by
  rcases g.checkAndRecordAt_cases sender signature now with hc | hc | ⟨-, hc⟩
  · rw [hc] at hr
    exact absurd hr Bool.false_eq_true.mp
  · rw [hc] at hr
    exact absurd hr Bool.false_eq_true.mp
  · rw [hc]
    refine h.setSeen ht ?_ fun other ho => keysOf_cons_of_ne ho history
    rw [keysOf_cons_self ⟨sender, signature, now⟩]
    exact ((h sender).prune ht).cons _

theorem Remembers.aged {t now : Rat} {history : List Sighting} {sender : String}
    {signature : Bytes} (h : g.Remembers t history) (ht : t ≤ now)
    (hr : (g.checkAndRecordAt sender signature now).1 = true) {e : Sighting}
    (he : e ∈ history) (hs : e.sender = sender) (hsig : e.signature = signature) :
    g.window < now - e.time := by
  rcases g.checkAndRecordAt_cases sender signature now with hc | hc | ⟨hnew, -⟩
  · rw [hc] at hr
    exact absurd hr Bool.false_eq_true.mp
  · rw [hc] at hr
    exact absurd hr Bool.false_eq_true.mp
  · subst hs hsig
    exact ((h e.sender).prune ht).aged hnew (mem_keysOf he)

theorem Remembers.of_cons {now : Rat} {e : Sighting} {history : List Sighting}
    (h : g.Remembers now (e :: history)) : g.Remembers now history := by
  intro sender k hk
  obtain ⟨e', he', rfl⟩ := List.mem_map.mp hk
  obtain ⟨he', hs⟩ := List.mem_filter.mp he'
  have hmem : e' ∈ (e :: history).filter (·.sender = sender) :=
    List.mem_filter.mpr ⟨List.mem_cons_of_mem e he', hs⟩
  exact h sender _ (List.mem_map_of_mem hmem)

/-- Nothing of the sender's is still inside the window. -/
def Idle (g : ReplayGuard) (sender : String) (now : Rat) : Prop :=
  prune g.window now (g.seen sender) = []

instance (g : ReplayGuard) (sender : String) (now : Rat) : Decidable (g.Idle sender now) :=
  inferInstanceAs (Decidable (_ = _))

theorem Remembers.forgetPeer {t now : Rat} {history : List Sighting} {sender : String}
    (h : g.Remembers t history) (ht : t ≤ now) (hidle : g.Idle sender now) :
    (g.forgetPeer sender).Remembers now history := by
  intro other
  by_cases ho : sender = other
  · subst ho
    intro k hk
    rcases (h sender).prune ht k hk with hlive | haged
    · rw [hidle] at hlive
      exact absurd hlive List.not_mem_nil
    · exact .inr haged
  · have hseen : (g.forgetPeer sender).seen other = g.seen other := by
      simp [ReplayGuard.forgetPeer, ReplayGuard.seen, ExtTreeMap.getElem?_erase, ho]
    rw [hseen]
    exact (h other).later ht

end ReplayGuard

/-! ## The window as it is meant -/

/-- A call goes through against the calls that went through before it. -/
def Admits (window : Rat) (history : List Sighting) (e : Sighting) : Prop :=
  e.signature ≠ [] ∧
    (∀ a ∈ history, a.sender = e.sender → sigKey a.signature = sigKey e.signature →
      window < e.time - a.time) ∧
    (history.filter fun a => a.sender = e.sender ∧ e.time - a.time ≤ window).length <
      maxEntriesPerSender

instance (window : Rat) (history : List Sighting) (e : Sighting) :
    Decidable (Admits window history e) :=
  inferInstanceAs (Decidable (_ ∧ _ ∧ _))

/-- The calls that went through. -/
def recorded (window : Rat) (history : List Sighting) (e : Sighting) : List Sighting :=
  if Admits window history e then e :: history else history

def verdicts (window : Rat) : List Sighting → List Sighting → List Bool
  | _, [] => []
  | history, e :: calls =>
    decide (Admits window history e) :: verdicts window (recorded window history e) calls

namespace ReplayGuard

/-- The answers of the guard to a sequence of calls. -/
def checks : ReplayGuard → List Sighting → List Bool
  | _, [] => []
  | g, e :: calls =>
    (g.checkAndRecordAt e.sender e.signature e.time).1 ::
      checks (g.checkAndRecordAt e.sender e.signature e.time).2 calls

def after (g : ReplayGuard) (calls : List Sighting) : ReplayGuard :=
  calls.foldl (fun g e => (g.checkAndRecordAt e.sender e.signature e.time).2) g

/-- What the guard holds for a sender and has not aged at a time. -/
def live (g : ReplayGuard) (sender : String) (now : Rat) : List (Bytes × Rat) :=
  prune g.window now (g.seen sender)

/-- At no later time does the guard hold anything but the history. -/
def Follows (g : ReplayGuard) (t : Rat) (history : List Sighting) : Prop :=
  ∀ sender now, t ≤ now → g.live sender now = prune g.window now (keysOf history sender)

variable {g : ReplayGuard} {t : Rat} {history : List Sighting} {e : Sighting}

theorem follows_new (windowSecs : Option Rat) (t : Rat) : (new windowSecs).Follows t [] := by
  intro sender now _
  simp [live, new, ReplayGuard.seen, keysOf, prune]

/-- Setting a sender to what it holds at a time changes nothing from then on. -/
theorem live_setSeen_prune {sender : String} {now later : Rat} (h : now ≤ later) (other : String) :
    (g.setSeen sender (prune g.window now (g.seen sender))).live other later =
      g.live other later := by
  by_cases ho : sender = other
  · subst ho
    rw [live, live, seen_setSeen_self, window_setSeen, prune_prune h]
  · rw [live, live, seen_setSeen_of_ne ho, window_setSeen]

theorem prune_keysOf (window now : Rat) (history : List Sighting) (sender : String) :
    prune window now (keysOf history sender) =
      (history.filter fun a => a.sender = sender ∧ now - a.time ≤ window).map
        fun a => (sigKey a.signature, a.time) := by
  rw [prune, keysOf, List.filter_map, List.filter_filter]
  congr 1
  apply List.filter_congr
  intro a _
  by_cases hs : a.sender = sender <;> simp [hs]

theorem Follows.admits_iff (h : g.Follows t history) (ht : t ≤ e.time) :
    Admits g.window history e ↔ e.signature ≠ [] ∧
      sigKey e.signature ∉ (g.live e.sender e.time).map Prod.fst ∧
        (g.live e.sender e.time).length < maxEntriesPerSender := by
  rw [h e.sender e.time ht, prune_keysOf, List.length_map, List.map_map, Admits]
  have hkey : (∀ a ∈ history, a.sender = e.sender → sigKey a.signature = sigKey e.signature →
        g.window < e.time - a.time) ↔
      sigKey e.signature ∉ (history.filter fun a =>
        a.sender = e.sender ∧ e.time - a.time ≤ g.window).map
          (Prod.fst ∘ fun a => (sigKey a.signature, a.time)) := by
    simp only [List.mem_map, List.mem_filter, decide_eq_true_eq, Function.comp_apply, not_exists,
      not_and, and_imp]
    constructor
    · intro hall a ha hs hlive hsame
      exact absurd hlive (not_le.mpr (hall a ha hs hsame))
    · intro hall a ha hs hsame
      exact not_le.mp fun hlive => hall a ha hs hlive hsame
  rw [hkey]

theorem checkAndRecordAt_of_admits (h : g.Follows t history) (ht : t ≤ e.time)
    (ha : Admits g.window history e) :
    g.checkAndRecordAt e.sender e.signature e.time =
      (true, g.setSeen e.sender ((sigKey e.signature, e.time) :: g.live e.sender e.time)) := by
  obtain ⟨hne, hnew, hroom⟩ := (h.admits_iff ht).mp ha
  unfold live at hnew hroom ⊢
  have hempty : ¬ e.signature.isEmpty = true := by simpa using hne
  rw [checkAndRecordAt, if_neg hempty]
  simp only [if_neg hnew, if_neg (Nat.not_le.mpr hroom)]

theorem live_of_refused
    (h : (g.checkAndRecordAt e.sender e.signature e.time).1 = false) {sender : String}
    {later : Rat} (hlater : e.time ≤ later) :
    (g.checkAndRecordAt e.sender e.signature e.time).2.live sender later =
      g.live sender later := by
  rcases g.checkAndRecordAt_cases e.sender e.signature e.time with hc | hc | ⟨-, hc⟩
  · rw [hc]
  · rw [hc]
    exact live_setSeen_prune hlater sender
  · rw [hc] at h
    cases h

theorem refused_of_not_admits (h : g.Follows t history) (ht : t ≤ e.time)
    (ha : ¬ Admits g.window history e) :
    (g.checkAndRecordAt e.sender e.signature e.time).1 = false := by
  rw [h.admits_iff ht] at ha
  unfold live at ha
  rw [checkAndRecordAt]
  split
  · rfl
  · next hempty =>
    dsimp only
    split
    · rfl
    · next hnew =>
      split
      · rfl
      · next hroom =>
        exact absurd ⟨by simpa using hempty, hnew, Nat.not_le.mp hroom⟩ ha

theorem Follows.check (h : g.Follows t history) (ht : t ≤ e.time) :
    (g.checkAndRecordAt e.sender e.signature e.time).1 = decide (Admits g.window history e) ∧
      (g.checkAndRecordAt e.sender e.signature e.time).2.Follows e.time
        (recorded g.window history e) := by
  by_cases ha : Admits g.window history e
  · rw [checkAndRecordAt_of_admits h ht ha, recorded, if_pos ha]
    refine ⟨(decide_eq_true ha).symm, ?_⟩
    intro sender now hnow
    by_cases hs : e.sender = sender
    · subst hs
      have hlive := h e.sender now (ht.trans hnow)
      rw [live] at hlive
      rw [live, seen_setSeen_self, window_setSeen, keysOf_cons_self, live, prune_cons, prune_cons,
        prune_prune hnow, hlive]
    · rw [live, seen_setSeen_of_ne hs, window_setSeen, keysOf_cons_of_ne hs]
      exact h sender now (ht.trans hnow)
  · have hrefused := refused_of_not_admits h ht ha
    rw [recorded, if_neg ha]
    refine ⟨by rw [hrefused, decide_eq_false ha], ?_⟩
    intro sender now hnow
    rw [live_of_refused hrefused hnow, window_checkAndRecordAt]
    exact h sender now (ht.trans hnow)

theorem Follows.checks_eq {calls : List Sighting} (h : g.Follows t history)
    (hordered : (calls.map Sighting.time).Pairwise (· ≤ ·)) (hstart : ∀ e ∈ calls, t ≤ e.time) :
    g.checks calls = verdicts g.window history calls := by
  induction calls generalizing g t history with
  | nil => rfl
  | cons e calls ih =>
    have ht := hstart e List.mem_cons_self
    obtain ⟨hanswer, hfollows⟩ := h.check ht
    rw [List.map_cons, List.pairwise_cons] at hordered
    have hlater : ∀ a ∈ calls, e.time ≤ a.time := fun a ha =>
      hordered.1 _ (List.mem_map_of_mem ha)
    rw [checks, verdicts, hanswer, ih hfollows hordered.2 hlater, window_checkAndRecordAt]

/-! ### One sender -/

theorem admits_congr {window : Rat} {history history' : List Sighting}
    (h : history.filter (·.sender = e.sender) = history'.filter (·.sender = e.sender)) :
    Admits window history e ↔ Admits window history' e := by
  have hmem : ∀ a : Sighting, a.sender = e.sender → (a ∈ history ↔ a ∈ history') := by
    intro a ha
    have hfilter : ∀ l : List Sighting, a ∈ l ↔ a ∈ l.filter (·.sender = e.sender) := by
      intro l
      simp [List.mem_filter, ha]
    rw [hfilter history, h, ← hfilter history']
  have hcount : ∀ l : List Sighting, (l.filter fun a =>
        a.sender = e.sender ∧ e.time - a.time ≤ window) =
      (l.filter (·.sender = e.sender)).filter fun a => e.time - a.time ≤ window := by
    intro l
    rw [List.filter_filter]
    apply List.filter_congr
    intro a _
    by_cases hs : a.sender = e.sender <;> simp [hs]
  rw [Admits, Admits, hcount history, hcount history', h]
  refine and_congr_right fun _ => and_congr_left fun _ => ?_
  exact ⟨fun hall a ha hs => hall a ((hmem a hs).mpr ha) hs,
    fun hall a ha hs => hall a ((hmem a hs).mp ha) hs⟩

/-- The answers to one sender's calls, among all. -/
def answersTo (sender : String) : List Sighting → List Bool → List Bool
  | e :: calls, b :: answers =>
    if e.sender = sender then b :: answersTo sender calls answers
    else answersTo sender calls answers
  | _, _ => []

theorem answersTo_verdicts {window : Rat} {sender : String} {history history' : List Sighting}
    (h : history.filter (·.sender = sender) = history'.filter (·.sender = sender))
    (calls : List Sighting) :
    answersTo sender calls (verdicts window history calls) =
      verdicts window history' (calls.filter (·.sender = sender)) := by
  induction calls generalizing history history' with
  | nil => rfl
  | cons e calls ih =>
    rw [verdicts, answersTo]
    by_cases hs : e.sender = sender
    · subst hs
      have hsame : Admits window history e ↔ Admits window history' e := admits_congr h
      have hrest : (recorded window history e).filter (·.sender = e.sender) =
          (recorded window history' e).filter (·.sender = e.sender) := by
        unfold recorded
        by_cases ha : Admits window history e
        · simp [ha, hsame.mp ha, h]
        · simp [ha, mt hsame.mpr ha, h]
      rw [if_pos rfl, List.filter_cons_of_pos (by simp), verdicts, ih hrest]
      simp only [hsame]
    · have hrest : (recorded window history e).filter (·.sender = sender) =
          history'.filter (·.sender = sender) := by
        unfold recorded
        split <;> simp [hs, h]
      rw [if_neg hs, List.filter_cons_of_neg (by simpa using hs), ih hrest]

/-- The guard answers as the window is meant: by the calls of the sender that
went through within the window, told by their first sixteen bytes, and by how
many there are. What is refused leaves the lifetimes of all entries as they
are, and a sender is answered as if it were alone. -/
theorem guard_is_sliding_window (windowSecs : Option Rat) {calls : List Sighting}
    (hordered : (calls.map Sighting.time).Pairwise (· ≤ ·)) :
    (new windowSecs).checks calls = verdicts (new windowSecs).window [] calls ∧
      (∀ earlier e rest, calls = earlier ++ e :: rest →
        (((new windowSecs).after earlier).checkAndRecordAt e.sender e.signature e.time).1 = false →
        ∀ sender later, e.time ≤ later →
          (((new windowSecs).after earlier).checkAndRecordAt e.sender e.signature e.time).2.live
              sender later =
            ((new windowSecs).after earlier).live sender later) ∧
      ∀ sender, answersTo sender calls ((new windowSecs).checks calls) =
        (new windowSecs).checks (calls.filter (·.sender = sender)) := by
  have hfirst : ∀ l : List Sighting, (l.map Sighting.time).Pairwise (· ≤ ·) →
      ∃ t, ∀ e ∈ l, t ≤ e.time := by
    intro l hl
    cases l with
    | nil => exact ⟨0, fun _ he => nomatch he⟩
    | cons e l =>
      refine ⟨e.time, fun a ha => ?_⟩
      rcases List.mem_cons.mp ha with rfl | ha
      · exact le_refl _
      · exact (List.pairwise_cons.mp hl).1 _ (List.mem_map_of_mem ha)
  have hchecks : ∀ l : List Sighting, (l.map Sighting.time).Pairwise (· ≤ ·) →
      (new windowSecs).checks l = verdicts (new windowSecs).window [] l := by
    intro l hl
    obtain ⟨t, ht⟩ := hfirst l hl
    exact (follows_new windowSecs t).checks_eq hl ht
  refine ⟨hchecks calls hordered, ?_, ?_⟩
  · intro earlier e rest _ hrefused sender later hlater
    exact live_of_refused hrefused hlater
  · intro sender
    have hsub : ((calls.filter (·.sender = sender)).map Sighting.time).Pairwise (· ≤ ·) :=
      hordered.sublist (List.filter_sublist.map _)
    rw [hchecks calls hordered, hchecks _ hsub]
    exact answersTo_verdicts rfl calls

/-- A signature that comes again within the window is refused, and after it is let through. -/
theorem guard_is_sliding_window_alice :
    (new (some 300)).checks [⟨"alice", [1], 0⟩, ⟨"alice", [1], 300⟩, ⟨"alice", [1], 301⟩] =
      verdicts (new (some 300)).window []
        [⟨"alice", [1], 0⟩, ⟨"alice", [1], 300⟩, ⟨"alice", [1], 301⟩] :=
  (guard_is_sliding_window (some 300) (by decide +kernel)).1

/-- Two short signatures that differ only by a zero at the end are one to the guard. -/
theorem short_signatures_collide :
    (new (some 300)).checks [⟨"alice", [1], 0⟩, ⟨"alice", [1, 0], 0⟩] = [true, false] ∧
      ([1] : Bytes).take 16 ≠ ([1, 0] : Bytes).take 16 := by
  decide +kernel

end ReplayGuard

end ConquerD.Features
