import ConquerD.Lib.Run
import Mathlib.Data.List.Nodup
import Mathlib.Data.String.Basic
import Mathlib.Logic.Function.Basic
import Std.Data.ExtTreeMap

/-!
# Client: speaking indicators

A frame of a peer that was not heard for a while reports the peer as speaking; a tick
that finds the last frame of a peer too old reports it as silent and forgets it. A frame
may come in before the tick, a peer that is removed is forgotten without a report, and a
call that is stopped forgets nobody. What happens to one peer depends on its own entry
only, so that the reports are followed peer by peer. Times are in nanoseconds.
-/

namespace ConquerD.Client.CallController

open Std (ExtTreeMap)
open Lib.Run

def peerSilenceTimeout : Nat := 600000000

/-- When each peer was last heard, and what was reported: a peer, and whether it is
speaking. -/
structure Controller where
  roomPeerLastAudio : ExtTreeMap String Nat
  events : List (String × Bool)

namespace Controller

variable (c : Controller)

def handleRoomAudio (peerId : String) (now : Nat) : Controller where
  roomPeerLastAudio := c.roomPeerLastAudio.insert peerId now
  events :=
    if (c.roomPeerLastAudio[peerId]?).all fun t => decide (peerSilenceTimeout < now - t) then
      c.events ++ [(peerId, true)]
    else c.events

/-- The peers whose last frame is too old. -/
def silent (now : Nat) : List String :=
  c.roomPeerLastAudio.keys.filter fun peerId =>
    (c.roomPeerLastAudio[peerId]?).any fun t => decide (peerSilenceTimeout < now - t)

def speakingTick (now : Nat) : Controller where
  roomPeerLastAudio := (c.silent now).foldl (fun m peerId => m.erase peerId) c.roomPeerLastAudio
  events := c.events ++ (c.silent now).map fun peerId => (peerId, false)

def handleRemovePeer (peerId : String) : Controller :=
  { c with roomPeerLastAudio := c.roomPeerLastAudio.erase peerId }

/-- Stopping a call touches neither the table nor the reports. -/
def handleStopAudio : Controller := c

end Controller

/-! ## Runs -/

inductive CallOp where
  | roomAudio (peerId : String)
  | speakingTick
  | removePeer (peerId : String)
  | stopAudio

/-- Something happens after a wait. -/
structure TimedCallOp where
  wait : Nat
  op : CallOp

/-- A controller with its clock. For each peer the ticks since it was last heard are
counted, from two on when it was never heard, was removed, or the call was stopped. -/
structure Call where
  controller : Controller
  clock : Nat
  quiet : String → Nat

def Call.start : Call where
  controller := ⟨∅, []⟩
  clock := 0
  quiet _ := 2

def Call.step (k : Call) (o : TimedCallOp) : Call where
  clock := k.clock + o.wait
  controller :=
    match o.op with
    | .roomAudio peerId => k.controller.handleRoomAudio peerId (k.clock + o.wait)
    | .speakingTick => k.controller.speakingTick (k.clock + o.wait)
    | .removePeer peerId => k.controller.handleRemovePeer peerId
    | .stopAudio => k.controller.handleStopAudio
  quiet :=
    match o.op with
    | .roomAudio peerId => Function.update k.quiet peerId 0
    | .speakingTick => fun peerId => k.quiet peerId + 1
    | .removePeer peerId => Function.update k.quiet peerId 2
    | .stopAudio => fun _ => 2

/-- The reports of one peer. -/
def eventsOf (peerId : String) (events : List (String × Bool)) : List Bool :=
  events.filterMap fun e => if e.1 = peerId then some e.2 else none

/-- True and false in turn, true first. -/
def alternating (n : Nat) : List Bool :=
  (List.range n).map fun i => i % 2 == 0

def Alternates (l : List Bool) : Prop :=
  l = alternating l.length

instance (l : List Bool) : Decidable (Alternates l) :=
  inferInstanceAs (Decidable (_ = _))

/-- The reports of each peer alternate, and the last one of a peer that was removed,
of a stopped call, or of two ticks without a frame is not that it is speaking. -/
def Good (k : Call) : Prop :=
  ∀ peerId, Alternates (eventsOf peerId k.controller.events) ∧
    (2 ≤ k.quiet peerId → (eventsOf peerId k.controller.events).getLast? ≠ some true)

/-- A frame does not come in between the end of a silence and the tick after it; the
second tick after a frame comes when the frame is too old; and no peer is removed, and
no call is stopped, while a peer is heard. -/
def Orderly (k : Call) (o : TimedCallOp) : Prop :=
  match o.op with
  | .roomAudio peerId => ∀ t, k.controller.roomPeerLastAudio[peerId]? = some t →
      k.clock + o.wait - t ≤ peerSilenceTimeout
  | .speakingTick => ∀ peerId t, k.controller.roomPeerLastAudio[peerId]? = some t →
      1 ≤ k.quiet peerId → peerSilenceTimeout < k.clock + o.wait - t
  | .removePeer peerId => k.controller.roomPeerLastAudio[peerId]? = none
  | .stopAudio => ∀ peerId : String, k.controller.roomPeerLastAudio[peerId]? = none

/-! ## Alternation -/

theorem alternating_succ (n : Nat) : alternating (n + 1) = alternating n ++ [n % 2 == 0] := by
  rw [alternating, List.range_succ, List.map_append]
  rfl

theorem alternates_concat_iff {l : List Bool} (h : Alternates l) (b : Bool) :
    Alternates (l ++ [b]) ↔ b = (l.length % 2 == 0) := by
  rw [Alternates, List.length_append, List.length_singleton, alternating_succ, ← h,
    List.append_cancel_left_eq, List.cons.injEq]
  exact and_iff_left rfl

theorem getLast?_eq_true_iff {l : List Bool} (h : Alternates l) :
    l.getLast? = some true ↔ l.length % 2 = 1 := by
  rw [h]
  generalize l.length = n
  cases n with
  | zero => decide
  | succ n =>
    rw [alternating_succ, List.getLast?_concat, Option.some.injEq, beq_iff_eq]
    simp only [List.length_append, alternating, List.length_map, List.length_range,
      List.length_singleton]
    omega

/-- What follows is true after a report that is not, and false after one that is. -/
theorem alternates_concat_iff_last {l : List Bool} (h : Alternates l) (b : Bool) :
    Alternates (l ++ [b]) ↔ (b = true ↔ l.getLast? ≠ some true) := by
  rw [alternates_concat_iff h, Ne, getLast?_eq_true_iff h]
  cases b with
  | true =>
    have hmod := Nat.mod_two_eq_zero_or_one l.length
    rw [eq_comm, beq_iff_eq]
    simp only [true_iff]
    omega
  | false =>
    have hmod := Nat.mod_two_eq_zero_or_one l.length
    rw [eq_comm, beq_eq_false_iff_ne]
    simp only [Bool.false_eq_true, false_iff]
    omega

/-! ## One peer -/

/-- What there is of one peer. -/
structure View where
  lastAudio : Option Nat
  reports : List Bool
  quiet : Nat

/-- What a step is to one peer. -/
inductive Seen where
  | heard (now : Nat)
  | tick (now : Nat)
  | removed
  | stopped
  | other

namespace View

def step (v : View) : Seen → View
  | .heard now =>
    ⟨some now,
      if v.lastAudio.all fun t => decide (peerSilenceTimeout < now - t) then v.reports ++ [true]
      else v.reports, 0⟩
  | .tick now =>
    if v.lastAudio.any fun t => decide (peerSilenceTimeout < now - t) then
      ⟨none, v.reports ++ [false], v.quiet + 1⟩
    else ⟨v.lastAudio, v.reports, v.quiet + 1⟩
  | .removed => ⟨none, v.reports, 2⟩
  | .stopped => ⟨v.lastAudio, v.reports, 2⟩
  | .other => v

def Good (v : View) : Prop :=
  Alternates v.reports ∧ (2 ≤ v.quiet → v.reports.getLast? ≠ some true)

/-- A peer with an entry was reported as speaking, and one without was not, unless it
was removed or has been quiet. -/
structure Inv (v : View) : Prop where
  entry : ∀ t, v.lastAudio = some t → v.reports.getLast? = some true
  noEntry : v.lastAudio = none → 2 ≤ v.quiet ∨ v.reports.getLast? ≠ some true

def Orderly (v : View) : Seen → Prop
  | .heard now => ∀ t, v.lastAudio = some t → now - t ≤ peerSilenceTimeout
  | .tick now => ∀ t, v.lastAudio = some t → 1 ≤ v.quiet → peerSilenceTimeout < now - t
  | .removed => v.lastAudio = none
  | .stopped => v.lastAudio = none
  | .other => True

variable {v : View}

theorem Inv.step (h : v.Inv) (e : Seen) : (v.step e).Inv := by
  cases e with
  | heard now =>
    refine ⟨fun t ht => ?_, fun hnone => nomatch hnone⟩
    dsimp only [View.step]
    split
    · exact List.getLast?_concat
    · next hheard =>
      cases hentry : v.lastAudio with
      | none => exact absurd (by rw [hentry]; rfl) hheard
      | some t' => exact h.entry t' hentry
  | tick now =>
    rw [View.step]
    split
    · refine ⟨nofun, fun _ => .inr ?_⟩
      rw [List.getLast?_concat]
      exact nofun
    · exact ⟨h.entry, fun hnone => (h.noEntry hnone).imp_left Nat.le_succ_of_le⟩
  | removed => exact ⟨nofun, fun _ => .inl (Nat.le_refl 2)⟩
  | stopped => exact ⟨h.entry, fun _ => .inl (Nat.le_refl 2)⟩
  | other => exact h

theorem Good.not_speaking (hgood : v.Good) (h : v.Inv) (hnone : v.lastAudio = none) :
    v.reports.getLast? ≠ some true :=
  (h.noEntry hnone).elim hgood.2 id

theorem good_step_iff (h : v.Inv) (hgood : v.Good) (e : Seen) :
    (v.step e).Good ↔ v.Orderly e := by
  cases e with
  | heard now =>
    have hquiet : ¬2 ≤ (v.step (.heard now)).quiet := Nat.not_succ_le_zero 1
    cases hentry : v.lastAudio with
    | none =>
      refine iff_of_true ⟨?_, fun htwo => absurd htwo hquiet⟩ fun t ht => ?_
      · dsimp only [View.step]
        rw [hentry, Option.all_none, if_pos rfl]
        exact (alternates_concat_iff_last hgood.1 true).mpr
          (iff_of_true rfl (hgood.not_speaking h hentry))
      · rw [hentry] at ht
        cases ht
    | some t =>
      have hspeaking := h.entry t hentry
      by_cases hlate : peerSilenceTimeout < now - t
      · refine iff_of_false (fun hafter => ?_) fun horderly => ?_
        · have halt := hafter.1
          dsimp only [View.step] at halt
          rw [hentry, Option.all_some, decide_eq_true hlate, if_pos rfl] at halt
          exact ((alternates_concat_iff_last hgood.1 true).mp halt).mp rfl hspeaking
        · have hle := horderly t hentry
          omega
      · refine iff_of_true ⟨?_, fun htwo => absurd htwo hquiet⟩ fun t' ht' => ?_
        · dsimp only [View.step]
          rw [hentry, Option.all_some, decide_eq_false hlate, if_neg Bool.false_ne_true]
          exact hgood.1
        · rw [hentry] at ht'
          cases ht'
          omega
  | tick now =>
    cases hentry : v.lastAudio with
    | none =>
      have hstep : v.step (.tick now) = ⟨none, v.reports, v.quiet + 1⟩ := by
        rw [View.step, hentry, Option.any_none, if_neg Bool.false_ne_true]
      rw [hstep]
      refine iff_of_true ⟨hgood.1, fun _ => hgood.not_speaking h hentry⟩ fun t ht => ?_
      rw [hentry] at ht
      cases ht
    | some t =>
      have hspeaking := h.entry t hentry
      by_cases hlate : peerSilenceTimeout < now - t
      · have hstep : v.step (.tick now) = ⟨none, v.reports ++ [false], v.quiet + 1⟩ := by
          rw [View.step, hentry, Option.any_some, decide_eq_true hlate, if_pos rfl]
        rw [hstep]
        refine iff_of_true ⟨?_, fun _ => ?_⟩ fun t' ht' _ => ?_
        · exact (alternates_concat_iff_last hgood.1 false).mpr
            (iff_of_false Bool.false_ne_true (not_not.mpr hspeaking))
        · dsimp only
          rw [List.getLast?_concat]
          exact nofun
        · rw [hentry] at ht'
          cases ht'
          exact hlate
      · have hstep : v.step (.tick now) = ⟨some t, v.reports, v.quiet + 1⟩ := by
          rw [View.step, hentry, Option.any_some, decide_eq_false hlate,
            if_neg Bool.false_ne_true]
        rw [hstep]
        constructor
        · intro hafter t' ht' hquiet
          exact absurd hspeaking (hafter.2 (Nat.succ_le_succ hquiet))
        · intro horderly
          refine ⟨hgood.1, fun htwo => ?_⟩
          exact absurd (horderly t hentry (Nat.le_of_succ_le_succ htwo)) hlate
  | removed =>
    constructor
    · intro hafter
      by_contra hentry
      obtain ⟨t, ht⟩ := Option.ne_none_iff_exists'.mp hentry
      exact hafter.2 (Nat.le_refl 2) (h.entry t ht)
    · exact fun hnone => ⟨hgood.1, fun _ => hgood.not_speaking h hnone⟩
  | stopped =>
    constructor
    · intro hafter
      by_contra hentry
      obtain ⟨t, ht⟩ := Option.ne_none_iff_exists'.mp hentry
      exact hafter.2 (Nat.le_refl 2) (h.entry t ht)
    · exact fun hnone => ⟨hgood.1, fun _ => hgood.not_speaking h hnone⟩
  | other => exact iff_of_true hgood trivial

end View

/-! ## All peers -/

def view (k : Call) (peerId : String) : View where
  lastAudio := k.controller.roomPeerLastAudio[peerId]?
  reports := eventsOf peerId k.controller.events
  quiet := k.quiet peerId

/-- What a step of the call is to one peer. -/
def seen (k : Call) (o : TimedCallOp) (peerId : String) : Seen :=
  match o.op with
  | .roomAudio id => if id = peerId then .heard (k.clock + o.wait) else .other
  | .speakingTick => .tick (k.clock + o.wait)
  | .removePeer id => if id = peerId then .removed else .other
  | .stopAudio => .stopped

section AllPeers

variable {peerId : String}

theorem eventsOf_append (l l' : List (String × Bool)) :
    eventsOf peerId (l ++ l') = eventsOf peerId l ++ eventsOf peerId l' :=
  List.filterMap_append ..

theorem eventsOf_self (b : Bool) : eventsOf peerId [(peerId, b)] = [b] := by
  simp [eventsOf]

theorem eventsOf_of_ne {id : String} (h : id ≠ peerId) (b : Bool) :
    eventsOf peerId [(id, b)] = [] := by
  simp [eventsOf, h]

theorem eventsOf_map {ids : List String} (h : ids.Nodup) (b : Bool) :
    eventsOf peerId (ids.map fun id => (id, b)) = if peerId ∈ ids then [b] else [] := by
  induction ids with
  | nil => rfl
  | cons id ids ih =>
    obtain ⟨hid, hrest⟩ := List.nodup_cons.mp h
    have hsplit : (id, b) :: ids.map (fun id => (id, b)) = [(id, b)] ++ ids.map fun id => (id, b) :=
      rfl
    rw [List.map_cons, hsplit, eventsOf_append, ih hrest]
    by_cases hpeer : id = peerId
    · subst hpeer
      rw [eventsOf_self, if_neg hid, if_pos (List.mem_cons_self ..), List.append_nil]
    · rw [eventsOf_of_ne hpeer, List.nil_append]
      have hmem : peerId ∈ id :: ids ↔ peerId ∈ ids :=
        ⟨fun hor => (List.mem_cons.mp hor).resolve_left (Ne.symm hpeer), List.mem_cons_of_mem _⟩
      simp only [hmem]

theorem getElem?_foldl_erase (ids : List String) (m : ExtTreeMap String Nat) :
    (ids.foldl (fun m id => m.erase id) m)[peerId]? = if peerId ∈ ids then none else m[peerId]? := by
  induction ids generalizing m with
  | nil => rfl
  | cons id ids ih =>
    rw [List.foldl_cons, ih, ExtTreeMap.getElem?_erase]
    by_cases hrest : peerId ∈ ids
    · rw [if_pos hrest, if_pos (List.mem_cons_of_mem _ hrest)]
    · rw [if_neg hrest]
      by_cases hpeer : id = peerId
      · subst hpeer
        rw [if_pos (compare_eq_iff_eq.mpr rfl), if_pos (List.mem_cons_self ..)]
      · have hnot : peerId ∉ id :: ids :=
          fun hor => (List.mem_cons.mp hor).elim (fun h => hpeer h.symm) hrest
        rw [if_neg fun h => hpeer (compare_eq_iff_eq.mp h), if_neg hnot]

theorem mem_silent_iff {c : Controller} {now : Nat} :
    peerId ∈ c.silent now ↔ ((c.roomPeerLastAudio[peerId]?).any fun t =>
      decide (peerSilenceTimeout < now - t)) = true := by
  rw [Controller.silent, List.mem_filter, ExtTreeMap.mem_keys, and_iff_right_iff_imp]
  intro hany
  rw [ExtTreeMap.mem_iff_isSome_getElem?]
  cases hentry : c.roomPeerLastAudio[peerId]? with
  | none =>
    rw [hentry] at hany
    cases hany
  | some t => rfl

theorem nodup_silent (c : Controller) (now : Nat) : (c.silent now).Nodup :=
  ExtTreeMap.nodup_keys.filter _

theorem view_step (k : Call) (o : TimedCallOp) :
    view (k.step o) peerId = (view k peerId).step (seen k o peerId) := by
  obtain ⟨wait, op⟩ := o
  cases op with
  | roomAudio id =>
    dsimp only [view, seen, Call.step, Controller.handleRoomAudio]
    by_cases hpeer : id = peerId
    · subst hpeer
      rw [if_pos rfl, ExtTreeMap.getElem?_insert_self, Function.update_self, View.step]
      split
      · rw [eventsOf_append, eventsOf_self]
      · rfl
    · rw [if_neg hpeer, ExtTreeMap.getElem?_insert,
        if_neg fun h => hpeer (compare_eq_iff_eq.mp h), Function.update_of_ne (Ne.symm hpeer),
        View.step]
      split
      · rw [eventsOf_append, eventsOf_of_ne hpeer, List.append_nil]
      · rfl
  | speakingTick =>
    dsimp only [view, seen, Call.step, Controller.speakingTick]
    rw [getElem?_foldl_erase, eventsOf_append, eventsOf_map (nodup_silent _ _), View.step]
    by_cases hsilent : peerId ∈ k.controller.silent (k.clock + wait)
    · rw [if_pos hsilent, if_pos hsilent, if_pos (mem_silent_iff.mp hsilent)]
    · rw [if_neg hsilent, if_neg hsilent, if_neg fun h => hsilent (mem_silent_iff.mpr h),
        List.append_nil]
  | removePeer id =>
    dsimp only [view, seen, Call.step, Controller.handleRemovePeer]
    rw [ExtTreeMap.getElem?_erase]
    by_cases hpeer : id = peerId
    · subst hpeer
      rw [if_pos rfl, if_pos (compare_eq_iff_eq.mpr rfl), Function.update_self, View.step]
    · rw [if_neg hpeer, if_neg fun h => hpeer (compare_eq_iff_eq.mp h),
        Function.update_of_ne (Ne.symm hpeer), View.step]
  | stopAudio => rfl

theorem orderly_iff (k : Call) (o : TimedCallOp) :
    Orderly k o ↔ ∀ peerId, (view k peerId).Orderly (seen k o peerId) := by
  obtain ⟨wait, op⟩ := o
  cases op with
  | roomAudio id =>
    constructor
    · intro h peerId
      dsimp only [seen]
      by_cases hpeer : id = peerId
      · subst hpeer
        rw [if_pos rfl]
        exact h
      · rw [if_neg hpeer]
        exact trivial
    · intro h
      have hself := h id
      dsimp only [seen] at hself
      rw [if_pos rfl] at hself
      exact hself
  | speakingTick => exact Iff.rfl
  | removePeer id =>
    constructor
    · intro h peerId
      dsimp only [seen]
      by_cases hpeer : id = peerId
      · subst hpeer
        rw [if_pos rfl]
        exact h
      · rw [if_neg hpeer]
        exact trivial
    · intro h
      have hself := h id
      dsimp only [seen] at hself
      rw [if_pos rfl] at hself
      exact hself
  | stopAudio => exact Iff.rfl

end AllPeers

theorem good_start : Good .start :=
  fun _ => ⟨rfl, fun _ => nofun⟩

/-- In a run the reports are right in every state reached exactly when every step is
orderly. -/
theorem speaking_alternates_iff (ops : List TimedCallOp) :
    Along Call.step (fun k o => Good (k.step o)) .start ops ↔
      Along Call.step Orderly .start ops := by
  refine along_after_iff (fun k => ∀ peerId, (view k peerId).Inv) Good ?_ good_start ?_ ?_
  · exact fun peerId => ⟨nofun, fun _ => .inl (Nat.le_refl 2)⟩
  · intro k o h peerId
    rw [view_step]
    exact (h peerId).step _
  · intro k o h hgood
    rw [orderly_iff]
    refine forall_congr' fun peerId => ?_
    have hview : (view (k.step o) peerId).Good ↔ (view k peerId).Orderly (seen k o peerId) := by
      rw [view_step]
      exact View.good_step_iff (h peerId) (hgood peerId) _
    exact hview

/-- A frame after a silence that no tick saw, and a call stopped while a peer speaks. -/
theorem speaking_reported_twice :
    eventsOf "peer" (run Call.step .start [⟨0, .roomAudio "peer"⟩,
      ⟨600000001, .roomAudio "peer"⟩]).controller.events = [true, true] ∧
    ¬Alternates [true, true] ∧
    eventsOf "peer" (run Call.step .start [⟨0, .roomAudio "peer"⟩,
      ⟨0, .stopAudio⟩]).controller.events = [true] := by
  decide +kernel

end ConquerD.Client.CallController
