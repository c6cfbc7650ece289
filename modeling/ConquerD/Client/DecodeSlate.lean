import ConquerD.Client.MediaSigning
import ConquerD.Lib.Run
import Mathlib.Logic.Function.Basic
import Std.Data.ExtTreeMap

/-!
# Client: the decode slate

The decode thread keeps five tables by peer: decoders, their health, the slots
with the time of the last frame, the last request for a keyframe, and who is
reported stalled. Frames, the loss of decoders, a sweep for streams that went
quiet and peers that leave edit them in any order. What the thread asks of its
caller, and what it does with the slots, is written down as events, which the
invariants of the tables are about. Times are in nanoseconds.
-/

namespace ConquerD.Client

open Std (ExtTreeMap)
open Lib.Run

namespace DecodeSlate

def failuresBeforeKeyframeRequest : Nat := 3

def failuresBeforeDecoderRebuild : Nat := 15

def starvedBeforeKeyframeRequest : Nat := 30

def starvedBeforeDecoderRebuild : Nat := 300

def keyframeRequestInterval : Nat := 1000000000

def stalledKeyframeInterval : Nat := 5000000000

def stallKeyframeAfter : Nat := 2000000000

def stallReportAfter : Nat := 10000000000

def maxDecodedStreams : Nat := 4

def streamIdleEvict : Nat := 3000000000

structure DecodeHealth where
  errors : Nat
  starved : Nat

/-- What happened, as far as an observer of the thread can tell. -/
inductive SlateEvent where
  /-- A frame of a peer that something displays came in. -/
  | shown (peer : String) (time : Nat)
  /-- The slot of a peer was given to another. -/
  | taken (peer : String) (time : Nat)
  | forgotten (peer : String)
  | forgottenAll
  | keyframe (peer : String) (time : Nat)
  | stall (peer : String) (stalled : Bool)
  deriving DecidableEq

structure Slate where
  decoders : String → Option VideoCodec
  health : String → Option DecodeHealth
  lastFrame : ExtTreeMap String Nat
  keyframeAsked : String → Option Nat
  stalled : ExtTreeMap String Unit
  events : List SlateEvent

/-- The tables of a thread that has started. -/
def Slate.empty : Slate where
  decoders _ := none
  health _ := none
  lastFrame := ∅
  keyframeAsked _ := none
  stalled := ∅
  events := []

inductive Admission where
  | decode
  | evict (stale : String)
  | reject

/-- The peers that have been quiet longest. -/
def stalest (active : ExtTreeMap String Nat) (now : Nat) : List (String × Nat) :=
  active.toList.filter fun e => active.toList.all fun e' => decide (now - e'.2 ≤ now - e.2)

/-- Whether a frame is decoded. The table has no order, so that any of the peers
that have been quiet longest may be chosen. -/
def admission (peer : String) (active : ExtTreeMap String Nat) (now pick : Nat) : Admission :=
  if peer ∈ active then .decode
  else if active.size < maxDecodedStreams then .decode
  else
    match (stalest active now)[pick % (stalest active now).length]? with
    | none => .reject
    | some (id, seen) => if streamIdleEvict ≤ now - seen then .evict id else .reject

namespace Slate

def emit (s : Slate) (e : SlateEvent) : Slate :=
  { s with events := s.events ++ [e] }

def requestKeyframeThrottled (s : Slate) (peer : String) (now interval : Nat) : Slate :=
  if (s.keyframeAsked peer).all fun t => decide (interval ≤ now - t) then
    emit { s with keyframeAsked := Function.update s.keyframeAsked peer (some now) }
      (.keyframe peer now)
  else s

/-- A peer that was reported stalled is reported back. -/
def retractStall (s : Slate) (peer : String) : Slate :=
  if peer ∈ s.stalled then
    emit { s with stalled := s.stalled.erase peer } (.stall peer false)
  else s

/-- All that is kept of a peer goes. -/
def drop (s : Slate) (peer : String) : Slate :=
  retractStall
    { s with
      decoders := Function.update s.decoders peer none
      health := Function.update s.health peer none
      lastFrame := s.lastFrame.erase peer
      keyframeAsked := Function.update s.keyframeAsked peer none } peer

def dropDecoder (s : Slate) (peer : String) : Slate :=
  { s with
    decoders := Function.update s.decoders peer none
    health := Function.update s.health peer none }

/-! ## Frames -/

inductive DecodeResult where
  | picture
  | nothing
  | error

/-- A frame that comes in, with what the thread will be told about it: whether
something displays its peer, whether there is a decoder for its codec, what the
decoder makes of it, and the choice among peers that have been quiet longest. -/
structure Frame where
  peer : String
  codec : VideoCodec
  displayed : Bool
  available : Bool
  result : DecodeResult
  pick : Nat

/-- What the decoder returned. -/
def decoded (s : Slate) (f : Frame) (now : Nat) : Slate :=
  match f.result with
  | .picture => { s with health := Function.update s.health f.peer none }
  | .nothing =>
    let n := ((s.health f.peer).getD ⟨0, 0⟩).starved + 1
    let s := { s with health := Function.update s.health f.peer (some ⟨0, n⟩) }
    let s := if starvedBeforeKeyframeRequest ≤ n then
        s.requestKeyframeThrottled f.peer now keyframeRequestInterval else s
    if starvedBeforeDecoderRebuild ≤ n then s.dropDecoder f.peer else s
  | .error =>
    let n := ((s.health f.peer).getD ⟨0, 0⟩).errors + 1
    let s := { s with health := Function.update s.health f.peer (some ⟨n, 0⟩) }
    let s := if failuresBeforeKeyframeRequest ≤ n then
        s.requestKeyframeThrottled f.peer now keyframeRequestInterval else s
    if failuresBeforeDecoderRebuild ≤ n then s.dropDecoder f.peer else s

/-- The peer of a frame takes its slot, and is no longer stalled. -/
def arrived (s : Slate) (peer : String) (now : Nat) : Slate :=
  retractStall (emit { s with lastFrame := s.lastFrame.insert peer now } (.shown peer now)) peer

def decodeFrame (s : Slate) (f : Frame) (now : Nat) : Slate :=
  let s := s.arrived f.peer now
  let s := if (s.decoders f.peer).any (· != f.codec) then s.dropDecoder f.peer else s
  if (s.decoders f.peer).isSome then s.decoded f now
  else if f.available then
    decoded { s with decoders := Function.update s.decoders f.peer (some f.codec) } f now
  else { s with lastFrame := s.lastFrame.erase f.peer }

def receive (s : Slate) (f : Frame) (now : Nat) : Slate :=
  if f.displayed then
    match admission f.peer s.lastFrame now f.pick with
    | .decode => s.decodeFrame f now
    | .evict stale => ((s.emit (.taken stale now)).drop stale).decodeFrame f now
    | .reject => s.emit (.shown f.peer now)
  else s

/-! ## Sweeps and peers that leave -/

def sweepPeer (hasSink : String → Bool) (now : Nat) (s : Slate) (entry : String × Nat) : Slate :=
  if !hasSink entry.1 then s
  else
    let quiet := now - entry.2
    if quiet < stallKeyframeAfter then s
    else
      let interval := if stallReportAfter ≤ quiet then stalledKeyframeInterval
        else keyframeRequestInterval
      let s := s.requestKeyframeThrottled entry.1 now interval
      if stallReportAfter ≤ quiet ∧ entry.1 ∉ s.stalled then
        emit { s with stalled := s.stalled.insert entry.1 () } (.stall entry.1 true)
      else s

def sweepStalls (hasSink : String → Bool) (now : Nat) (s : Slate) : Slate :=
  s.lastFrame.toList.foldl (sweepPeer hasSink now) s

def forget (s : Slate) (peer : String) : Slate :=
  (s.emit (.forgotten peer)).drop peer

def forgetAll (s : Slate) : Slate where
  decoders _ := none
  health _ := none
  lastFrame := ∅
  keyframeAsked _ := none
  stalled := ∅
  events := (s.events ++ [.forgottenAll]) ++ s.stalled.keys.map fun id => .stall id false

end Slate

/-! ## Runs -/

inductive SlateOp where
  | frame (f : Slate.Frame)
  | sweep (hasSink : String → Bool)
  | forget (peer : String)
  | forgetAll

/-- Something happens after a wait. -/
structure TimedOp where
  wait : Nat
  op : SlateOp

structure Thread where
  slate : Slate
  clock : Nat

def Thread.start : Thread :=
  ⟨.empty, 0⟩

def Thread.step (t : Thread) (o : TimedOp) : Thread where
  clock := t.clock + o.wait
  slate :=
    match o.op with
    | .frame f => t.slate.receive f (t.clock + o.wait)
    | .sweep hasSink => t.slate.sweepStalls hasSink (t.clock + o.wait)
    | .forget peer => t.slate.forget peer
    | .forgetAll => t.slate.forgetAll

/-! ## What the events say -/

/-- The last request for a keyframe of a peer that has kept its slot since. -/
def askedStep (peer : String) (asked : Option Nat) : SlateEvent → Option Nat
  | .keyframe id t => if id = peer then some t else asked
  | .taken id _ => if id = peer then none else asked
  | .forgotten id => if id = peer then none else asked
  | .forgottenAll => none
  | .shown _ _ => asked
  | .stall _ _ => asked

def lastAsked (peer : String) (events : List SlateEvent) : Option Nat :=
  events.foldl (askedStep peer) none

/-- Whether a peer was last reported stalled. -/
def reportedStep (peer : String) (stalled : Bool) : SlateEvent → Bool
  | .stall id b => if id = peer then b else stalled
  | .keyframe _ _ => stalled
  | .taken _ _ => stalled
  | .forgotten _ => stalled
  | .forgottenAll => stalled
  | .shown _ _ => stalled

def reported (peer : String) (events : List SlateEvent) : Bool :=
  events.foldl (reportedStep peer) false

/-- An event that may follow others: a slot is taken of a peer none of whose
frames was displayed of late, requests are an interval apart, and reports are of
changes only. -/
def Sound (past : List SlateEvent) : SlateEvent → Prop
  | .taken peer t => ∀ t', .shown peer t' ∈ past → t' + streamIdleEvict ≤ t
  | .keyframe peer t => ∀ t', lastAsked peer past = some t' → t' + keyframeRequestInterval ≤ t
  | .stall peer b => b = !reported peer past
  | .forgotten _ => True
  | .forgottenAll => True
  | .shown _ _ => True

def AllSound (events : List SlateEvent) : Prop :=
  ∀ past e rest, events = past ++ e :: rest → Sound past e

@[simp] theorem lastAsked_concat (peer : String) (events : List SlateEvent) (e : SlateEvent) :
    lastAsked peer (events ++ [e]) = askedStep peer (lastAsked peer events) e := by
  simp [lastAsked]

@[simp] theorem reported_concat (peer : String) (events : List SlateEvent) (e : SlateEvent) :
    reported peer (events ++ [e]) = reportedStep peer (reported peer events) e := by
  simp [reported]

theorem AllSound.concat {events : List SlateEvent} {e : SlateEvent} (h : AllSound events)
    (he : Sound events e) : AllSound (events ++ [e]) := by
  intro past e' rest heq
  rcases List.eq_nil_or_concat rest with rfl | ⟨rest, last, rfl⟩
  · obtain ⟨rfl, hlast⟩ := List.append_inj' heq rfl
    cases hlast
    exact he
  · have hsplit : events ++ [e] = (past ++ e' :: rest) ++ [last] := by
      rw [heq]
      simp
    exact h past e' rest (List.append_inj' hsplit rfl).1

theorem isSome_of_cleared {α : Type} {f : String → Option α} {p peer : String}
    (h : (Function.update f peer none p).isSome = true) : p ≠ peer ∧ (f p).isSome = true := by
  by_cases hpeer : p = peer
  · rw [hpeer, Function.update_self] at h
    cases h
  · rw [Function.update_of_ne hpeer] at h
    exact ⟨hpeer, h⟩

/-! ## The tables and the events -/

/-- The tables agree with one another and with what has happened. -/
structure Inv (s : Slate) (clock : Nat) : Prop where
  size : s.lastFrame.size ≤ maxDecodedStreams
  decoders : ∀ p, (s.decoders p).isSome = true → p ∈ s.lastFrame
  health : ∀ p, (s.health p).isSome = true → (s.decoders p).isSome = true
  stalled : ∀ p, p ∈ s.stalled → p ∈ s.lastFrame
  seen : ∀ (p : String) t, s.lastFrame[p]? = some t →
    t ≤ clock ∧ ∀ t', .shown p t' ∈ s.events → t' ≤ t
  shown : ∀ p t, .shown p t ∈ s.events → t ≤ clock
  asked : ∀ p t, lastAsked p s.events = some t → s.keyframeAsked p = some t ∧ t ≤ clock
  reported : ∀ p, reported p s.events = true ↔ p ∈ s.stalled
  sound : AllSound s.events

theorem inv_empty : Inv .empty 0 where
  size := by
    rw [Slate.empty, ExtTreeMap.size_empty]
    exact Nat.zero_le _
  decoders p h := by cases h
  health p h := by cases h
  stalled p h := absurd h ExtTreeMap.not_mem_empty
  seen p t h := by
    rw [Slate.empty, ExtTreeMap.getElem?_empty] at h
    cases h
  shown p t h := by cases h
  asked p t h := by cases h
  reported p := iff_of_false (fun h => Bool.false_ne_true h) ExtTreeMap.not_mem_empty
  sound past e rest h := by simp [Slate.empty] at h

theorem Inv.mono {s : Slate} {clock clock' : Nat} (h : Inv s clock) (hle : clock ≤ clock') :
    Inv s clock' where
  size := h.size
  decoders := h.decoders
  health := h.health
  stalled := h.stalled
  seen p t hp := ⟨(h.seen p t hp).1.trans hle, (h.seen p t hp).2⟩
  shown p t hp := (h.shown p t hp).trans hle
  asked p t hp := ⟨(h.asked p t hp).1, (h.asked p t hp).2.trans hle⟩
  reported := h.reported
  sound := h.sound

section Steps

variable {s : Slate} {peer : String} {now : Nat}

theorem Inv.requestKeyframeThrottled (h : Inv s now) {interval : Nat}
    (hinterval : keyframeRequestInterval ≤ interval) :
    Inv (s.requestKeyframeThrottled peer now interval) now := by
  rw [Slate.requestKeyframeThrottled]
  split
  · next hdue =>
    have hsound : Sound s.events (.keyframe peer now) := by
      intro t' ht'
      obtain ⟨hasked, hle⟩ := h.asked peer t' ht'
      rw [hasked, Option.all_some, decide_eq_true_eq] at hdue
      omega
    refine ⟨h.size, h.decoders, h.health, h.stalled, fun p t hp => ?_, fun p t hp => ?_,
      fun p t hp => ?_, fun p => ?_, h.sound.concat hsound⟩
    · refine ⟨(h.seen p t hp).1, fun t' ht' => (h.seen p t hp).2 t' ?_⟩
      simpa [Slate.emit] using ht'
    · refine h.shown p t ?_
      simpa [Slate.emit] using hp
    · simp only [Slate.emit, lastAsked_concat, askedStep] at hp ⊢
      by_cases hpeer : peer = p
      · subst hpeer
        rw [if_pos rfl] at hp
        cases hp
        exact ⟨Function.update_self _ _ _, Nat.le_refl _⟩
      · rw [if_neg hpeer] at hp
        rw [Function.update_of_ne (Ne.symm hpeer)]
        exact h.asked p t hp
    · simp only [Slate.emit, reported_concat, reportedStep]
      exact h.reported p
  · exact h

theorem Inv.retractStall (h : Inv s now) : Inv (s.retractStall peer) now := by
  rw [Slate.retractStall]
  split
  · next hstalled =>
    have hsound : Sound s.events (.stall peer false) := by
      rw [Sound, (h.reported peer).mpr hstalled]
      rfl
    refine ⟨h.size, h.decoders, h.health, fun p hp => ?_, fun p t hp => ?_, fun p t hp => ?_,
      fun p t hp => ?_, fun p => ?_, h.sound.concat hsound⟩
    · exact h.stalled p (ExtTreeMap.mem_of_mem_erase hp)
    · refine ⟨(h.seen p t hp).1, fun t' ht' => (h.seen p t hp).2 t' ?_⟩
      simpa [Slate.emit] using ht'
    · refine h.shown p t ?_
      simpa [Slate.emit] using hp
    · simp only [Slate.emit, lastAsked_concat, askedStep] at hp
      exact h.asked p t hp
    · simp only [Slate.emit, reported_concat, reportedStep, ExtTreeMap.mem_erase]
      by_cases hpeer : peer = p
      · simp [hpeer]
      · rw [if_neg hpeer, h.reported p]
        simp [hpeer]
  · exact h

theorem mem_retractStall {p : String} :
    p ∈ (s.retractStall peer).stalled ↔ p ∈ s.stalled ∧ p ≠ peer := by
  rw [Slate.retractStall]
  split
  · simp only [Slate.emit, ExtTreeMap.mem_erase, ne_eq, compare_eq_iff_eq]
    exact ⟨fun h => ⟨h.2, Ne.symm h.1⟩, fun h => ⟨Ne.symm h.2, h.1⟩⟩
  · next hnot =>
    refine ⟨fun hp => ⟨hp, ?_⟩, And.left⟩
    rintro rfl
    exact hnot hp

@[simp] theorem retractStall_lastFrame : (s.retractStall peer).lastFrame = s.lastFrame := by
  rw [Slate.retractStall]
  split <;> rfl

@[simp] theorem lastAsked_retractStall (p : String) :
    lastAsked p (s.retractStall peer).events = lastAsked p s.events := by
  rw [Slate.retractStall]
  split
  · exact lastAsked_concat ..
  · rfl

@[simp] theorem requestKeyframeThrottled_lastFrame (interval : Nat) :
    (s.requestKeyframeThrottled peer now interval).lastFrame = s.lastFrame := by
  rw [Slate.requestKeyframeThrottled]
  split <;> rfl

theorem Inv.emit (h : Inv s now) {e : SlateEvent} (hsound : Sound s.events e)
    (hshown : ∀ p t, e = .shown p t → t ≤ now ∧ ∀ u, s.lastFrame[p]? = some u → t ≤ u)
    (hasked : ∀ p t, askedStep p (lastAsked p s.events) e = some t →
      lastAsked p s.events = some t)
    (hreported : ∀ p b, reportedStep p b e = b) : Inv (s.emit e) now where
  size := h.size
  decoders := h.decoders
  health := h.health
  stalled := h.stalled
  seen p t hp := by
    refine ⟨(h.seen p t hp).1, fun t' ht' => ?_⟩
    rcases List.mem_append.mp ht' with hold | hnew
    · exact (h.seen p t hp).2 t' hold
    · exact (hshown p t' (List.mem_singleton.mp hnew).symm).2 t hp
  shown p t hp := by
    rcases List.mem_append.mp hp with hold | hnew
    · exact h.shown p t hold
    · exact (hshown p t (List.mem_singleton.mp hnew).symm).1
  asked p t hp := by
    rw [Slate.emit, lastAsked_concat] at hp
    exact h.asked p t (hasked p t hp)
  reported p := by
    rw [Slate.emit, reported_concat, hreported]
    exact h.reported p
  sound := h.sound.concat hsound

theorem Inv.erased (h : Inv s now) (hstalled : peer ∉ s.stalled)
    (hasked : lastAsked peer s.events = none) :
    Inv { s with
      decoders := Function.update s.decoders peer none
      health := Function.update s.health peer none
      lastFrame := s.lastFrame.erase peer
      keyframeAsked := Function.update s.keyframeAsked peer none } now where
  size := ExtTreeMap.size_erase_le.trans h.size
  decoders p hp := by
    obtain ⟨hpeer, hp⟩ := isSome_of_cleared hp
    exact ExtTreeMap.mem_erase.mpr
      ⟨fun heq => hpeer (compare_eq_iff_eq.mp heq).symm, h.decoders p hp⟩
  health p hp := by
    obtain ⟨hpeer, hp⟩ := isSome_of_cleared hp
    dsimp only
    rw [Function.update_of_ne hpeer]
    exact h.health p hp
  stalled p hp := by
    refine ExtTreeMap.mem_erase.mpr ⟨fun heq => ?_, h.stalled p hp⟩
    rw [compare_eq_iff_eq.mp heq] at hstalled
    exact hstalled hp
  seen p t hp := by
    dsimp only at hp
    rw [ExtTreeMap.getElem?_erase] at hp
    split at hp
    · cases hp
    · exact h.seen p t hp
  shown := h.shown
  asked p t hp := by
    have hpeer : p ≠ peer := by
      rintro rfl
      dsimp only at hp
      rw [hasked] at hp
      cases hp
    dsimp only
    rw [Function.update_of_ne hpeer]
    exact h.asked p t hp
  reported := h.reported
  sound := h.sound

theorem drop_eq (s : Slate) (peer : String) :
    s.drop peer = { s.retractStall peer with
      decoders := Function.update (s.retractStall peer).decoders peer none
      health := Function.update (s.retractStall peer).health peer none
      lastFrame := (s.retractStall peer).lastFrame.erase peer
      keyframeAsked := Function.update (s.retractStall peer).keyframeAsked peer none } := by
  by_cases hstalled : peer ∈ s.stalled
  · simp [Slate.drop, Slate.retractStall, Slate.emit, hstalled]
  · simp [Slate.drop, Slate.retractStall, hstalled]

@[simp] theorem drop_lastFrame : (s.drop peer).lastFrame = s.lastFrame.erase peer := by
  rw [drop_eq, retractStall_lastFrame]

theorem Inv.drop (h : Inv s now) (hasked : lastAsked peer s.events = none) :
    Inv (s.drop peer) now := by
  rw [drop_eq]
  refine h.retractStall.erased (fun hp => ?_) ?_
  · exact (mem_retractStall.mp hp).2 rfl
  · rw [lastAsked_retractStall, hasked]

theorem lastAsked_taken (t : Nat) : lastAsked peer (s.emit (.taken peer t)).events = none := by
  rw [Slate.emit, lastAsked_concat]
  exact if_pos rfl

theorem lastAsked_forgotten : lastAsked peer (s.emit (.forgotten peer)).events = none := by
  rw [Slate.emit, lastAsked_concat]
  exact if_pos rfl

theorem Inv.taken (h : Inv s now) {seen : Nat} (hseen : s.lastFrame[peer]? = some seen)
    (hquiet : streamIdleEvict ≤ now - seen) :
    Inv ((s.emit (.taken peer now)).drop peer) now := by
  refine Inv.drop (h.emit (fun t' ht' => ?_) (fun p t heq => ?_) (fun p t hp => ?_)
    fun _ _ => rfl) (lastAsked_taken now)
  · have hle := (h.seen peer seen hseen).2 t' ht'
    have hpos : 0 < streamIdleEvict := by decide
    omega
  · cases heq
  · rw [askedStep] at hp
    split at hp
    · cases hp
    · exact hp

theorem Inv.forget (h : Inv s now) : Inv (s.forget peer) now := by
  refine Inv.drop (h.emit trivial (fun p t heq => ?_) (fun p t hp => ?_)
    fun _ _ => rfl) lastAsked_forgotten
  · cases heq
  · rw [askedStep] at hp
    split at hp
    · cases hp
    · exact hp

/-! ## Frames -/

theorem Inv.dropDecoder (h : Inv s now) : Inv (s.dropDecoder peer) now where
  size := h.size
  decoders p hp := h.decoders p (isSome_of_cleared hp).2
  health p hp := by
    obtain ⟨hpeer, hp⟩ := isSome_of_cleared hp
    dsimp only [Slate.dropDecoder]
    rw [Function.update_of_ne hpeer]
    exact h.health p hp
  stalled := h.stalled
  seen := h.seen
  shown := h.shown
  asked := h.asked
  reported := h.reported
  sound := h.sound

theorem Inv.setHealth (h : Inv s now) (hdecoder : (s.decoders peer).isSome = true)
    (o : Option DecodeHealth) :
    Inv { s with health := Function.update s.health peer o } now where
  size := h.size
  decoders := h.decoders
  health p hp := by
    by_cases hpeer : p = peer
    · rw [hpeer]
      exact hdecoder
    · dsimp only at hp
      rw [Function.update_of_ne hpeer] at hp
      exact h.health p hp
  stalled := h.stalled
  seen := h.seen
  shown := h.shown
  asked := h.asked
  reported := h.reported
  sound := h.sound

theorem Inv.setDecoder (h : Inv s now) (hslot : peer ∈ s.lastFrame) (c : VideoCodec) :
    Inv { s with decoders := Function.update s.decoders peer (some c) } now where
  size := h.size
  decoders p hp := by
    by_cases hpeer : p = peer
    · rw [hpeer]
      exact hslot
    · dsimp only at hp
      rw [Function.update_of_ne hpeer] at hp
      exact h.decoders p hp
  health p hp := by
    by_cases hpeer : p = peer
    · dsimp only
      rw [hpeer, Function.update_self]
      rfl
    · dsimp only
      rw [Function.update_of_ne hpeer]
      exact h.health p hp
  stalled := h.stalled
  seen := h.seen
  shown := h.shown
  asked := h.asked
  reported := h.reported
  sound := h.sound

theorem Inv.requestWhen (h : Inv s now) (c : Prop) [Decidable c] :
    Inv (if c then s.requestKeyframeThrottled peer now keyframeRequestInterval else s) now := by
  split
  · exact h.requestKeyframeThrottled (Nat.le_refl _)
  · exact h

theorem Inv.dropDecoderWhen (h : Inv s now) (c : Prop) [Decidable c] :
    Inv (if c then s.dropDecoder peer else s) now := by
  split
  · exact h.dropDecoder
  · exact h

theorem Inv.decoded (h : Inv s now) {f : Slate.Frame}
    (hdecoder : (s.decoders f.peer).isSome = true) : Inv (s.decoded f now) now := by
  rw [Slate.decoded]
  split
  · exact h.setHealth hdecoder _
  · exact ((h.setHealth hdecoder _).requestWhen _).dropDecoderWhen _
  · exact ((h.setHealth hdecoder _).requestWhen _).dropDecoderWhen _

theorem decoded_lastFrame (f : Slate.Frame) : (s.decoded f now).lastFrame = s.lastFrame := by
  rw [Slate.decoded]
  split
  · rfl
  · dsimp only
    split <;> split <;>
      simp only [Slate.dropDecoder, requestKeyframeThrottled_lastFrame]
  · dsimp only
    split <;> split <;>
      simp only [Slate.dropDecoder, requestKeyframeThrottled_lastFrame]

/-- There is room for the peer of a frame. -/
def Room (s : Slate) (peer : String) : Prop :=
  peer ∈ s.lastFrame ∨ s.lastFrame.size < maxDecodedStreams

theorem Inv.insert (h : Inv s now) (hroom : Room s peer) :
    Inv { s with lastFrame := s.lastFrame.insert peer now } now where
  size := by
    rw [ExtTreeMap.size_insert]
    split
    · exact h.size
    · next hnew =>
      rcases hroom with hold | hlt
      · exact absurd (ExtTreeMap.contains_iff_mem.mpr hold) hnew
      · exact hlt
  decoders p hp := ExtTreeMap.mem_insert.mpr (.inr (h.decoders p hp))
  health := h.health
  stalled p hp := ExtTreeMap.mem_insert.mpr (.inr (h.stalled p hp))
  seen p t hp := by
    rw [ExtTreeMap.getElem?_insert] at hp
    split at hp
    · cases hp
      exact ⟨Nat.le_refl _, fun t' ht' => h.shown p t' ht'⟩
    · exact h.seen p t hp
  shown := h.shown
  asked := h.asked
  reported := h.reported
  sound := h.sound

theorem Inv.arrived (h : Inv s now) (hroom : Room s peer) : Inv (s.arrived peer now) now := by
  refine ((h.insert hroom).emit (e := .shown peer now) trivial (fun p t heq => ?_)
    (fun _ _ hp => hp) fun _ _ => rfl).retractStall
  cases heq
  refine ⟨Nat.le_refl _, fun u hu => ?_⟩
  rw [ExtTreeMap.getElem?_insert_self] at hu
  cases hu
  exact Nat.le_refl _

@[simp] theorem arrived_lastFrame :
    (s.arrived peer now).lastFrame = s.lastFrame.insert peer now := by
  rw [Slate.arrived, retractStall_lastFrame]
  rfl

theorem not_mem_arrived_stalled : peer ∉ (s.arrived peer now).stalled :=
  fun hp => (mem_retractStall.mp hp).2 rfl

theorem Inv.release (h : Inv s now) (hstalled : peer ∉ s.stalled)
    (hdecoder : ¬(s.decoders peer).isSome = true) :
    Inv { s with lastFrame := s.lastFrame.erase peer } now where
  size := ExtTreeMap.size_erase_le.trans h.size
  decoders p hp := by
    refine ExtTreeMap.mem_erase.mpr ⟨fun heq => ?_, h.decoders p hp⟩
    rw [compare_eq_iff_eq.mp heq] at hdecoder
    exact hdecoder hp
  health := h.health
  stalled p hp := by
    refine ExtTreeMap.mem_erase.mpr ⟨fun heq => ?_, h.stalled p hp⟩
    rw [compare_eq_iff_eq.mp heq] at hstalled
    exact hstalled hp
  seen p t hp := by
    rw [ExtTreeMap.getElem?_erase] at hp
    split at hp
    · cases hp
    · exact h.seen p t hp
  shown := h.shown
  asked := h.asked
  reported := h.reported
  sound := h.sound

/-- The slate after the arrival of a frame, and the loss of a decoder for another codec. -/
def prepared (s : Slate) (f : Slate.Frame) (now : Nat) : Slate :=
  if ((s.arrived f.peer now).decoders f.peer).any (· != f.codec) then
    (s.arrived f.peer now).dropDecoder f.peer
  else s.arrived f.peer now

theorem Inv.prepared {f : Slate.Frame} (h : Inv s now) (hroom : Room s f.peer) :
    Inv (prepared s f now) now :=
  (h.arrived hroom).dropDecoderWhen _

@[simp] theorem prepared_lastFrame (f : Slate.Frame) :
    (prepared s f now).lastFrame = s.lastFrame.insert f.peer now := by
  rw [prepared]
  split
  · exact arrived_lastFrame
  · exact arrived_lastFrame

theorem not_mem_prepared_stalled (f : Slate.Frame) : f.peer ∉ (prepared s f now).stalled := by
  rw [prepared]
  split
  · exact not_mem_arrived_stalled
  · exact not_mem_arrived_stalled

theorem decodeFrame_eq (f : Slate.Frame) :
    s.decodeFrame f now =
      if ((prepared s f now).decoders f.peer).isSome then (prepared s f now).decoded f now
      else if f.available then
        Slate.decoded { prepared s f now with
          decoders := Function.update (prepared s f now).decoders f.peer (some f.codec) } f now
      else { prepared s f now with lastFrame := (prepared s f now).lastFrame.erase f.peer } :=
  rfl

theorem Inv.decodeFrame {f : Slate.Frame} (h : Inv s now) (hroom : Room s f.peer) :
    Inv (s.decodeFrame f now) now := by
  have hprepared := h.prepared hroom
  rw [decodeFrame_eq]
  split
  · next hdecoder => exact hprepared.decoded hdecoder
  · next hnone =>
    split
    · refine (hprepared.setDecoder ?_ f.codec).decoded ?_
      · rw [prepared_lastFrame]
        exact ExtTreeMap.mem_insert_self
      · dsimp only
        rw [Function.update_self]
        rfl
    · exact hprepared.release (not_mem_prepared_stalled f) hnone

/-- A slot is kept by a frame, unless it is of the peer and there is no decoder for it. -/
theorem mem_decodeFrame {f : Slate.Frame} {p : String} (hp : p ∈ s.lastFrame) :
    p ∈ (s.decodeFrame f now).lastFrame ∨ f.peer = p ∧ f.available = false := by
  have hslot : p ∈ s.lastFrame.insert f.peer now := ExtTreeMap.mem_insert.mpr (.inr hp)
  rw [decodeFrame_eq]
  split
  · rw [decoded_lastFrame, prepared_lastFrame]
    exact .inl hslot
  · split
    · rw [decoded_lastFrame, prepared_lastFrame]
      exact .inl hslot
    · next hunavailable =>
      by_cases hpeer : f.peer = p
      · exact .inr ⟨hpeer, by simpa using hunavailable⟩
      · refine .inl (ExtTreeMap.mem_erase.mpr ⟨fun heq => ?_, ?_⟩)
        · exact hpeer (compare_eq_iff_eq.mp heq)
        · rw [prepared_lastFrame]
          exact hslot

theorem room_of_admission {f : Slate.Frame} (h : admission f.peer s.lastFrame now f.pick = .decode) :
    Room s f.peer := by
  rw [admission] at h
  split at h
  · next hmem => exact .inl hmem
  · split at h
    · next hlt => exact .inr hlt
    · split at h
      · cases h
      · split at h <;> cases h

theorem quiet_of_admission {f : Slate.Frame} {stale : String}
    (h : admission f.peer s.lastFrame now f.pick = .evict stale) :
    ∃ seen, s.lastFrame[stale]? = some seen ∧ streamIdleEvict ≤ now - seen := by
  rw [admission] at h
  split at h
  · cases h
  · split at h
    · cases h
    · split at h
      · cases h
      · next id seen hget =>
        split at h
        · next hquiet =>
          cases h
          have hmem := List.mem_of_getElem? hget
          exact ⟨seen, ExtTreeMap.mem_toList_iff_getElem?_eq_some.mp (List.mem_filter.mp hmem).1,
            hquiet⟩
        · cases h

theorem not_mem_of_admission {f : Slate.Frame}
    (h : admission f.peer s.lastFrame now f.pick = .reject) : f.peer ∉ s.lastFrame := by
  intro hmem
  rw [admission, if_pos hmem] at h
  cases h

theorem mem_of_seen {p : String} {seen : Nat} (h : s.lastFrame[p]? = some seen) :
    p ∈ s.lastFrame := by
  rw [ExtTreeMap.mem_iff_isSome_getElem?, h]
  rfl

theorem Inv.receive {f : Slate.Frame} (h : Inv s now) : Inv (s.receive f now) now := by
  rw [Slate.receive]
  split
  · split
    · next hchosen => exact h.decodeFrame (room_of_admission hchosen)
    · next stale hchosen =>
      obtain ⟨seen, hseen, hquiet⟩ := quiet_of_admission hchosen
      refine (h.taken hseen hquiet).decodeFrame (.inr ?_)
      have hsize : (s.lastFrame.erase stale).size = s.lastFrame.size - 1 := by
        rw [ExtTreeMap.size_erase, if_pos (ExtTreeMap.contains_iff_mem.mpr (mem_of_seen hseen))]
      have hfour : 0 < maxDecodedStreams := by decide
      have hle := h.size
      rw [drop_lastFrame, show (s.emit (.taken stale now)).lastFrame = s.lastFrame from rfl, hsize]
      omega
    · next hchosen =>
      refine h.emit trivial (fun p t heq => ?_) (fun _ _ hp => hp) fun _ _ => rfl
      cases heq
      refine ⟨Nat.le_refl _, fun u hu => absurd (mem_of_seen hu) (not_mem_of_admission hchosen)⟩
  · exact h

theorem Inv.lost_receive {f : Slate.Frame} {p : String} (h : Inv s now) (hp : p ∈ s.lastFrame)
    (hlost : p ∉ (s.receive f now).lastFrame) :
    (f.peer = p ∧ f.available = false) ∨
      ∀ t, .shown p t ∈ s.events → t + streamIdleEvict ≤ now := by
  rw [Slate.receive] at hlost
  split at hlost
  · split at hlost
    · exact .inl ((mem_decodeFrame hp).resolve_left hlost)
    · next stale hchosen =>
      obtain ⟨seen, hseen, hquiet⟩ := quiet_of_admission hchosen
      by_cases hstale : stale = p
      · subst hstale
        refine .inr fun t ht => ?_
        have hle := (h.seen stale seen hseen).2 t ht
        have hpos : 0 < streamIdleEvict := by decide
        omega
      · have hkept : p ∈ ((s.emit (.taken stale now)).drop stale).lastFrame := by
          rw [drop_lastFrame]
          exact ExtTreeMap.mem_erase.mpr ⟨fun heq => hstale (compare_eq_iff_eq.mp heq), hp⟩
        exact .inl ((mem_decodeFrame hkept).resolve_left hlost)
    · exact absurd hp hlost
  · exact absurd hp hlost

/-! ## Sweeps -/

theorem Inv.reportStall (h : Inv s now) (hslot : peer ∈ s.lastFrame) (hnot : peer ∉ s.stalled) :
    Inv (Slate.emit { s with stalled := s.stalled.insert peer () } (.stall peer true)) now where
  size := h.size
  decoders := h.decoders
  health := h.health
  stalled p hp := by
    rcases ExtTreeMap.mem_insert.mp hp with heq | hold
    · rw [← compare_eq_iff_eq.mp heq]
      exact hslot
    · exact h.stalled p hold
  seen p t hp := by
    refine ⟨(h.seen p t hp).1, fun t' ht' => (h.seen p t hp).2 t' ?_⟩
    simpa [Slate.emit] using ht'
  shown p t hp := by
    refine h.shown p t ?_
    simpa [Slate.emit] using hp
  asked p t hp := by
    simp only [Slate.emit, lastAsked_concat, askedStep] at hp
    exact h.asked p t hp
  reported p := by
    simp only [Slate.emit, reported_concat, reportedStep, ExtTreeMap.mem_insert,
      compare_eq_iff_eq]
    by_cases hpeer : peer = p
    · simp [hpeer]
    · rw [if_neg hpeer, h.reported p]
      simp [hpeer]
  sound := by
    refine h.sound.concat ?_
    have hfalse : DecodeSlate.reported peer s.events = false :=
      Bool.eq_false_iff.mpr fun htrue => hnot ((h.reported peer).mp htrue)
    rw [Sound, hfalse]
    rfl

theorem sweepPeer_spec (hasSink : String → Bool) {entry : String × Nat} (h : Inv s now)
    (hslot : entry.1 ∈ s.lastFrame) :
    Inv (s.sweepPeer hasSink now entry) now ∧
      (s.sweepPeer hasSink now entry).lastFrame = s.lastFrame := by
  rw [Slate.sweepPeer]
  split
  · exact ⟨h, rfl⟩
  · dsimp only
    split
    · exact ⟨h, rfl⟩
    · have hinterval : keyframeRequestInterval ≤
          if stallReportAfter ≤ now - entry.2 then stalledKeyframeInterval
          else keyframeRequestInterval := by
        split <;> decide
      generalize (if stallReportAfter ≤ now - entry.2 then stalledKeyframeInterval
        else keyframeRequestInterval) = interval at hinterval ⊢
      have hasked : Inv (s.requestKeyframeThrottled entry.1 now interval) now :=
        h.requestKeyframeThrottled hinterval
      split
      · next hreport =>
        refine ⟨hasked.reportStall ?_ hreport.2, requestKeyframeThrottled_lastFrame _⟩
        rw [requestKeyframeThrottled_lastFrame]
        exact hslot
      · exact ⟨hasked, requestKeyframeThrottled_lastFrame _⟩

theorem sweepStalls_spec (hasSink : String → Bool) (h : Inv s now) :
    Inv (s.sweepStalls hasSink now) now ∧
      (s.sweepStalls hasSink now).lastFrame = s.lastFrame := by
  -- The table does not change while it is walked, so every entry still has its slot.
  have hwalk : ∀ (entries : List (String × Nat)) (s' : Slate), Inv s' now →
      (∀ e ∈ entries, e.1 ∈ s'.lastFrame) →
      Inv (entries.foldl (Slate.sweepPeer hasSink now) s') now ∧
        (entries.foldl (Slate.sweepPeer hasSink now) s').lastFrame = s'.lastFrame := by
    intro entries
    induction entries with
    | nil => exact fun s' h' _ => ⟨h', rfl⟩
    | cons entry entries ih =>
      intro s' h' hall
      obtain ⟨hnext, hsame⟩ := sweepPeer_spec hasSink h' (hall entry (List.mem_cons_self ..))
      have hrest : ∀ e ∈ entries, e.1 ∈ (s'.sweepPeer hasSink now entry).lastFrame := by
        intro e he
        rw [hsame]
        exact hall e (List.mem_cons_of_mem _ he)
      obtain ⟨hinv, hlast⟩ := ih _ hnext hrest
      exact ⟨hinv, hlast.trans hsame⟩
  refine hwalk _ s h fun e he => ?_
  exact mem_of_seen (ExtTreeMap.mem_toList_iff_getElem?_eq_some.mp he)

/-! ## Everybody is forgotten -/

theorem allSound_retract (ids : List String) (hids : ids.Nodup) {events : List SlateEvent}
    (h : AllSound events) (hreported : ∀ p, reported p events = true ↔ p ∈ ids) :
    AllSound (events ++ ids.map fun id => .stall id false) ∧
      ∀ p, reported p (events ++ ids.map fun id => .stall id false) = false := by
  induction ids generalizing events with
  | nil =>
    rw [List.map_nil, List.append_nil]
    refine ⟨h, fun p => Bool.eq_false_iff.mpr fun htrue => ?_⟩
    exact List.not_mem_nil ((hreported p).mp htrue)
  | cons id ids ih =>
    obtain ⟨hid, hrest⟩ := List.nodup_cons.mp hids
    have hsound : Sound events (.stall id false) := by
      rw [Sound, (hreported id).mpr (List.mem_cons_self ..)]
      rfl
    have hnext : ∀ p, reported p (events ++ [.stall id false]) = true ↔ p ∈ ids := by
      intro p
      rw [reported_concat, reportedStep]
      by_cases hp : id = p
      · subst hp
        rw [if_pos rfl]
        exact iff_of_false Bool.false_ne_true hid
      · rw [if_neg hp, hreported p, List.mem_cons]
        exact ⟨fun hor => hor.resolve_left fun heq => hp heq.symm, .inr⟩
    have htail := ih hrest (h.concat hsound) hnext
    rw [List.append_assoc] at htail
    exact htail

theorem lastAsked_retract (ids : List String) (p : String) (events : List SlateEvent) :
    lastAsked p (events ++ ids.map fun id => .stall id false) = lastAsked p events := by
  induction ids generalizing events with
  | nil => rw [List.map_nil, List.append_nil]
  | cons id ids ih =>
    have htail := ih (events ++ [.stall id false])
    rw [List.append_assoc, lastAsked_concat] at htail
    exact htail

theorem Inv.forgetAll (h : Inv s now) : Inv s.forgetAll now := by
  have hbefore : Inv (s.emit .forgottenAll) now :=
    h.emit trivial (fun p t heq => by cases heq) (fun p t hp => by cases hp) fun _ _ => rfl
  obtain ⟨hsound, hreported⟩ := allSound_retract s.stalled.keys ExtTreeMap.nodup_keys
    hbefore.sound fun p => (hbefore.reported p).trans ExtTreeMap.mem_keys.symm
  refine ⟨Nat.zero_le _, fun p hp => ?_, fun p hp => ?_, fun p hp => ?_, fun p t hp => ?_,
    fun p t hp => ?_, fun p t hp => ?_, fun p => ?_, hsound⟩
  · cases hp
  · cases hp
  · exact absurd hp ExtTreeMap.not_mem_empty
  · rw [Slate.forgetAll, ExtTreeMap.getElem?_empty] at hp
    cases hp
  · refine h.shown p t ?_
    simpa [Slate.forgetAll] using hp
  · rw [Slate.forgetAll, lastAsked_retract, lastAsked_concat] at hp
    cases hp
  · refine iff_of_false (fun htrue => ?_) ExtTreeMap.not_mem_empty
    exact Bool.false_ne_true ((hreported p).symm.trans htrue)

end Steps

/-! ## Runs -/

theorem Inv.step {t : Thread} (h : Inv t.slate t.clock) (o : TimedOp) :
    Inv (t.step o).slate (t.step o).clock := by
  have hlater : Inv t.slate (t.clock + o.wait) := h.mono (Nat.le_add_right ..)
  rw [Thread.step]
  split
  · exact hlater.receive
  · exact (sweepStalls_spec _ hlater).1
  · exact hlater.forget
  · exact hlater.forgetAll

theorem inv_run (ops : List TimedOp) :
    Inv (run Thread.step .start ops).slate (run Thread.step .start ops).clock :=
  run_inv (fun t : Thread => Inv t.slate t.clock) inv_empty fun _ o h => h.step o

/-- What may take a slot from a peer: that it is forgotten, a frame of its own for
which there is no decoder, or a frame of another while it was not displayed of late. -/
def MayLose (t : Thread) (o : TimedOp) (p : String) : Prop :=
  match o.op with
  | .frame f => (f.peer = p ∧ f.available = false) ∨
      ∀ t', .shown p t' ∈ t.slate.events → t' + streamIdleEvict ≤ t.clock + o.wait
  | .sweep _ => False
  | .forget q => q = p
  | .forgetAll => True

theorem Inv.mayLose {t : Thread} (h : Inv t.slate t.clock) {o : TimedOp} {p : String}
    (hp : p ∈ t.slate.lastFrame) (hlost : p ∉ (t.step o).slate.lastFrame) : MayLose t o p := by
  have hlater : Inv t.slate (t.clock + o.wait) := h.mono (Nat.le_add_right ..)
  obtain ⟨wait, op⟩ := o
  cases op with
  | frame f => exact hlater.lost_receive hp hlost
  | sweep hasSink =>
    refine hlost ?_
    have hsame := (sweepStalls_spec hasSink hlater).2
    rw [Thread.step]
    dsimp only at hsame ⊢
    rw [hsame]
    exact hp
  | forget q =>
    by_contra hne
    refine hlost ?_
    rw [Thread.step]
    dsimp only
    rw [Slate.forget, drop_lastFrame]
    exact ExtTreeMap.mem_erase.mpr ⟨fun heq => hne (compare_eq_iff_eq.mp heq), hp⟩
  | forgetAll => exact trivial

/-- In every run at most four peers hold a slot; who has a decoder, a health entry or
a stall mark, and who was last reported stalled, holds one; a slot is taken only of a
peer that was not displayed of late; requests for keyframes of a peer that keeps its
slot are an interval apart; and reports of a peer alternate, the first of a stall. -/
theorem slate_kept (ops : List TimedOp) (o : TimedOp) :
    (run Thread.step .start ops).slate.lastFrame.size ≤ maxDecodedStreams ∧
    (∀ p, ((run Thread.step .start ops).slate.decoders p).isSome = true ∨
        ((run Thread.step .start ops).slate.health p).isSome = true ∨
        p ∈ (run Thread.step .start ops).slate.stalled ∨
        reported p (run Thread.step .start ops).slate.events = true →
      p ∈ (run Thread.step .start ops).slate.lastFrame) ∧
    (∀ p, p ∈ (run Thread.step .start ops).slate.lastFrame →
      p ∉ ((run Thread.step .start ops).step o).slate.lastFrame →
      MayLose (run Thread.step .start ops) o p) ∧
    AllSound (run Thread.step .start ops).slate.events := by
  have h := inv_run ops
  refine ⟨h.size, fun p hp => ?_, fun p hp hlost => h.mayLose hp hlost, h.sound⟩
  rcases hp with hdecoder | hhealth | hstalled | hreported
  · exact h.decoders p hdecoder
  · exact h.decoders p (h.health p hhealth)
  · exact h.stalled p hstalled
  · exact h.stalled p ((h.reported p).mp hreported)

/-! ## A peer that comes back -/

def brokenFrame : TimedOp :=
  ⟨0, .frame ⟨"peer", .h264, true, true, .error, 0⟩⟩

/-- Three frames that fail, the peer leaves, and three more come in. -/
def leavesAndReturns : List TimedOp :=
  [brokenFrame, brokenFrame, brokenFrame, ⟨0, .forget "peer"⟩,
    brokenFrame, brokenFrame, brokenFrame]

/-- A peer that was forgotten in between is asked for two keyframes at once. -/
theorem keyframe_asked_twice :
    ∃ past mid : List SlateEvent, ∃ t t' : Nat,
      (run Thread.step .start leavesAndReturns).slate.events =
        past ++ .keyframe "peer" t :: mid ++ [.keyframe "peer" t'] ∧
      ¬t + keyframeRequestInterval ≤ t' := by
  refine ⟨[.shown "peer" 0, .shown "peer" 0, .shown "peer" 0],
    [.forgotten "peer", .shown "peer" 0, .shown "peer" 0, .shown "peer" 0], 0, 0, ?_, by decide⟩
  decide +kernel

end DecodeSlate
end ConquerD.Client
