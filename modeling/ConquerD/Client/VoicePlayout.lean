import ConquerD.Client.CallController

/-!
# Client: voice playout

A peer's frames wait in a queue of its own. Playout starts once enough of them have come
in, and from then on takes one in each 20 ms slot, asking for concealment where the queue
is empty. Whether such a slot was late audio is known when the peer's next frame comes in.
Each metrics window retunes how many frames are waited for. Times are in nanoseconds; the
two ratios of underruns to frames are compared as fractions.
-/

namespace ConquerD.Client.CallController

open Std (ExtTreeMap)
open Lib.Run

abbrev OpusFrame := List UInt8

def minJitterDepth : Nat := 2
def maxJitterDepth : Nat := 12
def maxPinnedDepth : Nat := 20
def jitterShrinkStreak : Nat := 5
def maxUnderrunGapFrames : Nat := maxJitterDepth

/-- The depth and the streak of smooth windows after a window. -/
def nextJitterDepth (depth lowStreak frames underruns : Nat) : Nat × Nat :=
  if frames = 0 then (depth, lowStreak)
  else if frames < underruns * 20 ∧ depth < maxJitterDepth then (depth + 1, 0)
  else if underruns * 200 < frames then
    if jitterShrinkStreak ≤ lowStreak + 1 ∧ minJitterDepth < depth then (depth - 1, 0)
    else (depth, lowStreak + 1)
  else (depth, 0)

/-- What is kept of a peer's audio. The source has a map for each field; the flag and the
count are only written for a peer with a queue, and go with it. -/
structure Voice where
  queue : List OpusFrame
  playoutStarted : Bool
  drySlots : Nat

namespace Voice

def new : Voice where
  queue := []
  playoutStarted := false
  drySlots := 0

/-- A frame comes in, and the oldest are dropped beyond the cap. -/
def push (v : Voice) (opusData : OpusFrame) (maxDepth : Nat) : Voice where
  queue := (v.queue ++ [opusData]).drop (v.queue.length + 1 - maxDepth)
  playoutStarted := v.playoutStarted
  drySlots := 0

/-- One slot of a peer: what is kept of it, nothing when it has gone silent, and what is
decoded, where `some none` asks for concealment. -/
def advance (v : Voice) (jitterDepth : Nat) (recentlyActive : Bool) :
    Option Voice × Option (Option OpusFrame) :=
  if v.playoutStarted = false ∧ v.queue.length < jitterDepth then (some v, none)
  else
    match v.queue with
    | frame :: queue => (some ⟨queue, true, v.drySlots⟩, some (some frame))
    | [] =>
      if recentlyActive then (some ⟨[], true, v.drySlots + 1⟩, some none) else (none, none)

end Voice

/-- The controller with its playout; `decoded` is what was handed to the decoders. -/
structure VoiceController extends Controller where
  voices : ExtTreeMap String Voice
  jitterDepth : Nat
  jitterAdaptive : Bool
  playoutFrames : Nat
  playoutUnderruns : Nat
  jitterLowStreak : Nat
  /-- There is an audio pipeline. -/
  audio : Bool
  decoded : List (String × Option OpusFrame)

namespace VoiceController

def new : VoiceController where
  roomPeerLastAudio := ∅
  events := []
  voices := ∅
  jitterDepth := 3
  jitterAdaptive := true
  playoutFrames := 0
  playoutUnderruns := 0
  jitterLowStreak := 0
  audio := false
  decoded := []

variable (c : VoiceController)

def maxDepth : Nat := max (c.jitterDepth * 8) 16

def voiceOf (peerId : String) : Voice := (c.voices[peerId]?).getD .new

/-- The dry slots a frame of the peer settles as late audio. -/
def lateSlots (peerId : String) : Nat :=
  if (c.voiceOf peerId).drySlots ≤ maxUnderrunGapFrames then (c.voiceOf peerId).drySlots else 0

def receive (peerId : String) (opusData : OpusFrame) (now : Nat) : VoiceController :=
  { c with
    toController := c.toController.handleRoomAudio peerId now
    playoutFrames := c.playoutFrames + c.lateSlots peerId
    playoutUnderruns := c.playoutUnderruns + c.lateSlots peerId
    voices := c.voices.insert peerId ((c.voiceOf peerId).push opusData c.maxDepth) }

def recentlyActive (peerId : String) (now : Nat) : Bool :=
  (c.roomPeerLastAudio[peerId]?).any fun t => decide (now - t < peerSilenceTimeout)

def turn (peerId : String) (now : Nat) : Option Voice × Option (Option OpusFrame) :=
  match c.voices[peerId]? with
  | none => (none, none)
  | some v => v.advance c.jitterDepth (c.recentlyActive peerId now)

/-- One slot of every peer, as of `now`. -/
def advanceVoiceQueues (now : Nat) : VoiceController :=
  let toDecode := c.voices.keys.filterMap fun peerId => (c.turn peerId now).2.map (peerId, ·)
  { c with
    voices := c.voices.filterMap fun peerId _ => (c.turn peerId now).1
    playoutFrames := c.playoutFrames + toDecode.countP (·.2.isSome)
    decoded := c.decoded ++ toDecode }

def tickPlayout (now : Nat) : VoiceController :=
  if c.audio then c.advanceVoiceQueues now else c

def adaptJitterBuffer : Nat × Nat :=
  if !c.jitterAdaptive || !c.audio || c.playoutFrames == 0 then (c.jitterDepth, c.jitterLowStreak)
  else nextJitterDepth c.jitterDepth c.jitterLowStreak c.playoutFrames c.playoutUnderruns

def metricsTick : VoiceController :=
  { c with
    jitterDepth := c.adaptJitterBuffer.1
    jitterLowStreak := c.adaptJitterBuffer.2
    playoutFrames := 0
    playoutUnderruns := 0 }

def setJitterDepth (depth : Nat) : VoiceController :=
  { c with jitterDepth := min (max depth minJitterDepth) maxPinnedDepth, jitterAdaptive := false }

def removePeer (peerId : String) : VoiceController :=
  { c with
    toController := c.toController.handleRemovePeer peerId
    voices := c.voices.erase peerId }

/-- Stopping drops the pipeline and leaves the queues. -/
def stopAudio : VoiceController :=
  { c with toController := c.toController.handleStopAudio, audio := false }

end VoiceController

/-! ## Runs -/

inductive VoiceOp where
  | roomAudio (peerId : String) (opusData : OpusFrame)
  | playoutTick
  | speakingTick
  | metricsTick
  | setJitterDepth (depth : Nat)
  | removePeer (peerId : String)
  | startAudio
  | stopAudio

/-- Something happens after a wait. -/
structure TimedVoiceOp where
  wait : Nat
  op : VoiceOp

structure VoiceCall where
  controller : VoiceController
  clock : Nat

namespace VoiceCall

def start : VoiceCall where
  controller := .new
  clock := 0

def step (k : VoiceCall) (o : TimedVoiceOp) : VoiceCall where
  clock := k.clock + o.wait
  controller :=
    match o.op with
    | .roomAudio peerId opusData => k.controller.receive peerId opusData (k.clock + o.wait)
    | .playoutTick => k.controller.tickPlayout (k.clock + o.wait)
    | .speakingTick =>
      { k.controller with
        toController := k.controller.toController.speakingTick (k.clock + o.wait) }
    | .metricsTick => k.controller.metricsTick
    | .setJitterDepth depth => k.controller.setJitterDepth depth
    | .removePeer peerId => k.controller.removePeer peerId
    | .startAudio => { k.controller with audio := true }
    | .stopAudio => k.controller.stopAudio

variable (k : VoiceCall) (peerId : String)

/-- What the decoder of a peer was asked for, in order. -/
def slotsOf (decoded : List (String × Option OpusFrame)) : List (Option OpusFrame) :=
  decoded.filterMap fun e => if e.1 = peerId then some e.2 else none

/-- The frames of a peer that were decoded, in order. -/
def played : List OpusFrame := (slotsOf peerId k.controller.decoded).filterMap id

def waiting : List OpusFrame := (k.controller.voiceOf peerId).queue

/-- The frames of a peer that came in. -/
def arrivals (ops : List TimedVoiceOp) : List OpusFrame :=
  ops.filterMap fun o =>
    match o.op with
    | .roomAudio id opusData => if id = peerId then some opusData else none
    | _ => none

/-- Neither a full queue nor a removal drops a frame of the peer. -/
def Keeps (o : TimedVoiceOp) : Prop :=
  match o.op with
  | .roomAudio id _ => id = peerId → (k.waiting peerId).length < k.controller.maxDepth
  | .removePeer id => id = peerId → k.waiting peerId = []
  | _ => True

end VoiceCall

/-! ## One slot of one peer -/

theorem Voice.advance_cases (v : Voice) (jitterDepth : Nat) (recentlyActive : Bool) :
    ((v.playoutStarted = false ∧ v.queue.length < jitterDepth) ∧
      v.advance jitterDepth recentlyActive = (some v, none)) ∨
    (¬(v.playoutStarted = false ∧ v.queue.length < jitterDepth) ∧
      ((∃ frame queue, v.queue = frame :: queue ∧ v.advance jitterDepth recentlyActive =
          (some ⟨queue, true, v.drySlots⟩, some (some frame))) ∨
        (v.queue = [] ∧ recentlyActive = true ∧ v.advance jitterDepth recentlyActive =
          (some ⟨[], true, v.drySlots + 1⟩, some none)) ∨
        (v.queue = [] ∧ recentlyActive = false ∧
          v.advance jitterDepth recentlyActive = (none, none)))) := by
  unfold Voice.advance
  by_cases hwait : v.playoutStarted = false ∧ v.queue.length < jitterDepth
  · exact .inl ⟨hwait, if_pos hwait⟩
  · refine .inr ⟨hwait, ?_⟩
    rw [if_neg hwait]
    cases v.queue with
    | cons frame queue => exact .inl ⟨frame, queue, rfl, rfl⟩
    | nil =>
      cases recentlyActive with
      | true => exact .inr (.inl ⟨rfl, rfl, rfl⟩)
      | false => exact .inr (.inr ⟨rfl, rfl, rfl⟩)

namespace VoiceCall

variable {k : VoiceCall} {peerId : String} {o : TimedVoiceOp}

theorem slotsOf_append (l l' : List (String × Option OpusFrame)) :
    slotsOf peerId (l ++ l') = slotsOf peerId l ++ slotsOf peerId l' :=
  List.filterMap_append ..

theorem slotsOf_filterMap {ids : List String} (h : ids.Nodup)
    (g : String → Option (Option OpusFrame)) :
    slotsOf peerId (ids.filterMap fun id => (g id).map (id, ·)) =
      if peerId ∈ ids then (g peerId).toList else [] := by
  induction ids with
  | nil => rfl
  | cons id ids ih =>
    obtain ⟨hid, hrest⟩ := List.nodup_cons.mp h
    have hsplit : (id :: ids).filterMap (fun i => (g i).map (i, ·)) =
        ((g id).map (id, ·)).toList ++ ids.filterMap fun i => (g i).map (i, ·) := by
      cases hslot : g id with
      | none => simp [hslot]
      | some slot => simp [hslot]
    rw [hsplit, slotsOf_append, ih hrest]
    by_cases hpeer : id = peerId
    · subst hpeer
      rw [if_neg hid, if_pos (List.mem_cons_self ..), List.append_nil]
      cases g id with
      | none => rfl
      | some slot => simp [slotsOf]
    · have hmem : peerId ∈ id :: ids ↔ peerId ∈ ids :=
        ⟨fun hor => (List.mem_cons.mp hor).resolve_left (Ne.symm hpeer), List.mem_cons_of_mem _⟩
      have hother : slotsOf peerId ((g id).map (id, ·)).toList = [] := by
        cases g id with
        | none => rfl
        | some slot => simp [slotsOf, hpeer]
      simp only [hother, List.nil_append, hmem]

/-- What a step leaves of a peer, and what its decoder was asked for by then. -/
inductive Moved (k : VoiceCall) (o : TimedVoiceOp) (peerId : String) :
    Option Voice → List (Option OpusFrame) → Prop
  | heard (opusData : OpusFrame) (hop : o.op = .roomAudio peerId opusData) :
    Moved k o peerId
      (some ((k.controller.voiceOf peerId).push opusData k.controller.maxDepth))
      (slotsOf peerId k.controller.decoded)
  | slot (hop : o.op = .playoutTick) :
    Moved k o peerId (k.controller.turn peerId (k.clock + o.wait)).1
      (slotsOf peerId k.controller.decoded ++
        (k.controller.turn peerId (k.clock + o.wait)).2.toList)
  | removed (hop : o.op = .removePeer peerId) :
    Moved k o peerId none (slotsOf peerId k.controller.decoded)
  | same (hframe : ∀ opusData, o.op ≠ .roomAudio peerId opusData)
      (hremove : o.op ≠ .removePeer peerId) :
    Moved k o peerId (k.controller.voices[peerId]?) (slotsOf peerId k.controller.decoded)

theorem voices_advance (c : VoiceController) (now : Nat) :
    (c.advanceVoiceQueues now).voices[peerId]? = (c.turn peerId now).1 := by
  dsimp only [VoiceController.advanceVoiceQueues]
  rw [ExtTreeMap.getElem?_filterMap', VoiceController.turn]
  cases c.voices[peerId]? with
  | none => rfl
  | some v => rfl

theorem slots_advance (c : VoiceController) (now : Nat) :
    slotsOf peerId (c.advanceVoiceQueues now).decoded =
      slotsOf peerId c.decoded ++ (c.turn peerId now).2.toList := by
  dsimp only [VoiceController.advanceVoiceQueues]
  rw [slotsOf_append, slotsOf_filterMap ExtTreeMap.nodup_keys]
  split
  · rfl
  · next hkey =>
    have hnone : c.voices[peerId]? = none :=
      ExtTreeMap.getElem?_eq_none fun hmem => hkey (ExtTreeMap.mem_keys.mpr hmem)
    rw [VoiceController.turn, hnone]
    rfl

theorem moved (k : VoiceCall) (o : TimedVoiceOp) (peerId : String) :
    Moved k o peerId ((k.step o).controller.voices[peerId]?)
      (slotsOf peerId (k.step o).controller.decoded) := by
  obtain ⟨wait, op⟩ := o
  cases op with
  | roomAudio id opusData =>
    by_cases hpeer : id = peerId
    · subst hpeer
      have hvoice : (k.step ⟨wait, .roomAudio id opusData⟩).controller.voices[id]? =
          some ((k.controller.voiceOf id).push opusData k.controller.maxDepth) :=
        ExtTreeMap.getElem?_insert_self
      rw [hvoice]
      exact .heard opusData rfl
    · have hvoice : (k.step ⟨wait, .roomAudio id opusData⟩).controller.voices[peerId]? =
          k.controller.voices[peerId]? := by
        dsimp only [VoiceCall.step, VoiceController.receive]
        rw [ExtTreeMap.getElem?_insert, if_neg fun h => hpeer (compare_eq_iff_eq.mp h)]
      rw [hvoice]
      exact .same (fun _ heq => hpeer (by cases heq; rfl)) (by simp)
  | playoutTick =>
    dsimp only [VoiceCall.step, VoiceController.tickPlayout]
    split
    · rw [voices_advance, slots_advance]
      exact .slot rfl
    · exact .same (by simp) (by simp)
  | removePeer id =>
    by_cases hpeer : id = peerId
    · subst hpeer
      have hvoice : (k.step ⟨wait, .removePeer id⟩).controller.voices[id]? = none :=
        ExtTreeMap.getElem?_erase_self
      rw [hvoice]
      exact .removed rfl
    · have hvoice : (k.step ⟨wait, .removePeer id⟩).controller.voices[peerId]? =
          k.controller.voices[peerId]? := by
        dsimp only [VoiceCall.step, VoiceController.removePeer]
        rw [ExtTreeMap.getElem?_erase, if_neg fun h => hpeer (compare_eq_iff_eq.mp h)]
      rw [hvoice]
      exact .same (by simp) fun heq => hpeer (by cases heq; rfl)
  | metricsTick => exact .same (by simp) (by simp)
  | speakingTick => exact .same (by simp) (by simp)
  | setJitterDepth depth => exact .same (by simp) (by simp)
  | startAudio => exact .same (by simp) (by simp)
  | stopAudio => exact .same (by simp) (by simp)

/-! ## The account of a peer's frames -/

theorem arrivals_append (ops ops' : List TimedVoiceOp) :
    arrivals peerId (ops ++ ops') = arrivals peerId ops ++ arrivals peerId ops' :=
  List.filterMap_append ..

theorem turn_account (now : Nat) :
    (k.controller.turn peerId now).2.toList.filterMap id ++
      ((k.controller.turn peerId now).1.getD .new).queue = k.waiting peerId := by
  unfold VoiceController.turn waiting VoiceController.voiceOf
  cases k.controller.voices[peerId]? with
  | none => rfl
  | some v =>
    dsimp only [Option.getD_some]
    rcases v.advance_cases k.controller.jitterDepth (k.controller.recentlyActive peerId now) with
      ⟨-, heq⟩ | ⟨-, ⟨frame, queue, hqueue, heq⟩ | ⟨hqueue, -, heq⟩ | ⟨hqueue, -, heq⟩⟩
    · rw [heq]
      rfl
    · rw [heq, hqueue]
      rfl
    · rw [heq, hqueue]
      rfl
    · rw [heq, hqueue]
      rfl

theorem Moved.account {voice : Option Voice} {slots : List (Option OpusFrame)}
    (h : Moved k o peerId voice slots) :
    (slots.filterMap id ++ (voice.getD .new).queue).Sublist
        (k.played peerId ++ k.waiting peerId ++ arrivals peerId [o]) ∧
      (slots.filterMap id ++ (voice.getD .new).queue =
        k.played peerId ++ k.waiting peerId ++ arrivals peerId [o] ↔ k.Keeps peerId o) := by
  obtain ⟨wait, op⟩ := o
  cases h with
  | heard opusData hop =>
    dsimp only at hop
    subst hop
    have harrived : arrivals peerId [⟨wait, .roomAudio peerId opusData⟩] = [opusData] := by
      simp [arrivals]
    rw [harrived, List.append_assoc]
    change (k.played peerId ++ (k.waiting peerId ++ [opusData]).drop
        ((k.waiting peerId).length + 1 - k.controller.maxDepth)).Sublist _ ∧
      (k.played peerId ++ (k.waiting peerId ++ [opusData]).drop
        ((k.waiting peerId).length + 1 - k.controller.maxDepth) = _ ↔ _)
    rw [List.append_cancel_left_eq]
    refine ⟨(List.drop_sublist _ _).append_left _, fun hall _ => ?_, fun hkeeps => ?_⟩
    · have hlen := congrArg List.length hall
      rw [List.length_drop, List.length_append, List.length_singleton] at hlen
      omega
    · have hlt : (k.waiting peerId).length < k.controller.maxDepth := hkeeps rfl
      rw [Nat.sub_eq_zero_of_le hlt, List.drop_zero]
  | slot hop =>
    dsimp only at hop
    subst hop
    have hnone : arrivals peerId [⟨wait, .playoutTick⟩] = [] := rfl
    rw [hnone, List.append_nil, List.filterMap_append, List.append_assoc, turn_account]
    exact ⟨List.Sublist.refl _, iff_of_true rfl trivial⟩
  | removed hop =>
    dsimp only at hop
    subst hop
    have hnone : arrivals peerId [⟨wait, .removePeer peerId⟩] = [] := rfl
    rw [hnone, List.append_nil]
    refine ⟨(List.nil_sublist _).append_left _, fun hall _ => ?_, fun hkeeps => ?_⟩
    · exact (List.append_cancel_left hall).symm
    · rw [hkeeps rfl]
      rfl
  | same hframe hremove =>
    have hnone : arrivals peerId [⟨wait, op⟩] = [] := by
      cases op with
      | roomAudio id opusData =>
        have hne : id ≠ peerId := fun heq => hframe opusData (by rw [heq])
        simp [arrivals, hne]
      | _ => rfl
    have hkeeps : k.Keeps peerId ⟨wait, op⟩ := by
      cases op with
      | roomAudio id opusData => exact fun heq => absurd (by rw [heq]) (hframe opusData)
      | removePeer id => exact fun heq => absurd (by rw [heq]) hremove
      | _ => trivial
    rw [hnone, List.append_nil]
    exact ⟨List.Sublist.refl _, iff_of_true rfl hkeeps⟩

theorem account_run (k : VoiceCall) (ops : List TimedVoiceOp) (peerId : String) :
    ((run step k ops).played peerId ++ (run step k ops).waiting peerId).Sublist
        (k.played peerId ++ k.waiting peerId ++ arrivals peerId ops) ∧
      ((run step k ops).played peerId ++ (run step k ops).waiting peerId =
          k.played peerId ++ k.waiting peerId ++ arrivals peerId ops ↔
        Along step (fun k o => k.Keeps peerId o) k ops) := by
  induction ops generalizing k with
  | nil =>
    have hnone : arrivals peerId [] = [] := rfl
    rw [hnone, List.append_nil]
    exact ⟨List.Sublist.refl _, iff_of_true rfl trivial⟩
  | cons o ops ih =>
    have hstep := (moved k o peerId).account
    change ((k.step o).played peerId ++ (k.step o).waiting peerId).Sublist _ ∧
      ((k.step o).played peerId ++ (k.step o).waiting peerId = _ ↔ _) at hstep
    have hsplit : k.played peerId ++ k.waiting peerId ++ arrivals peerId (o :: ops) =
        k.played peerId ++ k.waiting peerId ++ arrivals peerId [o] ++ arrivals peerId ops := by
      rw [← List.singleton_append, arrivals_append, List.append_assoc _ _ (arrivals peerId ops)]
    have hrest := ih (k.step o)
    have hafter := hstep.1.append_right (arrivals peerId ops)
    rw [run_cons, hsplit]
    refine ⟨hrest.1.trans hafter, fun hall => ?_, fun hkeeps => ?_⟩
    · have hmid := hafter.eq_of_length_le (by rw [← hall]; exact hrest.1.length_le)
      have hone := List.append_cancel_right hmid
      exact ⟨hstep.2.mp hone, hrest.2.mp (by rw [hall, hone])⟩
    · rw [hrest.2.mpr hkeeps.2, hstep.2.mpr hkeeps.1]

/-- A peer's frames are decoded in the order they came in, each at most once and for that
peer only, and those not decoded yet wait behind them; no frame is lost exactly where none
comes in to a full queue and the peer is not removed while frames of it wait. -/
theorem voice_frames_in_order (ops : List TimedVoiceOp) (peerId : String) :
    ((run step start ops).played peerId ++ (run step start ops).waiting peerId).Sublist
        (arrivals peerId ops) ∧
      ((run step start ops).played peerId ++ (run step start ops).waiting peerId =
          arrivals peerId ops ↔
        Along step (fun k o => k.Keeps peerId o) start ops) := by
  have hnone : start.played peerId ++ start.waiting peerId = [] := by
    dsimp only [played, waiting, start, VoiceController.voiceOf, VoiceController.new]
    rw [ExtTreeMap.getElem?_empty]
    rfl
  have hrun := account_run start ops peerId
  rw [hnone, List.nil_append] at hrun
  exact hrun

end VoiceCall

/-! ## Bounds -/

theorem nextJitterDepth_bounds {depth lowStreak frames underruns : Nat}
    (hlow : minJitterDepth ≤ depth) (hhigh : depth ≤ maxJitterDepth) :
    minJitterDepth ≤ (nextJitterDepth depth lowStreak frames underruns).1 ∧
      (nextJitterDepth depth lowStreak frames underruns).1 ≤ maxJitterDepth := by
  unfold nextJitterDepth
  split
  · exact ⟨hlow, hhigh⟩
  · split
    · next hgrow => exact ⟨Nat.le_succ_of_le hlow, hgrow.2⟩
    · split
      · split
        · next hshrink =>
          have hlt := hshrink.2
          dsimp only
          omega
        · exact ⟨hlow, hhigh⟩
      · exact ⟨hlow, hhigh⟩

/-- A queue stays under the cap of the deepest buffer, and slots are dry only while the
queue of a peer whose playout has started is empty. -/
structure Voice.Bounded (v : Voice) : Prop where
  queue : v.queue.length ≤ maxPinnedDepth * 8
  dry : 0 < v.drySlots → v.playoutStarted = true ∧ v.queue = []

structure VoiceController.Bounded (c : VoiceController) : Prop where
  low : minJitterDepth ≤ c.jitterDepth
  high : c.jitterDepth ≤ maxPinnedDepth
  adaptive : c.jitterAdaptive = true → c.jitterDepth ≤ maxJitterDepth
  underruns : c.playoutUnderruns ≤ c.playoutFrames
  voices : ∀ (peerId : String) (v : Voice), c.voices[peerId]? = some v → v.Bounded

namespace VoiceCall

variable {k : VoiceCall} {peerId : String} {o : TimedVoiceOp}

theorem Moved.bounded {voice : Option Voice} {slots : List (Option OpusFrame)}
    (h : Moved k o peerId voice slots) (hk : k.controller.Bounded) :
    ∀ v, voice = some v → v.Bounded := by
  intro v hv
  cases h with
  | heard opusData hop =>
    cases hv
    refine ⟨?_, fun hdry => absurd hdry (Nat.lt_irrefl 0)⟩
    have hhigh := hk.high
    dsimp only [Voice.push, VoiceController.maxDepth]
    rw [List.length_drop, List.length_append, List.length_singleton]
    unfold maxPinnedDepth at hhigh ⊢
    omega
  | slot hop =>
    unfold VoiceController.turn at hv
    split at hv
    · cases hv
    · next v' hv' =>
      have hold := hk.voices peerId v' hv'
      rcases v'.advance_cases k.controller.jitterDepth
          (k.controller.recentlyActive peerId (k.clock + o.wait)) with
        ⟨-, heq⟩ | ⟨-, ⟨frame, queue, hqueue, heq⟩ | ⟨-, -, heq⟩ | ⟨-, -, heq⟩⟩
      · rw [heq] at hv
        cases hv
        exact hold
      · rw [heq] at hv
        cases hv
        have hlen := hold.queue
        rw [hqueue] at hlen
        refine ⟨Nat.le_of_succ_le hlen, fun hdry => ?_⟩
        have hempty := (hold.dry hdry).2
        rw [hqueue] at hempty
        cases hempty
      · rw [heq] at hv
        cases hv
        exact ⟨Nat.zero_le _, fun _ => ⟨rfl, rfl⟩⟩
      · rw [heq] at hv
        cases hv
  | removed hop => cases hv
  | same hframe hremove => exact hk.voices peerId v hv

theorem adaptJitterBuffer_bounds {c : VoiceController} (h : c.Bounded) :
    minJitterDepth ≤ c.adaptJitterBuffer.1 ∧ c.adaptJitterBuffer.1 ≤ maxPinnedDepth ∧
      (c.jitterAdaptive = true → c.adaptJitterBuffer.1 ≤ maxJitterDepth) := by
  unfold VoiceController.adaptJitterBuffer
  split
  · exact ⟨h.low, h.high, h.adaptive⟩
  · next hon =>
    have hadaptive : c.jitterAdaptive = true := by
      cases hoff : c.jitterAdaptive with
      | true => rfl
      | false => exact absurd (by rw [hoff]; rfl) hon
    have hnext := @nextJitterDepth_bounds c.jitterDepth c.jitterLowStreak c.playoutFrames
      c.playoutUnderruns h.low (h.adaptive hadaptive)
    exact ⟨hnext.1, hnext.2.trans (by decide), fun _ => hnext.2⟩

theorem Bounded.step (h : k.controller.Bounded) (o : TimedVoiceOp) :
    (k.step o).controller.Bounded := by
  have hvoices : ∀ (peerId : String) (v : Voice),
      (k.step o).controller.voices[peerId]? = some v → v.Bounded :=
    fun peerId v hv => (moved k o peerId).bounded h v hv
  obtain ⟨wait, op⟩ := o
  cases op with
  | roomAudio id opusData =>
    exact ⟨h.low, h.high, h.adaptive, Nat.add_le_add_right h.underruns _, hvoices⟩
  | playoutTick =>
    dsimp only [VoiceCall.step, VoiceController.tickPlayout] at hvoices ⊢
    split
    · next haudio =>
      rw [if_pos haudio] at hvoices
      exact ⟨h.low, h.high, h.adaptive, h.underruns.trans (Nat.le_add_right ..), hvoices⟩
    · exact h
  | speakingTick => exact ⟨h.low, h.high, h.adaptive, h.underruns, hvoices⟩
  | metricsTick =>
    obtain ⟨hlow, hhigh, hadaptive⟩ := adaptJitterBuffer_bounds h
    exact ⟨hlow, hhigh, hadaptive, Nat.le_refl 0, hvoices⟩
  | setJitterDepth depth =>
    refine ⟨?_, Nat.min_le_right .., fun hoff => (by cases hoff), h.underruns, hvoices⟩
    exact Nat.le_min.mpr ⟨Nat.le_max_right .., by decide⟩
  | removePeer id => exact ⟨h.low, h.high, h.adaptive, h.underruns, hvoices⟩
  | startAudio => exact ⟨h.low, h.high, h.adaptive, h.underruns, hvoices⟩
  | stopAudio => exact ⟨h.low, h.high, h.adaptive, h.underruns, hvoices⟩

/-- In every run the depth stays in its bounds, the narrower ones unless it was pinned, no
queue outgrows the cap, no window has more underruns than frames, and slots are dry only
for a peer that plays and has nothing left. -/
theorem voice_playout_bounded (ops : List TimedVoiceOp) :
    (run step start ops).controller.Bounded := by
  refine run_inv (fun k : VoiceCall => k.controller.Bounded) ?_ fun k o h => Bounded.step h o
  refine ⟨by decide, by decide, fun _ => by decide, Nat.le_refl 0, fun peerId v hv => ?_⟩
  have hnone : start.controller.voices[peerId]? = none := ExtTreeMap.getElem?_empty
  rw [hnone] at hv
  cases hv

/-! ## A peer that fell silent -/

/-- The playout takes a slot of every peer. -/
def isSlot (o : TimedVoiceOp) : Bool :=
  match o.op with
  | .playoutTick => true
  | _ => false

/-- A slot of the playout, or an event of another peer. -/
def NotOf (peerId : String) (o : TimedVoiceOp) : Prop :=
  match o.op with
  | .playoutTick => True
  | .roomAudio id _ | .removePeer id => id ≠ peerId
  | _ => False

/-- Audio is on, and the peer has been silent for the timeout. -/
structure Silent (k : VoiceCall) (peerId : String) (depth : Nat) : Prop where
  audio : k.controller.audio = true
  depth : k.controller.jitterDepth = depth
  silent : k.controller.recentlyActive peerId k.clock = false

theorem recentlyActive_later {c : VoiceController} {now later : Nat} (hle : now ≤ later)
    (h : c.recentlyActive peerId now = false) : c.recentlyActive peerId later = false := by
  unfold VoiceController.recentlyActive at h ⊢
  cases hlast : c.roomPeerLastAudio[peerId]? with
  | none => rfl
  | some t =>
    rw [hlast, Option.any_some, decide_eq_false_iff_not] at h
    rw [Option.any_some, decide_eq_false_iff_not]
    omega

variable {depth : Nat}

theorem Silent.step (h : k.Silent peerId depth) (ho : NotOf peerId o) :
    (k.step o).Silent peerId depth := by
  have hlater := recentlyActive_later (Nat.le_add_right k.clock o.wait) h.silent
  obtain ⟨wait, op⟩ := o
  cases op with
  | playoutTick =>
    dsimp only [VoiceCall.step, VoiceController.tickPlayout]
    rw [if_pos h.audio]
    exact ⟨h.audio, h.depth, hlater⟩
  | roomAudio id opusData =>
    refine ⟨h.audio, h.depth, ?_⟩
    have hlast : (k.controller.receive id opusData (k.clock + wait)).roomPeerLastAudio[peerId]? =
        k.controller.roomPeerLastAudio[peerId]? := by
      dsimp only [VoiceController.receive, Controller.handleRoomAudio]
      rw [ExtTreeMap.getElem?_insert, if_neg fun heq => ho (compare_eq_iff_eq.mp heq)]
    rw [VoiceController.recentlyActive] at hlater ⊢
    exact (congrArg _ hlast).trans hlater
  | removePeer id =>
    refine ⟨h.audio, h.depth, ?_⟩
    have hlast : (k.controller.removePeer id).roomPeerLastAudio[peerId]? =
        k.controller.roomPeerLastAudio[peerId]? := by
      dsimp only [VoiceController.removePeer, Controller.handleRemovePeer]
      rw [ExtTreeMap.getElem?_erase, if_neg fun heq => ho (compare_eq_iff_eq.mp heq)]
    rw [VoiceController.recentlyActive] at hlater ⊢
    exact (congrArg _ hlast).trans hlater
  | _ => exact ho.elim

theorem Silent.voice_step (h : k.Silent peerId depth) (ho : NotOf peerId o) :
    (k.step o).controller.voices[peerId]? =
      if isSlot o then (k.controller.voices[peerId]?).bind fun v => (v.advance depth false).1
      else k.controller.voices[peerId]? := by
  have hlater := recentlyActive_later (Nat.le_add_right k.clock o.wait) h.silent
  obtain ⟨wait, op⟩ := o
  cases op with
  | playoutTick =>
    dsimp only [VoiceCall.step, VoiceController.tickPlayout]
    rw [if_pos h.audio, voices_advance, VoiceController.turn, isSlot, if_pos rfl]
    cases k.controller.voices[peerId]? with
    | none => rfl
    | some v =>
      dsimp only [Option.bind_some]
      rw [h.depth, hlater]
  | roomAudio id opusData =>
    dsimp only [VoiceCall.step, VoiceController.receive]
    rw [ExtTreeMap.getElem?_insert, if_neg fun heq => ho (compare_eq_iff_eq.mp heq)]
    rfl
  | removePeer id =>
    dsimp only [VoiceCall.step, VoiceController.removePeer]
    rw [ExtTreeMap.getElem?_erase, if_neg fun heq => ho (compare_eq_iff_eq.mp heq)]
    rfl
  | _ => exact ho.elim

theorem Silent.none_stays (h : k.Silent peerId depth) (hnone : k.controller.voices[peerId]? = none)
    {ops : List TimedVoiceOp} (hothers : ∀ o ∈ ops, NotOf peerId o) :
    (run VoiceCall.step k ops).controller.voices[peerId]? = none := by
  induction ops generalizing k with
  | nil => exact hnone
  | cons o ops ih =>
    have ho := hothers o List.mem_cons_self
    rw [run_cons]
    refine ih (h.step ho) ?_ fun o' hmem => hothers o' (List.mem_cons_of_mem o hmem)
    rw [h.voice_step ho, hnone, Option.bind_none, ite_self]

theorem Silent.buffering_stays {v : Voice} (h : k.Silent peerId depth)
    (hvoice : k.controller.voices[peerId]? = some v)
    (hwait : v.playoutStarted = false ∧ v.queue.length < depth) {ops : List TimedVoiceOp}
    (hothers : ∀ o ∈ ops, NotOf peerId o) :
    (run VoiceCall.step k ops).controller.voices[peerId]? = some v := by
  induction ops generalizing k with
  | nil => exact hvoice
  | cons o ops ih =>
    have ho := hothers o List.mem_cons_self
    rw [run_cons]
    refine ih (h.step ho) ?_ fun o' hmem => hothers o' (List.mem_cons_of_mem o hmem)
    have hturn : (v.advance depth false).1 = some v := by
      rw [Voice.advance, if_pos hwait]
    rw [h.voice_step ho, hvoice, Option.bind_some, hturn, ite_self]

/-- While other peers talk and leave, a peer that has been silent for the timeout is
dropped, once what it left has been played, if its playout had started or is due;
otherwise its frames stay. -/
theorem silent_voice_dropped {v : Voice} (haudio : k.controller.audio = true)
    (hvoice : k.controller.voices[peerId]? = some v)
    (hsilent : k.controller.recentlyActive peerId k.clock = false) (ops : List TimedVoiceOp)
    (hothers : ∀ o ∈ ops, NotOf peerId o) (hlong : v.queue.length < ops.countP isSlot) :
    (run VoiceCall.step k ops).controller.voices[peerId]? =
      if v.playoutStarted = false ∧ v.queue.length < k.controller.jitterDepth then some v
      else none := by
  have h : k.Silent peerId k.controller.jitterDepth := ⟨haudio, rfl, hsilent⟩
  generalize k.controller.jitterDepth = depth at h
  clear haudio hsilent
  induction ops generalizing k v with
  | nil => exact absurd hlong (Nat.not_lt_zero _)
  | cons o ops ih =>
    have ho := hothers o List.mem_cons_self
    have hrest := fun o' hmem => hothers o' (List.mem_cons_of_mem o hmem)
    have hafter := h.voice_step ho
    rw [run_cons]
    by_cases hslot : isSlot o = true
    · rw [if_pos hslot, hvoice, Option.bind_some] at hafter
      rw [List.countP_cons_of_pos hslot] at hlong
      rcases v.advance_cases depth false with
        ⟨hwait, heq⟩ | ⟨hplay, ⟨frame, queue, hqueue, heq⟩ | ⟨-, hactive, -⟩ | ⟨-, -, heq⟩⟩
      · rw [if_pos hwait]
        exact (h.step ho).buffering_stays (hafter.trans (congrArg _ heq)) hwait hrest
      · rw [hqueue, List.length_cons] at hlong
        have hlast := ih (hafter.trans (congrArg _ heq)) hrest (Nat.lt_of_succ_lt_succ hlong)
          (h.step ho)
        rw [if_neg fun hb => Bool.noConfusion hb.1] at hlast
        rw [if_neg hplay]
        exact hlast
      · cases hactive
      · rw [if_neg hplay]
        exact (h.step ho).none_stays (hafter.trans (congrArg _ heq)) hrest
    · rw [if_neg hslot] at hafter
      rw [List.countP_cons_of_neg hslot] at hlong
      exact ih (hafter.trans hvoice) hrest hlong (h.step ho)

/-- A peer with one frame left, whose playout has started, is gone after two slots,
whatever another one says. -/
theorem silent_voice_dropped_two :
    (run VoiceCall.step ⟨{ VoiceController.new with
        voices := (∅ : ExtTreeMap String Voice).insert "ann" ⟨[[1]], true, 0⟩
        audio := true }, 0⟩
      [⟨20, .playoutTick⟩, ⟨5, .roomAudio "bob" [2]⟩,
        ⟨15, .playoutTick⟩]).controller.voices["ann"]? = none :=
  silent_voice_dropped (v := ⟨[[1]], true, 0⟩) rfl ExtTreeMap.getElem?_insert_self rfl _
    (by simp [NotOf]) (by decide)

end VoiceCall

/-! ## Windows in a row -/

/-- The depth and the streak after windows of so many frames and underruns. -/
def depthAfter (depth lowStreak : Nat) (windows : List (Nat × Nat)) : Nat × Nat :=
  run (fun s w => nextJitterDepth s.1 s.2 w.1 w.2) (depth, lowStreak) windows

namespace VoiceCall

variable {k : VoiceCall}

/-- The windows that the metrics ticks of a run close: frames and underruns of each. -/
def windowsOf : VoiceCall → List TimedVoiceOp → List (Nat × Nat)
  | _, [] => []
  | k, o :: ops =>
    (match o.op with
      | .metricsTick => [(k.controller.playoutFrames, k.controller.playoutUnderruns)]
      | _ => []) ++ windowsOf (k.step o) ops

/-- Audio goes on, and nobody pins the depth. -/
def Adapts (o : TimedVoiceOp) : Prop :=
  match o.op with
  | .setJitterDepth _ | .stopAudio => False
  | _ => True

theorem adaptive_step {o : TimedVoiceOp} (h : k.controller.audio = true ∧
    k.controller.jitterAdaptive = true) (ho : Adapts o) :
    (k.step o).controller.audio = true ∧ (k.step o).controller.jitterAdaptive = true := by
  obtain ⟨wait, op⟩ := o
  cases op with
  | setJitterDepth _ | stopAudio => exact ho.elim
  | playoutTick =>
    dsimp only [VoiceCall.step, VoiceController.tickPlayout]
    rw [if_pos h.1]
    exact h
  | startAudio => exact ⟨rfl, h.2⟩
  | _ => exact h

theorem depth_metricsTick {c : VoiceController} (haudio : c.audio = true)
    (hadaptive : c.jitterAdaptive = true) :
    (c.metricsTick.jitterDepth, c.metricsTick.jitterLowStreak) =
      nextJitterDepth c.jitterDepth c.jitterLowStreak c.playoutFrames c.playoutUnderruns := by
  dsimp only [VoiceController.metricsTick, VoiceController.adaptJitterBuffer]
  rw [hadaptive, haudio]
  by_cases hempty : c.playoutFrames = 0
  · rw [hempty, nextJitterDepth, if_pos rfl]
    rfl
  · rw [if_neg (by simpa using hempty)]

theorem depthAfter_windowsOf (h : k.controller.audio = true ∧ k.controller.jitterAdaptive = true)
    (ops : List TimedVoiceOp) (hadapts : ∀ o ∈ ops, Adapts o) :
    ((run step k ops).controller.jitterDepth, (run step k ops).controller.jitterLowStreak) =
      depthAfter k.controller.jitterDepth k.controller.jitterLowStreak (windowsOf k ops) := by
  induction ops generalizing k with
  | nil => rfl
  | cons o ops ih =>
    have ho := hadapts o List.mem_cons_self
    rw [run_cons, ih (adaptive_step h ho) fun o' hmem => hadapts o' (List.mem_cons_of_mem o hmem),
      windowsOf, depthAfter, depthAfter, run_append]
    congr 1
    obtain ⟨wait, op⟩ := o
    cases op with
    | metricsTick => exact depth_metricsTick h.1 h.2
    | setJitterDepth _ | stopAudio => exact ho.elim
    | playoutTick =>
      dsimp only [VoiceCall.step, VoiceController.tickPlayout]
      rw [if_pos h.1]
      rfl
    | _ => rfl

end VoiceCall

/-- Smooth windows in a row take a frame off the depth for every five, down to the least. -/
theorem depthAfter_smooth {depth lowStreak : Nat} {windows : List (Nat × Nat)}
    (hlow : minJitterDepth ≤ depth)
    (hstreak : lowStreak < jitterShrinkStreak ∨ depth = minJitterDepth)
    (hsmooth : ∀ w ∈ windows, w.2 * 200 < w.1) :
    (depthAfter depth lowStreak windows).1 =
      max minJitterDepth (depth - (lowStreak + windows.length) / jitterShrinkStreak) := by
  induction windows generalizing depth lowStreak with
  | nil =>
    dsimp only [depthAfter, run, List.foldl_nil, List.length_nil]
    unfold minJitterDepth jitterShrinkStreak at *
    omega
  | cons w windows ih =>
    obtain ⟨hw, hrest⟩ := List.forall_mem_cons.mp hsmooth
    rw [depthAfter, run_cons, nextJitterDepth, if_neg (by omega), if_neg (by omega), if_pos hw,
      List.length_cons]
    unfold minJitterDepth jitterShrinkStreak at *
    split
    · refine (ih (by omega) (by omega) hrest).trans ?_
      omega
    · refine (ih hlow (by omega) hrest).trans ?_
      omega

theorem depthAfter_smooth_two : (depthAfter 3 4 [(100, 0), (90, 0)]).1 = 2 :=
  depthAfter_smooth (by decide) (by decide) (by decide)

/-- Starving windows in a row add a frame each, up to the most. -/
theorem depthAfter_starving {depth lowStreak : Nat} {windows : List (Nat × Nat)}
    (hhigh : depth ≤ maxJitterDepth) (hstarving : ∀ w ∈ windows, 0 < w.1 ∧ w.1 < w.2 * 20) :
    (depthAfter depth lowStreak windows).1 = min maxJitterDepth (depth + windows.length) := by
  induction windows generalizing depth lowStreak with
  | nil => exact (Nat.min_eq_right hhigh).symm
  | cons w windows ih =>
    obtain ⟨hw, hrest⟩ := List.forall_mem_cons.mp hstarving
    rw [depthAfter, run_cons, nextJitterDepth, if_neg (by omega), List.length_cons]
    unfold maxJitterDepth at *
    split
    · refine (ih (by omega) hrest).trans ?_
      omega
    · rw [if_neg (by omega)]
      refine (ih hhigh hrest).trans ?_
      omega

theorem depthAfter_starving_two : (depthAfter 11 0 [(100, 6), (100, 9)]).1 = 12 :=
  depthAfter_starving (by decide) (by decide)

end ConquerD.Client.CallController
