import ConquerD.Lib.Encoding
import ConquerD.Lib.SortedQueue
import Std.Data.ExtTreeMap

/-!
# Client: the playout of content audio and video

Content audio leads. Each peer has a reorder buffer, of which a tick plays one frame, or
silence in the place of one; every tick of a running stream moves its timeline by one
frame. Video follows: a decoded frame is shown, held or dropped against the timeline of
its sender. Instants are counted in nanoseconds.
-/

namespace ConquerD.Client.Playout

open Std (ExtTreeMap)
open Lib.Encoding Lib.SortedQueue

/-- The sum, or the largest timestamp. -/
@[irreducible] def saturatingAdd (a b : UInt64) : UInt64 :=
  .ofNat (min (a.toNat + b.toNat) (2 ^ 64 - 1))

/-! ## Content audio -/

def frameDurationUs : UInt64 := 20000
def jitterDepth : Nat := 3
def maxBufferedFrames : Nat := jitterDepth * 4
def resyncGap : UInt32 := 50
def maxConcealedFrames : Nat := 20

/-- A frame that was received and not played. -/
structure PendingFrame where
  seq : UInt32
  ptsUs : UInt64
  opus : Bytes
  deriving DecidableEq

inductive TickAction where
  | play (frame : PendingFrame)
  /-- Silence in the place of a frame. -/
  | conceal (ptsUs : UInt64)
  | idle
  deriving DecidableEq

structure JitterBuffer where
  pending : List PendingFrame
  /-- The number the next tick expects. -/
  nextSeq : Option UInt32
  nextPtsUs : UInt64
  /-- Concealed frames since the last real one. -/
  concealedStreak : Nat
  /-- The cushion is being filled. -/
  buffering : Bool
  fillTicks : Nat
  deriving DecidableEq

namespace JitterBuffer

def new : JitterBuffer where
  pending := []
  nextSeq := none
  nextPtsUs := 0
  concealedStreak := 0
  buffering := true
  fillTicks := 0

variable (b : JitterBuffer)

def isIdle : Bool :=
  b.nextSeq.isNone && b.pending.isEmpty

/-- The frame is held already, or its number was just passed. -/
def refuses (frame : PendingFrame) : Bool :=
  b.pending.any (·.seq == frame.seq) ||
    b.nextSeq.any fun next => decide (frame.seq < next) && decide (next - frame.seq < resyncGap)

/-- What is held with one frame more, in the order of the numbers. -/
def sortedWith (frame : PendingFrame) : List PendingFrame :=
  sortByKey (·.seq.toNat) (b.pending ++ [frame])

def push (frame : PendingFrame) : JitterBuffer :=
  if b.refuses frame then b
  else { b with pending := keep maxBufferedFrames (b.sortedWith frame) }

def conceal (advanceSeq : Bool) : JitterBuffer × TickAction :=
  if b.concealedStreak ≥ maxConcealedFrames then (new, .idle)
  else
    ({ b with
        nextSeq := if advanceSeq then b.nextSeq.map (· + 1) else b.nextSeq
        nextPtsUs := saturatingAdd b.nextPtsUs frameDurationUs
        concealedStreak := b.concealedStreak + 1 },
      .conceal b.nextPtsUs)

def startFrom (frame : PendingFrame) : JitterBuffer :=
  { b with
    pending := b.pending.filter fun f => f.seq != frame.seq
    nextSeq := some (frame.seq + 1)
    nextPtsUs := saturatingAdd frame.ptsUs frameDurationUs
    concealedStreak := 0 }

/-- The first frame is played now: it is expected, or too far ahead, or too many wait
behind it. -/
def releases (expected : UInt32) (first : PendingFrame) : Bool :=
  decide (first.seq - expected ≥ resyncGap) || decide (b.pending.length > jitterDepth) ||
    first.seq == expected

def tick : JitterBuffer × TickAction :=
  if b.buffering then
    let stalled := decide (b.fillTicks ≥ jitterDepth) && !b.pending.isEmpty
    if b.pending.length < jitterDepth ∧ stalled = false then
      let filled := { b with fillTicks := b.fillTicks + 1 }
      match b.nextSeq with
      | some _ => filled.conceal false
      | none => (filled, .idle)
    else
      let full := { b with buffering := false, fillTicks := 0 }
      match b.pending.head? with
      | some first => (full.startFrom first, .play first)
      | none => (full, .idle)
  else
    match b.nextSeq with
    | none => (b, .idle)
    | some expected =>
      match b.pending.head? with
      | some first =>
        if b.releases expected first then (b.startFrom first, .play first) else b.conceal true
      | none => { b with buffering := true }.conceal false

end JitterBuffer

/-- The buffers of all peers. -/
structure ContentPlayout where
  buffers : ExtTreeMap String JitterBuffer

namespace ContentPlayout

variable (p : ContentPlayout)

def accept (peer : String) (frame : PendingFrame) : ContentPlayout :=
  ⟨p.buffers.insert peer ((p.buffers[peer]?.getD .new).push frame)⟩

/-- A buffer after its tick, unless nothing is left of it. -/
def kept (b : JitterBuffer) : Option JitterBuffer :=
  if b.tick.2 = .idle ∧ b.tick.1.isIdle then none else some b.tick.1

/-- Every peer by one frame, with what is to be played of each. -/
def tick : ContentPlayout × List (String × TickAction) :=
  (⟨p.buffers.filterMap fun _ b => kept b⟩,
    p.buffers.toList.filterMap fun (peer, b) =>
      if b.tick.2 = .idle then none else some (peer, b.tick.2))

def forget (peer : String) : ContentPlayout :=
  ⟨p.buffers.erase peer⟩

end ContentPlayout

/-! ## Video -/

def lateToleranceUs : UInt64 := 50000
def earlyToleranceUs : UInt64 := 10000
def maxQueuedFrames : Nat := 6
def anchorStaleAfter : Nat := 400000000

/-- The frame of content audio that was played last, and when. -/
structure PlayoutAnchor where
  ptsUs : UInt64
  playedAt : Nat

namespace PlayoutAnchor

variable (a : PlayoutAnchor) (now : Nat)

def extrapolate : UInt64 :=
  saturatingAdd a.ptsUs (.ofNat ((now - a.playedAt) / 1000))

def isStale : Bool :=
  decide (now - a.playedAt ≥ anchorStaleAfter)

end PlayoutAnchor

inductive SyncDecision where
  | shown
  | held
  | dropped
  deriving DecidableEq

/-- A sum that is not let to overflow. -/
def checkedAdd (a b : UInt64) : Option UInt64 :=
  if a.toNat + b.toNat < 2 ^ 64 then some (a + b) else none

/-- The rule, `none` where an addition overflows. Without a timeline the frame is shown. -/
def decideAgainst (audioNowUs : Option UInt64) (ptsUs : UInt64) : Option SyncDecision :=
  match audioNowUs with
  | none => some .shown
  | some audioNow => do
    let last ← checkedAdd ptsUs lateToleranceUs
    if last < audioNow then return .dropped
    let soonest ← checkedAdd audioNow earlyToleranceUs
    if ptsUs ≤ soonest then return .shown else return .held

/-- A decoded frame that waits for its moment. -/
structure QueuedFrame (α : Type) where
  ptsUs : UInt64
  payload : α
  deriving DecidableEq

/-- The frames to show, and those to hold. -/
def sweep {α : Type} (audioNowUs : Option UInt64) :
    List (QueuedFrame α) → Option (List (QueuedFrame α) × List (QueuedFrame α))
  | [] => some ([], [])
  | f :: rest => do
    let decision ← decideAgainst audioNowUs f.ptsUs
    let (out, kept) ← sweep audioNowUs rest
    match decision with
    | .shown => return (f :: out, kept)
    | .dropped => return (out, kept)
    | .held => return (out, f :: kept)

structure VideoPlayout (α : Type) where
  anchors : ExtTreeMap String PlayoutAnchor
  queues : ExtTreeMap String (List (QueuedFrame α))

namespace VideoPlayout

variable {α : Type} (p : VideoPlayout α) (peer : String)

def new : VideoPlayout α where
  anchors := ∅
  queues := ∅

/-- What is held of a peer. -/
def queued : List (QueuedFrame α) :=
  p.queues[peer]?.getD []

def noteAudioPlayed (ptsUs : UInt64) (playedAt : Nat) : VideoPlayout α :=
  { p with anchors := p.anchors.insert peer ⟨ptsUs, playedAt⟩ }

def audioNowUs (now : Nat) : Option UInt64 :=
  (p.anchors[peer]?.filter fun a => !a.isStale now).map fun a => a.extrapolate now

def decide (ptsUs : UInt64) (now : Nat) : Option SyncDecision :=
  decideAgainst (p.audioNowUs peer now) ptsUs

/-- What is held with one frame more, in the order of the timestamps. -/
def sortedWith (frame : QueuedFrame α) : List (QueuedFrame α) :=
  sortByKey (·.ptsUs.toNat) (p.queued peer ++ [frame])

/-- The frames to show now, `none` where an addition overflows. -/
def push (frame : QueuedFrame α) (now : Nat) : Option (VideoPlayout α × List (QueuedFrame α)) := do
  let queue := keep maxQueuedFrames (p.sortedWith peer frame)
  let (out, kept) ← sweep (p.audioNowUs peer now) queue
  return ({ p with queues := p.queues.insert peer kept }, out)

end VideoPlayout

end ConquerD.Client.Playout
