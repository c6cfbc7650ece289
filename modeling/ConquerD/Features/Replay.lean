import ConquerD.Lib.Encoding
import ConquerD.Lib.Window
import Mathlib.Algebra.Order.Ring.Rat
import Std.Data.ExtTreeMap

/-!
# Features: the replay guard

Per sender, the signatures accepted so far, each with the instant it was first
seen. A signature is held for the window and then forgotten: past it, the
freshness check upstream is to refuse the message. Instants are seconds.
-/

namespace ConquerD.Features

open Std (ExtTreeMap)
open Lib.Encoding Lib.Window

/-- Matches the freshness window of signaling. -/
def defaultReplayWindowSecs : Rat := 300

/-- Remembered signatures per sender. A full window refuses, since evicting a
live entry would reopen it to replay. -/
def maxEntriesPerSender : Nat := 16384

/-- The first sixteen bytes of a signature, zero padded. -/
def sigKey (signature : Bytes) : Bytes :=
  signature.take 16 ++ List.replicate (16 - signature.length) 0

structure ReplayGuard where
  windows : ExtTreeMap String (List (Bytes × Rat))
  window : Rat

namespace ReplayGuard

/-- The window in seconds; the default when it is not finite (`none`) or not
positive. -/
def new (windowSecs : Option Rat) : ReplayGuard where
  windows := ∅
  window := (windowSecs.filter (0 < ·)).getD defaultReplayWindowSecs

def default : ReplayGuard :=
  new (some defaultReplayWindowSecs)

variable (g : ReplayGuard)

/-- The signatures held for a sender. -/
def seen (sender : String) : List (Bytes × Rat) :=
  (g.windows[sender]?).getD []

def setSeen (sender : String) (seen : List (Bytes × Rat)) : ReplayGuard :=
  { g with windows := g.windows.insert sender seen }

/-- Whether the pair is new, and the guard with the pair recorded if it is. -/
def checkAndRecordAt (sender : String) (signature : Bytes) (now : Rat) : Bool × ReplayGuard :=
  if signature.isEmpty then (false, g)
  else
    let live := prune g.window now (g.seen sender)
    if sigKey signature ∈ live.map Prod.fst then (false, g.setSeen sender live)
    else if maxEntriesPerSender ≤ live.length then (false, g.setSeen sender live)
    else (true, g.setSeen sender ((sigKey signature, now) :: live))

def forgetPeer (sender : String) : ReplayGuard :=
  { g with windows := g.windows.erase sender }

end ReplayGuard

end ConquerD.Features
