import ConquerD.Wire.Platform
import Std.Data.ExtTreeMap

/-!
# Client: room keys

Each conversation has a current epoch and the keys of a few recent epochs. The
elected keyer of a room mints keys; the other members install the ones they
receive. An epoch is a byte, and minting wraps.
-/

namespace ConquerD.Client

open Std (ExtTreeMap)
open Lib.Encoding Wire

abbrev EpochKey := Bytes

/-- Epochs retained for a conversation. -/
def maxRetainedEpochs : Nat := 4

/-- `a - b` as a byte. -/
def wrappingSub (a b : Nat) : Nat :=
  (a + 256 - b) % 256

structure GroupState where
  current : Nat
  /-- Highest epoch seen on the wire, also without a key for it. -/
  seenHigh : Option Nat
  /-- When `current` became current, in milliseconds. -/
  currentSince : Option Nat
  keys : ExtTreeMap Nat EpochKey

namespace GroupState

def default : GroupState where
  current := 0
  seenHigh := none
  currentSince := none
  keys := ∅

def noteSeen (st : GroupState) (epoch : Nat) : GroupState :=
  { st with
    seenHigh :=
      match st.seenHigh with
      | some high => if high ≥ epoch then some high else some epoch
      | none => some epoch }

/-- The keys without the lowest-numbered one. -/
def dropOldest (keys : ExtTreeMap Nat EpochKey) : ExtTreeMap Nat EpochKey :=
  match keys.minKey? with
  | none => keys
  | some oldest => keys.erase oldest

/-- The lowest-numbered keys beyond the bound are dropped, one at a time. -/
def capRetained (keys : ExtTreeMap Nat EpochKey) : ExtTreeMap Nat EpochKey :=
  dropOldest^[keys.size - maxRetainedEpochs] keys

def install (st : GroupState) (now epoch : Nat) (key : EpochKey) : GroupState :=
  let keys := st.keys.insert epoch key
  -- a reseal of the epoch already held is not a new epoch
  let since :=
    if st.current ≠ epoch ∨ st.currentSince.isNone then some now else st.currentSince
  let st := { st with currentSince := since, current := epoch }.noteSeen epoch
  { st with keys := capRetained keys }

def hasKeys (st : GroupState) : Bool :=
  !st.keys.isEmpty

/-- The epoch to mint next: above what is held and what was seen. -/
def nextEpoch (st : GroupState) : Nat :=
  let floor :=
    match st.seenHigh with
    | some high => if high ≥ st.current then high else st.current
    | none => st.current
  (floor + 1) % 256

end GroupState

/-- Keys by conversation. -/
structure SenderKeysGroup where
  groups : ExtTreeMap String GroupState

namespace SenderKeysGroup

def new : SenderKeysGroup where
  groups := ∅

variable (g : SenderKeysGroup) (convId : String)

/-- Starts the conversation afresh under a new key. -/
def newOwnerEpoch (now : Nat) (key : EpochKey) : SenderKeysGroup × Nat :=
  let epoch := (g.groups[convId]?.map GroupState.nextEpoch).getD 0
  let state : GroupState :=
    { GroupState.default with seenHigh := g.groups[convId]?.bind GroupState.seenHigh }
  (⟨g.groups.insert convId (state.install now epoch key)⟩, epoch)

def noteObservedEpoch (epoch : Nat) : SenderKeysGroup :=
  ⟨g.groups.insert convId ((g.groups[convId]?.getD .default).noteSeen epoch)⟩

/-- The room has moved to an epoch that cannot be opened. -/
def isBehind : Bool :=
  match g.groups[convId]? with
  | none => false
  | some st =>
    match st.seenHigh with
    | some high => !st.keys.contains high
    | none => false

def rotate (now : Nat) (key : EpochKey) : SenderKeysGroup × Nat :=
  match g.groups[convId]? with
  | none => g.newOwnerEpoch convId now key
  | some st => (⟨g.groups.insert convId (st.install now st.nextEpoch key)⟩, st.nextEpoch)

def install (now epoch : Nat) (key : EpochKey) : SenderKeysGroup :=
  ⟨g.groups.insert convId ((g.groups[convId]?.getD .default).install now epoch key)⟩

def hasRealKey : Bool :=
  (g.groups[convId]?.map GroupState.hasKeys).getD false

/-- How long the current epoch has been current; nothing without a real key. -/
def currentEpochAge (now : Nat) : Option Nat :=
  ((g.groups[convId]?.filter GroupState.hasKeys).bind GroupState.currentSince).map (now - ·)

def forget : SenderKeysGroup :=
  ⟨g.groups.erase convId⟩

def currentEpoch : Nat :=
  ((g.groups[convId]?.filter GroupState.hasKeys).map GroupState.current).getD 0

/-- The key every member of the conversation can derive. -/
def deterministicRoomKey (P : Platform) (convId : String) : EpochKey :=
  (P.hkdfDeriveKey (utf8Bytes convId)
    (utf8Bytes "conquerd-room-key/v1" ++ 0x7C :: utf8Bytes convId)).getD (List.replicate 32 0)

/-- The key of an epoch. Before there is a real one, epoch zero has the derived
key. -/
def epochKey (P : Platform) (epoch : Nat) : Option EpochKey :=
  match g.groups[convId]?.filter GroupState.hasKeys with
  | some st => st.keys[epoch]?
  | none => if epoch = 0 then some (deterministicRoomKey P convId) else none

end SenderKeysGroup

end ConquerD.Client
