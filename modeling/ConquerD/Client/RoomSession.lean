import ConquerD.Client.State

/-!
# Client: rooms and their keys

Every member of a room knows who else is in it from the supernodes it has
sessions with. The smallest id among the members present is the keyer: it mints
the room's key, seals it to each member and seals it again until the member
confirms.
-/

namespace ConquerD.Client

open Std (ExtTreeMap ExtTreeSet)
open Lib.Rosters Wire

/-- `me` is present and nobody present sorts before it. -/
def isElectedKeyer (members : List String) (me : String) : Bool :=
  members.any (fun m => bare m == bare me) && !members.any fun m => decide (bare m < bare me)

def maxEpochAdvance : Nat := 64

def acceptGroupKeyEpoch (hasRealKey : Bool) (currentEpoch offered : Nat) : Bool :=
  if !hasRealKey then true else decide (wrappingSub offered currentEpoch ≤ maxEpochAdvance)

def groupKeyRetryIntervalMs : Nat := 750

def groupKeyMaxAttempts : Nat := 16

def groupKeyDistributionWindow : Nat := groupKeyRetryIntervalMs * groupKeyMaxAttempts

def shouldResealToLaggingMember (memberEpoch roomEpoch epochAge : Nat) : Bool :=
  let behind := wrappingSub roomEpoch memberEpoch
  behind != 0 && decide (behind ≤ maxEpochAdvance) && decide (epochAge ≥ groupKeyDistributionWindow)

def shouldMintFirstRoomKey (isElected hasRealKey : Bool) (otherMemberCount : Nat) : Bool :=
  isElected && !hasRealKey && decide (otherMemberCount > 0)

def roomScopeKey (supernodeId roomId : String) : String :=
  supernodeId ++ ":" ++ roomId

def endsWithRoom (key roomId : String) : Bool :=
  (":" ++ roomId).toList.isSuffixOf key.toList

/-- Everyone in the room, as far as any supernode told. -/
def unionMembersForRoom (snapshots : Roster String String) (roomId : String) :
    ExtTreeSet String :=
  snapshots.foldl
    (fun union key members => if endsWithRoom key roomId then union.insertMany members.toList
      else union) ∅

namespace ConnectionManager

variable (P : Platform) (env : Env) (c : ConnectionManager)

/-! ## Pending confirmations -/

/-- The confirmations outstanding, without those of one room. -/
def dropPendingOfRoom (roomId : String) : ConnectionManager :=
  { c with pendingGroupKeyAcks := c.pendingGroupKeyAcks.filter fun p => p.1.1 ≠ roomId }

def dropPending (roomId member : String) : ConnectionManager :=
  { c with
    pendingGroupKeyAcks := c.pendingGroupKeyAcks.filter fun p => p.1 ≠ (roomId, member) }

/-- Notes that the epoch was sent to the member once more. -/
def notePending (roomId member : String) (epoch : Nat) : ConnectionManager :=
  let entry : PendingGroupKeyAck :=
    match c.pendingGroupKeyAcks.lookup (roomId, member) with
    | some p => { epoch := epoch, lastSent := env.nowMs, attempts := min (p.attempts + 1) 255 }
    | none => { epoch := epoch, lastSent := env.nowMs, attempts := 1 }
  { c with
    pendingGroupKeyAcks := (c.dropPending roomId member).pendingGroupKeyAcks ++
      [((roomId, member), entry)] }

/-! ## Distribution -/

def distributeGroupKey (roomId : String) (epoch : Nat) (key : EpochKey) (members : List String) :
    Outcome :=
  members.foldl
    (fun o member =>
      if env.canSealTo member then
        (o.1.notePending env roomId member epoch, o.2 ++ [.groupKey member roomId epoch key])
      else o)
    (c, [])

/-- Everyone in the room but us, as a list. -/
def unionList (roomId : String) : List String :=
  (unionMembersForRoom c.roomGroupMembers roomId).toList

def keysRoom (roomId : String) : Bool :=
  isElectedKeyer (c.unionList roomId ++ [c.publicId]) c.publicId

def acceptGroupKeyFrom (sender roomId : String) (epoch : Nat) : Bool :=
  let present := c.unionList roomId ++ [c.publicId]
  let present := if sender ∈ present then present else present ++ [sender]
  isElectedKeyer present sender &&
    acceptGroupKeyEpoch (c.groupKeys.hasRealKey roomId) (c.groupKeys.currentEpoch roomId) epoch

def sendGroupKeyAck (roomId : String) (epoch : Nat) (keyer : String) : List Outgoing :=
  if env.canSealTo keyer then [.groupKeyAck keyer roomId epoch] else []

/-- What the retry timer does with one pending confirmation. -/
def retryOne (o : Outcome) (entry : (String × String) × PendingGroupKeyAck) : Outcome :=
  let ((roomId, member), pending) := entry
  let c := o.1
  if !(c.unionList roomId).contains member then (c.dropPending roomId member, o.2)
  else if !c.keysRoom roomId then (c.dropPending roomId member, o.2)
  else if pending.attempts ≥ groupKeyMaxAttempts then (c.dropPending roomId member, o.2)
  else if env.nowMs - pending.lastSent ≥ groupKeyRetryIntervalMs then
    match c.groupKeys.epochKey roomId P pending.epoch with
    | none => (c.dropPending roomId member, o.2)
    | some key => Outcome.andThen (c, o.2) fun c =>
        c.distributeGroupKey env roomId pending.epoch key [member]
  else o

/-- Seals unconfirmed keys again. -/
def retryPendingGroupKeys : Outcome :=
  c.pendingGroupKeyAcks.foldl (retryOne P env) (c, [])

/-- The keys a change of membership calls for, once the keyer is known to be
us. -/
def keyRoom (roomId : String) (unionOld unionNew : ExtTreeSet String) : Outcome :=
  let removed := unionOld.toList.any fun m => !unionNew.contains m
  let added := unionNew.toList.filter fun m => !unionOld.contains m
  let hasReal := c.groupKeys.hasRealKey roomId
  if shouldMintFirstRoomKey true hasReal unionNew.size then
    let (keys, epoch) := c.groupKeys.newOwnerEpoch roomId env.nowMs env.randomKey
    { c with groupKeys := keys }.distributeGroupKey env roomId epoch env.randomKey unionNew.toList
  else if hasReal && removed then
    let (keys, epoch) := c.groupKeys.rotate roomId env.nowMs env.randomKey
    ({ c with groupKeys := keys }.dropPendingOfRoom roomId).distributeGroupKey env roomId epoch
      env.randomKey unionNew.toList
  else if hasReal && !added.isEmpty then
    let epoch := c.groupKeys.currentEpoch roomId
    match c.groupKeys.epochKey roomId P epoch with
    | none => (c, [])
    | some key => c.distributeGroupKey env roomId epoch key added
  else (c, [])

/-- Takes a supernode's snapshot of a room and keys the room accordingly. -/
def syncRoomMembership (supernodeId roomId : String) (members : List String) : Outcome :=
  let unionOld := unionMembersForRoom c.roomGroupMembers roomId
  let nodeNew := ExtTreeSet.ofList (members.filter (· ≠ c.publicId))
  let c := { c with
    roomGroupMembers := c.roomGroupMembers.insert (roomScopeKey supernodeId roomId) nodeNew }
  let unionNew := unionMembersForRoom c.roomGroupMembers roomId
  if !c.keysRoom roomId then (c.dropPendingOfRoom roomId, [])
  else
    let c := { c with
      pendingGroupKeyAcks := c.pendingGroupKeyAcks.filter fun p =>
        p.1.1 ≠ roomId ∨ p.1.2 ∈ unionNew }
    c.keyRoom P env roomId unionOld unionNew

/-- Mints above an epoch the room has moved to without us. -/
def rekeyRoomIfBehind (roomId : String) : Outcome :=
  if !c.groupKeys.isBehind roomId then (c, [])
  else if !c.keysRoom roomId then (c, [])
  else if (c.unionList roomId).isEmpty then (c, [])
  else
    let (keys, epoch) := c.groupKeys.rotate roomId env.nowMs env.randomKey
    ({ c with groupKeys := keys }.dropPendingOfRoom roomId).distributeGroupKey env roomId epoch
      env.randomKey (c.unionList roomId)

/-- Seals the current epoch to a member still on an old one. -/
def resealToLaggingMember (roomId sender : String) (senderEpoch : Nat) : Outcome :=
  match c.groupKeys.currentEpochAge roomId env.nowMs with
  | none => (c, [])
  | some age =>
    let epoch := c.groupKeys.currentEpoch roomId
    if !shouldResealToLaggingMember senderEpoch epoch age then (c, [])
    else
      match (c.unionList roomId).find? fun m => bare m == bare sender with
      | none => (c, [])
      | some member =>
        if !c.keysRoom roomId then (c, [])
        else if (c.pendingGroupKeyAcks.lookup (roomId, member)).any (·.epoch == epoch) then (c, [])
        else
          match c.groupKeys.epochKey roomId P epoch with
          | none => (c, [])
          | some key => (c.dropPending roomId member).distributeGroupKey env roomId epoch key [member]

end ConnectionManager

end ConquerD.Client
