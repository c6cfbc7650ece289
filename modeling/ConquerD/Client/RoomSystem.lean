import ConquerD.Client.Inbound

/-!
# Client: a keyer and the members of its room

One room seen as a whole: the client that keys it, the other clients, and the
keys sealed and sent so far. A sealed key may arrive any number of times, in any
order, or never; anybody may see a frame of any epoch. Beside the clients stands
a record of the epochs the keyer minted, newest first.
-/

namespace ConquerD.Client

open Std (ExtTreeSet)
open Lib.Encoding Wire

/-- A key sealed to a member. -/
structure Offer where
  member : String
  epoch : Nat
  key : EpochKey
  deriving DecidableEq

/-- The keys of a room among what was sent. -/
def offersOf (roomId : String) (out : List Outgoing) : List Offer :=
  out.filterMap fun
    | .groupKey member r epoch key => if r = roomId then some ⟨member, epoch, key⟩ else none
    | _ => none

namespace ConnectionManager

variable (c : ConnectionManager) (roomId : String)

/-- A snapshot makes the client mint: the first key of the room, or a new one
after somebody left. -/
def mintsOnSync (supernodeId : String) (members : List String) : Bool :=
  let unionOld := unionMembersForRoom c.roomGroupMembers roomId
  let c := { c with
    roomGroupMembers := c.roomGroupMembers.insert (roomScopeKey supernodeId roomId)
      (ExtTreeSet.ofList (members.filter (· ≠ c.publicId))) }
  let unionNew := unionMembersForRoom c.roomGroupMembers roomId
  let hasReal := c.groupKeys.hasRealKey roomId
  c.keysRoom roomId &&
    (shouldMintFirstRoomKey true hasReal unionNew.size ||
      hasReal && unionOld.toList.any fun m => !unionNew.contains m)

/-- The client mints because the room is ahead of it. -/
def mintsWhenBehind : Bool :=
  c.groupKeys.isBehind roomId && c.keysRoom roomId && !(c.unionList roomId).isEmpty

end ConnectionManager

/-- The sealed message that offers a key. -/
def Offer.message (encode : Bytes → String) (keyer : PublicId) (roomId : String) (o : Offer) :
    SignalingMessage where
  msgType := .sfuGroupKey
  sender := keyer
  payload := .obj [("room_id", .str roomId), ("epoch", .int o.epoch), ("key", .str (encode o.key))]

structure RoomSystem where
  keyer : ConnectionManager
  /-- Every other client, by its id. -/
  member : String → ConnectionManager
  /-- All that the keyer sealed. -/
  offers : List Offer
  /-- All that anybody else sealed. -/
  strays : List Offer
  /-- Epoch and key of all that the keyer minted. -/
  mints : List (Nat × EpochKey)

inductive RoomSystemEvent where
  /-- The keyer takes a snapshot. -/
  | keyerSync (env : Env) (supernodeId : String) (ids : List String)
  /-- The keyer sees a frame it cannot open. -/
  | keyerUnopened (env : Env) (frame : SignalingMessage) (epoch : UInt8)
  /-- The keyer opens a frame. -/
  | keyerOpened (env : Env) (sender : String) (epoch : UInt8)
  | keyerRetry (env : Env)
  /-- A confirmation reaches the keyer. -/
  | keyerAck (ack : SignalingMessage)
  | memberSync (m : String) (env : Env) (supernodeId : String) (ids : List String)
  | memberUnopened (m : String) (env : Env) (frame : SignalingMessage) (epoch : UInt8)
  | memberOpened (m : String) (env : Env) (sender : String) (epoch : UInt8)
  | memberRetry (m : String) (env : Env)
  /-- A member leaves the room. -/
  | memberForget (m : String) (supernodeId : String)
  /-- One of the sealed keys reaches its member, for the first time or again. -/
  | deliver (i : Nat) (env : Env)

namespace RoomSystem

variable (P : Platform) (encode : Bytes → String) (keyer : PublicId) (roomId : String)

def start : RoomSystem where
  keyer := .start keyer.text ⟨∅⟩
  member m := .start m ⟨∅⟩
  offers := []
  strays := []
  mints := []

variable (s : RoomSystem)

/-- The keyer acted, and minted the given key or none. -/
def keyerDid (o : Outcome) (minted : Option EpochKey) : RoomSystem :=
  { s with
    keyer := o.1
    offers := s.offers ++ offersOf roomId o.2
    mints := (minted.map fun key => (o.1.groupKeys.currentEpoch roomId, key)).toList ++ s.mints }

/-- A member acted. -/
def memberDid (m : String) (o : Outcome) : RoomSystem :=
  { s with
    member := fun m' => if m' = m then o.1 else s.member m'
    strays := s.strays ++ offersOf roomId o.2 }

def minted : RoomSystemEvent → Option EpochKey
  | .keyerSync env supernodeId ids =>
    if s.keyer.mintsOnSync roomId supernodeId ids then some env.randomKey else none
  | .keyerUnopened env _ epoch =>
    let keys := s.keyer.groupKeys.noteObservedEpoch roomId epoch.toNat
    if { s.keyer with groupKeys := keys }.mintsWhenBehind roomId then some env.randomKey else none
  | _ => none

def step : RoomSystemEvent → RoomSystem
  | .keyerSync env supernodeId ids =>
    s.keyerDid roomId (s.keyer.syncRoomMembership P env supernodeId roomId ids)
      (s.minted roomId (.keyerSync env supernodeId ids))
  | .keyerUnopened env frame epoch =>
    s.keyerDid roomId (s.keyer.noteUnopenedFrame P env frame roomId epoch.toNat)
      (s.minted roomId (.keyerUnopened env frame epoch))
  | .keyerOpened env sender epoch =>
    s.keyerDid roomId (s.keyer.resealToLaggingMember P env roomId sender epoch.toNat) none
  | .keyerRetry env => s.keyerDid roomId (s.keyer.retryPendingGroupKeys P env) none
  | .keyerAck ack => s.keyerDid roomId (s.keyer.handleSfuGroupKeyAck ack, []) none
  | .memberSync m env supernodeId ids =>
    s.memberDid roomId m ((s.member m).syncRoomMembership P env supernodeId roomId ids)
  | .memberUnopened m env frame epoch =>
    s.memberDid roomId m ((s.member m).noteUnopenedFrame P env frame roomId epoch.toNat)
  | .memberOpened m env sender epoch =>
    s.memberDid roomId m ((s.member m).resealToLaggingMember P env roomId sender epoch.toNat)
  | .memberRetry m env => s.memberDid roomId m ((s.member m).retryPendingGroupKeys P env)
  | .memberForget m supernodeId =>
    s.memberDid roomId m ((s.member m).forgetRoom supernodeId roomId, [])
  | .deliver i env =>
    match s.offers[i]? with
    | none => s
    | some o =>
      s.memberDid roomId o.member
        ((s.member o.member).handleSfuGroupKey P env (o.message encode keyer roomId))

end RoomSystem

end ConquerD.Client
