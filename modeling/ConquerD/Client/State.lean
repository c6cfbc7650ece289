import ConquerD.Client.GroupKey
import ConquerD.Client.PeerStore
import ConquerD.Lib.Roster

/-!
# Client: messages and the state of the connection manager

The part of the connection manager that holds trust, sessions with supernodes,
rooms and their keys. What a step reads from outside (clock, random bytes,
verdicts of signature and replay checks, decryption, routing) is an `Env`.
Direct sessions, media, file transfer and what is told to the user interface
are left out.
-/

namespace ConquerD.Client

open Std (ExtTreeMap ExtTreeSet)
open Lib.Rosters Wire

inductive MessageType where
  | encryptedSignal
  /-- Chat, call and file messages, which only trusted peers may send. -/
  | peerTraffic
  | handleUpdate
  | sfuGroupKey
  | sfuGroupKeyAck
  | sfuMembers
  | sfuPeerJoined
  | sfuPeerLeft
  | sfuChat
  | sfuAudio
  | sfuRoomCreated
  | inviteHandshakeInit
  | inviteHandshakeAccept
  | other
  deriving DecidableEq, Repr

structure SignalingMessage where
  msgType : MessageType
  sender : PublicId
  payload : Json

/-- What one step reads from outside the state. -/
structure Env where
  /-- Wall clock, seconds. -/
  unixNow : Rat
  /-- Wall clock, whole seconds. -/
  nowSecs : Nat
  /-- Monotonic clock, milliseconds. -/
  nowMs : Nat
  /-- The next random id. -/
  uuid : String
  /-- The next random key. -/
  randomKey : EpochKey
  /-- The message carries a fresh signature of its sender. -/
  verifyInboundSignature : SignalingMessage → Bool
  /-- The message has not been seen before. -/
  checkReplay : SignalingMessage → Bool
  /-- The message inside the envelope, when it decrypts and parses. -/
  openEnvelope : SignalingMessage → Option SignalingMessage
  /-- A key can be derived for the peer, so that it can be sealed to. -/
  canSealTo : String → Bool
  /-- The sealed body of the frame opens under the key. -/
  opensUnder : EpochKey → Bool
  /-- The order in which the peer store is searched. -/
  storeOrder : List String
  /-- The live session a room's traffic for the supernode goes to. -/
  liveRoomRoute : String → String
  /-- The room that was created had only to be made again. -/
  materializeOnly : Bool
  /-- The hint is an address and a port. -/
  parseQuicLanHint : String → Option (String × Nat)

/-- Everything verifies, nothing is an envelope and everyone can be sealed to. -/
def Env.permissive : Env where
  unixNow := 0
  nowSecs := 0
  nowMs := 0
  uuid := "invite-1"
  randomKey := List.replicate 32 1
  verifyInboundSignature _ := true
  checkReplay _ := true
  openEnvelope _ := none
  canSealTo _ := true
  opensUnder _ := false
  storeOrder := []
  liveRoomRoute supernodeId := supernodeId
  materializeOnly := false
  parseQuicLanHint _ := none

structure PendingInvite where
  inviterPeerId : String
  inviterIdentityPub : String
  inviteId : String
  relayHint : String
  lanHint : String
  isSupernode : Bool
  createdAt : Nat
  deriving DecidableEq

structure PendingGroupKeyAck where
  epoch : Nat
  /-- Milliseconds. -/
  lastSent : Nat
  attempts : Nat
  deriving DecidableEq

/-- What the client sends. -/
inductive Outgoing where
  /-- A room key, sealed to one member. -/
  | groupKey (member roomId : String) (epoch : Nat) (key : EpochKey)
  /-- The confirmation of a room key, sealed to the keyer. -/
  | groupKeyAck (keyer roomId : String) (epoch : Nat)
  | roomJoin (supernodeId roomId : String)
  | roomLeave (supernodeId roomId : String)
  | roomSubscribe (supernodeId roomId : String)
  | roomUnsubscribe (supernodeId roomId : String)
  | roomListRequest (supernodeId : String)
  | inviteHandshakeAccept (joiner inviteId : String)
  /-- A peer's message that passed the trust gate. -/
  | honoured (sender : String)
  deriving DecidableEq

structure ConnectionManager where
  publicId : String
  peerStore : PeerStore
  pendingInvites : ExtTreeMap String PendingInvite
  /-- The supernodes a session is held with. -/
  supernodes : ExtTreeSet String
  currentSupernodeId : String
  currentRoomId : String
  /-- The room a failover awaits confirmation for. -/
  failoverPendingRoom : Option String
  chatActiveRooms : ExtTreeSet String
  /-- Members by supernode and room, as each supernode last told. -/
  roomGroupMembers : Roster String String
  groupKeys : SenderKeysGroup
  /-- Keys sent and not confirmed, by room and member. -/
  pendingGroupKeyAcks : List ((String × String) × PendingGroupKeyAck)

def ConnectionManager.start (publicId : String) (peerStore : PeerStore) : ConnectionManager where
  publicId := publicId
  peerStore := peerStore
  pendingInvites := ∅
  supernodes := ∅
  currentSupernodeId := ""
  currentRoomId := ""
  failoverPendingRoom := none
  chatActiveRooms := ∅
  roomGroupMembers := ∅
  groupKeys := .new
  pendingGroupKeyAcks := []

/-- A state and what was sent on the way to it. -/
abbrev Outcome := ConnectionManager × List Outgoing

/-- Run the next function on the state reached, after what was sent so far. -/
def Outcome.andThen (o : Outcome) (f : ConnectionManager → Outcome) : Outcome :=
  ((f o.1).1, o.2 ++ (f o.1).2)

@[simp] theorem Outcome.andThen_fst (o : Outcome) (f : ConnectionManager → Outcome) :
    (o.andThen f).1 = (f o.1).1 := rfl

@[simp] theorem Outcome.andThen_snd (o : Outcome) (f : ConnectionManager → Outcome) :
    (o.andThen f).2 = o.2 ++ (f o.1).2 := rfl

end ConquerD.Client
