import Mathlib.Data.Rat.Init
import Mathlib.Algebra.Order.Ring.Unbundled.Rat
import ConquerD.Lib.Roster
import ConquerD.Supernode.Crypto

/-!
# Supernode: SFU rooms

Room lifecycle, participants, chat subscribers, the private-room allow list and
invite tokens. Peers are keyed by their canonical spelling. Times are seconds
as rationals, and the decay of a speaker's score over a pause is a parameter.
The order of a room's members is the map's; the source fixes none.
-/

namespace ConquerD.Supernode

open Std (ExtTreeMap ExtTreeSet)
open Lib.Rosters Wire

def maxRoomSize : Nat := 32
def defaultRoomId : String := "default"
def defaultRoomName : String := "Public Voice/Chat Room"
def maxActiveSpeakers : Nat := 5
def speakerSilenceSecs : Rat := 3 / 5

inductive RoomType where
  | publicRoom
  | privateRoom
  deriving DecidableEq, Repr

inductive InvitePolicy where
  | owner
  | members
  deriving DecidableEq, Repr

/-- Anything but exactly `members` is the owner-only policy. -/
def normalizeInvitePolicy (policy : String) : InvitePolicy :=
  if policy = "members" then .members else .owner

structure SpeakerScore where
  score : Rat
  lastActive : Rat
  deriving DecidableEq

structure InviteToken where
  createdBy : String
  uses : Nat
  /-- Zero for an unlimited token. -/
  maxUses : Nat
  deriving DecidableEq, Repr

structure SFURoom where
  roomId : String
  roomName : String
  roomType : RoomType
  creatorId : String
  invitePolicy : InvitePolicy
  participants : ExtTreeMap String Nat
  speakerScores : ExtTreeMap String SpeakerScore
  activeSpeakers : List String
  subscribers : ExtTreeSet String
  allowed : ExtTreeSet String
  inviteTokens : ExtTreeMap String InviteToken
  /-- When the room last became empty; nothing while it is in use. -/
  emptySince : Option Rat
  nextIndex : Nat

namespace SFURoom

def new (roomId roomName : String) (roomType : RoomType) (creatorId : String) : SFURoom where
  roomId := roomId
  roomName := roomName
  roomType := roomType
  creatorId := normalizePublicId creatorId
  invitePolicy := .owner
  participants := ∅
  speakerScores := ∅
  activeSpeakers := []
  subscribers := ∅
  allowed := ∅
  inviteTokens := ∅
  emptySince := none
  nextIndex := 1

def isUnused (room : SFURoom) : Bool :=
  room.participants.isEmpty && room.subscribers.isEmpty

def markInUse (room : SFURoom) : SFURoom :=
  { room with emptySince := none }

def markUnusedIfEmpty (room : SFURoom) (now : Rat) : SFURoom :=
  if room.isUnused then { room with emptySince := some (room.emptySince.getD now) } else room

def isPublic (room : SFURoom) : Bool :=
  room.roomType = .publicRoom

def isPeerAllowed (room : SFURoom) (peerId : String) : Bool :=
  let peerId := normalizePublicId peerId
  room.isPublic || room.allowed.contains peerId || room.creatorId == peerId ||
    room.participants.contains peerId

/-- Membership for invite minting: unlike `isPeerAllowed`, seeing a public room
is not membership. -/
def isInviteEligibleMember (room : SFURoom) (peerId : String) : Bool :=
  let peerId := normalizePublicId peerId
  room.creatorId == peerId || room.allowed.contains peerId ||
    room.participants.contains peerId || room.subscribers.contains peerId

def allowPeer (room : SFURoom) (peerId : String) : SFURoom :=
  { room with allowed := room.allowed.insert (normalizePublicId peerId) }

def isFull (room : SFURoom) : Bool :=
  room.participants.size ≥ maxRoomSize

def participantIds (room : SFURoom) : List String :=
  room.participants.keys

/-- The next participant index: a byte that skips zero when it wraps. -/
def succIndex (index : Nat) : Nat :=
  if index = 255 then 1 else index + 1

def addParticipant (room : SFURoom) (peerId : String) : SFURoom × Bool :=
  let peerId := normalizePublicId peerId
  if room.participants.contains peerId then (room, true)
  else if room.isFull then (room, false)
  else
    ({ room with
        nextIndex := succIndex room.nextIndex
        participants := room.participants.insert peerId room.nextIndex
        subscribers := room.subscribers.erase peerId }.markInUse, true)

/-- Drops a departed peer from the speaker tracking. -/
def forgetSpeaker (room : SFURoom) (peerId : String) : SFURoom :=
  { room with
    speakerScores := room.speakerScores.erase peerId
    activeSpeakers := room.activeSpeakers.filter (· ≠ peerId) }

def removeParticipant (room : SFURoom) (peerId : String) (now : Rat) : SFURoom :=
  let peerId := normalizePublicId peerId
  if room.participants.contains peerId then
    ({ room with participants := room.participants.erase peerId }.markUnusedIfEmpty now).forgetSpeaker
      peerId
  else room

def subscribe (room : SFURoom) (peerId : String) : SFURoom :=
  let peerId := normalizePublicId peerId
  if room.participants.contains peerId then room
  else { room with subscribers := room.subscribers.insert peerId }.markInUse

def unsubscribe (room : SFURoom) (peerId : String) (now : Rat) : SFURoom :=
  let peerId := normalizePublicId peerId
  if room.subscribers.contains peerId then
    { room with subscribers := room.subscribers.erase peerId }.markUnusedIfEmpty now
  else room

def removePeerEntirely (room : SFURoom) (peerId : String) (now : Rat) : SFURoom × Bool :=
  let peerId := normalizePublicId peerId
  let wasParticipant := room.participants.contains peerId
  let wasSubscriber := room.subscribers.contains peerId
  let room := { room with
    participants := room.participants.erase peerId
    subscribers := room.subscribers.erase peerId }
  let room := if wasParticipant then room.forgetSpeaker peerId else room
  let room := if wasParticipant || wasSubscriber then room.markUnusedIfEmpty now else room
  (room, wasParticipant || wasSubscriber)

/-- Everyone who receives the room's text chat: participants, then subscribers. -/
def chatRecipientIds (room : SFURoom) : List String :=
  room.participants.keys ++ room.subscribers.toList

/-- Mints a token; `nonce` is the random text of the source. -/
def generateInviteToken (room : SFURoom) (createdBy : String) (maxUses : Nat) (nonce : String) :
    SFURoom × String :=
  ({ room with
      inviteTokens := room.inviteTokens.insert nonce
        { createdBy := createdBy, uses := 0, maxUses := maxUses } }, nonce)

/-- Re-seeds a token the client presents, as an unlimited one. -/
def reregisterInviteToken (room : SFURoom) (token createdBy : String) : SFURoom × Bool :=
  if token = "" then (room, false)
  else
    ({ room with
        inviteTokens := room.inviteTokens.insert token
          { createdBy := createdBy, uses := 0, maxUses := 0 } }, true)

def validateAndConsumeToken (room : SFURoom) (token peerId : String) : SFURoom × Bool :=
  match room.inviteTokens[token]? with
  | none => (room, false)
  | some it =>
    if it.maxUses > 0 ∧ it.uses ≥ it.maxUses then (room, false)
    else
      let it := if it.maxUses > 0 then { it with uses := it.uses + 1 } else it
      let room := { room with
        inviteTokens := room.inviteTokens.insert token it
        allowed := room.allowed.insert (normalizePublicId peerId) }
      if it.maxUses > 0 ∧ it.uses ≥ it.maxUses then
        ({ room with inviteTokens := room.inviteTokens.erase token }, true)
      else (room, true)

end SFURoom

/-! ## Active speakers -/

section Speakers

variable (decay : Rat → Rat)

/-- A score decayed forward to `now`. -/
def SpeakerScore.effective (s : SpeakerScore) (now : Rat) : Rat :=
  s.score * decay (max (now - s.lastActive) 0)

/-- The position and score of the weakest active speaker: the first of the
minimal ones. -/
def weakestSpeaker (eff : String → Rat) (speakers : List String) : Option (Nat × Rat) :=
  speakers.zipIdx.foldl (fun acc e =>
    match acc with
    | none => some (e.2, eff e.1)
    | some (i, w) => if eff e.1 < w then some (e.2, eff e.1) else some (i, w)) none

/-- Records an audio frame and decides whether it is forwarded. -/
def SFURoom.noteAudioShouldForward (room : SFURoom) (sender : String) (now : Rat) :
    SFURoom × Bool :=
  let entry := room.speakerScores[sender]?.getD { score := 0, lastActive := now }
  let entry := { score := entry.effective decay now + 1, lastActive := now : SpeakerScore }
  let scores := (room.speakerScores.insert sender entry).filter fun _ s =>
    now - s.lastActive ≤ speakerSilenceSecs
  let active := room.activeSpeakers.filter fun id => scores.contains id
  let room := { room with speakerScores := scores, activeSpeakers := active }
  if sender ∈ active then (room, true)
  else if active.length < maxActiveSpeakers then
    ({ room with activeSpeakers := active ++ [sender] }, true)
  else
    let eff := fun id => (scores[id]?.map fun s => s.effective decay now).getD 0
    match weakestSpeaker eff active with
    | some (i, w) =>
      if w < eff sender then ({ room with activeSpeakers := active.set i sender }, true)
      else (room, false)
    | none => (room, false)

end Speakers

/-! ## The manager -/

structure SFURoomManager where
  rooms : ExtTreeMap String SFURoom

inductive InviteMint where
  | ok (token : String)
  | roomNotFound
  | notAuthorized
  deriving DecidableEq, Repr

inductive JoinDenial where
  | roomAbsent
  | notAllowed
  | roomFull
  | joinFailed
  deriving DecidableEq, Repr

/-- The reason text of a `SfuJoinResult`. -/
def JoinDenial.reason : JoinDenial → String
  | roomAbsent => "room_absent"
  | notAllowed => "not_allowed"
  | roomFull => "room_full"
  | joinFailed => "join_failed"

namespace SFURoomManager

def new : SFURoomManager where
  rooms := (∅ : ExtTreeMap String SFURoom).insert defaultRoomId
    (SFURoom.new defaultRoomId defaultRoomName .publicRoom "")

def getRoom (mgr : SFURoomManager) (roomId : String) : Option SFURoom :=
  mgr.rooms[roomId]?

/-- Write back one room. -/
def setRoom (mgr : SFURoomManager) (roomId : String) (room : SFURoom) : SFURoomManager :=
  { mgr with rooms := mgr.rooms.insert roomId room }

/-- Creates the room, or returns the existing one untouched; the Boolean says
whether it was created. The id is the caller's, who derives an absent one. -/
def createRoomWithPolicy (mgr : SFURoomManager) (roomId roomName : String) (roomType : RoomType)
    (creatorId invitePolicy : String) (now : Rat) : SFURoomManager × SFURoom × Bool :=
  match mgr.getRoom roomId with
  | some room => (mgr, room, false)
  | none =>
    let room := { SFURoom.new roomId roomName roomType creatorId with
      invitePolicy := normalizeInvitePolicy invitePolicy }.markUnusedIfEmpty now
    (mgr.setRoom roomId room, room, true)

def createRoom (mgr : SFURoomManager) (roomId roomName : String) (roomType : RoomType)
    (creatorId : String) (now : Rat) : SFURoomManager × SFURoom × Bool :=
  mgr.createRoomWithPolicy roomId roomName roomType creatorId "owner" now

/-- Drops peer-created rooms that have been unused for `idleSecs`. -/
def gcIdleRooms (mgr : SFURoomManager) (now idleSecs : Rat) : SFURoomManager where
  rooms := mgr.rooms.filter fun roomId room =>
    roomId = defaultRoomId || room.creatorId = "" ||
      match room.emptySince with
      | none => true
      | some emptySince => now - emptySince < idleSecs

def joinRoom (mgr : SFURoomManager) (peerId roomId : String) :
    SFURoomManager × Bool × List String :=
  let peerId := normalizePublicId peerId
  match mgr.getRoom roomId with
  | none => (mgr, false, [])
  | some room =>
    if room.isPeerAllowed peerId then
      let (room, ok) := room.addParticipant peerId
      (mgr.setRoom roomId room, ok, room.participantIds)
    else (mgr, false, [])

def classifyJoinDenial (mgr : SFURoomManager) (peerId roomId : String) : JoinDenial :=
  let peerId := normalizePublicId peerId
  match mgr.getRoom roomId with
  | none => .roomAbsent
  | some room =>
    if !room.isPeerAllowed peerId then .notAllowed
    else if room.isFull then .roomFull
    else .joinFailed

/-- An emptied room that nobody owns goes away. -/
def dropIfAnonymous (mgr : SFURoomManager) (roomId : String) (room : SFURoom) : SFURoomManager :=
  if room.isUnused && room.creatorId == "" && roomId != defaultRoomId then
    { mgr with rooms := mgr.rooms.erase roomId }
  else mgr.setRoom roomId room

def leaveRoom (mgr : SFURoomManager) (peerId roomId : String) (now : Rat) :
    SFURoomManager × List String :=
  match mgr.getRoom roomId with
  | none => (mgr, [])
  | some room =>
    let room := (room.removeParticipant peerId now).markUnusedIfEmpty now
    (mgr.dropIfAnonymous roomId room, room.participantIds)

/-- Removes the peer from every room; the result lists each room it was in with
the participants that remain. -/
def removePeerFromAll (mgr : SFURoomManager) (peerId : String) (now : Rat) :
    SFURoomManager × List (String × List String) :=
  let peerId := normalizePublicId peerId
  let roomIds := (mgr.rooms.toList.filter fun e =>
    e.2.participants.contains peerId || e.2.subscribers.contains peerId).map (·.1)
  roomIds.foldl (fun (acc : SFURoomManager × List (String × List String)) roomId =>
    match acc.1.getRoom roomId with
    | none => acc
    | some room =>
      let (room, wasPresent) := room.removePeerEntirely peerId now
      if wasPresent then
        (acc.1.dropIfAnonymous roomId room, acc.2 ++ [(roomId, room.participantIds)])
      else (acc.1.setRoom roomId room, acc.2)) (mgr, [])

/-- The active-speaker gate: every participant of the room when the frame is
forwarded, nothing when it is shed. -/
def audioForwardTargets (decay : Rat → Rat) (mgr : SFURoomManager) (roomId sender : String)
    (now : Rat) : SFURoomManager × Option (List String) :=
  match mgr.getRoom roomId with
  | none => (mgr, none)
  | some room =>
    let (room, forward) := room.noteAudioShouldForward decay sender now
    (mgr.setRoom roomId room, if forward then some room.participantIds else none)

def getChatRecipients (mgr : SFURoomManager) (roomId : String) : List String :=
  match mgr.getRoom roomId with
  | none => []
  | some room => room.chatRecipientIds

def isChatSender (mgr : SFURoomManager) (roomId peerId : String) : Bool :=
  let peerId := normalizePublicId peerId
  match mgr.getRoom roomId with
  | none => false
  | some room => room.participants.contains peerId || room.subscribers.contains peerId

def isRoomAuthorizedPeer (mgr : SFURoomManager) (peerId : String) : Bool :=
  mgr.rooms.any fun _ room => room.isInviteEligibleMember peerId

def subscribe (mgr : SFURoomManager) (peerId roomId : String) : SFURoomManager × Bool :=
  match mgr.getRoom roomId with
  | none => (mgr, false)
  | some room =>
    if room.isPeerAllowed peerId then (mgr.setRoom roomId (room.subscribe peerId), true)
    else (mgr, false)

def unsubscribe (mgr : SFURoomManager) (peerId roomId : String) (now : Rat) : SFURoomManager :=
  match mgr.getRoom roomId with
  | none => mgr
  | some room => mgr.setRoom roomId (room.unsubscribe peerId now)

def validateRoomInvite (mgr : SFURoomManager) (roomId token peerId : String) :
    SFURoomManager × Bool :=
  match mgr.getRoom roomId with
  | none => (mgr, false)
  | some room =>
    let (room, ok) := room.validateAndConsumeToken token peerId
    (mgr.setRoom roomId room, ok)

def allowPeer (mgr : SFURoomManager) (roomId peerId : String) : SFURoomManager :=
  match mgr.getRoom roomId with
  | none => mgr
  | some room => mgr.setRoom roomId (room.allowPeer peerId)

/-- Gives a room without a creator the proven owner as its creator. -/
def adoptCreatorIfEmpty (mgr : SFURoomManager) (roomId ownerPub : String) : SFURoomManager :=
  if ownerPub = "" then mgr
  else
    match mgr.getRoom roomId with
    | some room =>
      if room.creatorId = "" then mgr.setRoom roomId { room with creatorId := ownerPub } else mgr
    | none => mgr

def generateInviteToken (mgr : SFURoomManager) (roomId createdBy nonce : String) :
    SFURoomManager × Option String :=
  match mgr.getRoom roomId with
  | none => (mgr, none)
  | some room =>
    let (room, token) := room.generateInviteToken createdBy 1 nonce
    (mgr.setRoom roomId room, some token)

def reregisterInviteToken (mgr : SFURoomManager) (roomId token createdBy : String) :
    SFURoomManager × Bool :=
  match mgr.getRoom roomId with
  | none => (mgr, false)
  | some room =>
    let (room, ok) := room.reregisterInviteToken token createdBy
    (mgr.setRoom roomId room, ok)

def generateInviteTokenChecked (mgr : SFURoomManager) (roomId requester nonce : String) :
    SFURoomManager × InviteMint :=
  match mgr.getRoom roomId with
  | none => (mgr, .roomNotFound)
  | some room =>
    if room.creatorId = "" then (mgr, .notAuthorized)
    else if room.creatorId = requester ∨
        (room.invitePolicy = .members ∧ room.isInviteEligibleMember requester) then
      let (room, token) := room.generateInviteToken requester 1 nonce
      (mgr.setRoom roomId room, .ok token)
    else (mgr, .notAuthorized)

end SFURoomManager

end ConquerD.Supernode
