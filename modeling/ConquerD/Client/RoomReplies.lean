import ConquerD.Client.Sessions

/-!
# Client: what supernodes answer about rooms

The three replies that steer the room session: a room was created, an invite to
a room was looked at, a join was refused. A reply is matched with what is
pending by its room; whoever signed it is taken for the supernode. A join to a
room that a supernode does not know yet is sent again for a while, and one to a
lost room once a sibling of its supernode is connected.
-/

namespace ConquerD.Client

open Std (ExtTreeMap ExtTreeSet)
open Wire

inductive RoomReplyType where
  | roomCreated
  | roomInviteResult
  | joinResult
  deriving DecidableEq

/-- A reply that passed its checks. -/
structure RoomReply where
  kind : RoomReplyType
  sender : PublicId
  payload : Json

namespace RoomReply

variable (r : RoomReply)

def roomId : String := (r.payload.str? "room_id").getD ""

def flag (field : String) : Bool :=
  ((r.payload.get? field).bind Json.asBool?).getD false

def denied : Bool := r.flag "denied"

def accepted : Bool := r.flag "accepted"

/-- Why a join was refused. -/
def reason : String := (r.payload.str? "reason").getD "join_failed"

/-- The reply as a message of the manager. -/
def message : SignalingMessage where
  msgType := .sfuRoomCreated
  sender := r.sender
  payload := r.payload

end RoomReply

/-- A join that is sent again, in milliseconds since it was. -/
structure PendingRoomJoinRetry where
  lastSent : Nat
  attempts : Nat

namespace PendingRoomJoinRetry

def roomJoinRetryBaseMs : Nat := 500

def roomJoinRetryMaxMs : Nat := 8000

def roomJoinMaxAttempts : Nat := 8

def due (p : PendingRoomJoinRetry) (nowMs : Nat) : Bool :=
  decide (nowMs - p.lastSent ≥ min (roomJoinRetryBaseMs * 2 ^ p.attempts) roomJoinRetryMaxMs)

end PendingRoomJoinRetry

/-- The connection manager with its tables of what awaits a reply. -/
structure RoomClient where
  manager : ConnectionManager
  /-- Rooms made again and not yet confirmed, counted by supernode and room. The counts
  are natural numbers and do not wrap. -/
  pendingMaterialize : ExtTreeMap String Nat
  /-- Private rooms whose invite is being looked at, by supernode and room. -/
  pendingPrivateRoomJoins : ExtTreeSet String
  /-- Joins to send again, by supernode and room. -/
  pendingRoomJoinRetries : List ((String × String) × PendingRoomJoinRetry)
  /-- The room to rejoin on a supernode once it is connected. -/
  pendingFailoverRejoin : ExtTreeMap String String

/-! ## Pending tables -/

/-- One less for a key; nothing when it has no entry. -/
def decrementPending (m : ExtTreeMap String Nat) (key : String) : Option (ExtTreeMap String Nat) :=
  m[key]?.map fun count => if count > 1 then m.insert key (count - 1) else m.erase key

/-- The table with one pending create of the room less: that of the host, or else
one of any host. The keys are visited from some point on. -/
def takePendingMaterialize (m : ExtTreeMap String Nat) (visit : Nat) (host roomId : String) :
    Option (ExtTreeMap String Nat) :=
  let candidates := m.keys.filter fun k => endsWithRoom k roomId
  ((decrementPending m (roomScopeKey host roomId)).or
    (if bare host ≠ host then decrementPending m (roomScopeKey (bare host) roomId) else none)).or
    (candidates[visit % candidates.length]?.bind (decrementPending m))

/-- Whether a key of the room is in the set, and the set without these. -/
def takePendingScopedKey (set : ExtTreeSet String) (host roomId : String) :
    Bool × ExtTreeSet String :=
  let exact := set.erase (roomScopeKey host roomId)
  let both := if bare host ≠ host then exact.erase (roomScopeKey (bare host) roomId) else exact
  let hit := set.contains (roomScopeKey host roomId) ||
    (bare host != host && exact.contains (roomScopeKey (bare host) roomId))
  let extras := both.toList.any fun k => endsWithRoom k roomId
  (hit || extras, both.filter fun k => !endsWithRoom k roomId)

namespace RoomClient

variable (env : Env) (c : RoomClient) (r : RoomReply)

def start (publicId : String) (peerStore : PeerStore) : RoomClient :=
  ⟨.start publicId peerStore, ∅, ∅, [], ∅⟩

/-! ## Commands -/

/-- Asks for a room. One that is made again under a known id is tracked. -/
def sendRoomCreate (supernodeId : String) (roomId : Option String) (materializeOnly : Bool) :
    RoomClient :=
  match roomId.filter (· ≠ "") with
  | some rid =>
    if materializeOnly then
      let key := roomScopeKey (env.liveRoomRoute supernodeId) rid
      { c with pendingMaterialize :=
          c.pendingMaterialize.insert key ((c.pendingMaterialize[key]?).getD 0 + 1) }
    else c
  | none => c

def joinRoomWithInvite (supernodeId roomId : String) : RoomClient :=
  let route := env.liveRoomRoute supernodeId
  let pending := c.pendingPrivateRoomJoins.insert (roomScopeKey route roomId)
  { c with
    manager := { c.manager with
      currentSupernodeId := env.liveRoomRoute route
      currentRoomId := roomId
      chatActiveRooms := c.manager.chatActiveRooms.insert (roomScopeKey route roomId) }
    pendingPrivateRoomJoins :=
      if route ≠ supernodeId then pending.insert (roomScopeKey supernodeId roomId) else pending }

/-! ## Replies -/

def handleRoomCreated (visit : Nat) : RoomClient :=
  if r.denied || r.roomId == "" then c
  else
    let taken := takePendingMaterialize c.pendingMaterialize visit r.sender.text r.roomId
    { c with
      manager :=
        (c.manager.handleSfuRoomCreated { env with materializeOnly := taken.isSome } r.message).1
      pendingMaterialize := taken.getD c.pendingMaterialize }

def leaveCurrent : RoomClient :=
  { c with manager := { c.manager with currentRoomId := "", currentSupernodeId := "" } }

def handleRoomInviteResult : RoomClient :=
  if r.roomId = "" then c
  else
    let taken := takePendingScopedKey c.pendingPrivateRoomJoins r.sender.text r.roomId
    let c := { c with pendingPrivateRoomJoins := taken.2 }
    if r.accepted then
      if taken.1 || c.manager.currentRoomId == r.roomId then
        { c with
          manager := (ConnectionManager.sendRoomJoin env
            { c.manager with currentSupernodeId := r.sender.text, currentRoomId := r.roomId }
            r.sender.text r.roomId).1 }
      else c
    else if c.manager.currentRoomId == r.roomId &&
        (c.manager.currentSupernodeId == r.sender.text || c.manager.currentSupernodeId == "" ||
          bare c.manager.currentSupernodeId == bare r.sender.text) then c.leaveCurrent
    else c

/-- The joins to send again once one was refused: that one too, if the supernode
does not know the room yet. -/
def joinRetriesAfter : List ((String × String) × PendingRoomJoinRetry) :=
  let key := (r.sender.text, r.roomId)
  if r.reason = "room_absent" ∧ c.pendingRoomJoinRetries.lookup key = none then
    c.pendingRoomJoinRetries ++ [(key, ⟨env.nowMs, 0⟩)]
  else c.pendingRoomJoinRetries

/-- No supernode is waited for to rejoin the room. -/
def rejoinsWithout (roomId : String) : ExtTreeMap String String :=
  c.pendingFailoverRejoin.filter fun _ room => room != roomId

def handleJoinResult : RoomClient :=
  if r.roomId == "" || r.accepted then c
  else
    let left :=
      if c.manager.currentRoomId == r.roomId &&
          (c.manager.currentSupernodeId == r.sender.text || c.manager.currentSupernodeId == "") then
        c.leaveCurrent
      else c
    { left with
      manager := { left.manager with
        failoverPendingRoom := left.manager.failoverPendingRoom.filter (· ≠ r.roomId) }
      pendingPrivateRoomJoins :=
        (takePendingScopedKey left.pendingPrivateRoomJoins r.sender.text r.roomId).2
      pendingFailoverRejoin := c.rejoinsWithout r.roomId
      pendingRoomJoinRetries := c.joinRetriesAfter env r }

def handleReply (visit : Nat) : RoomClient :=
  match r.kind with
  | .roomCreated => c.handleRoomCreated env r visit
  | .roomInviteResult => c.handleRoomInviteResult env r
  | .joinResult => c.handleJoinResult env r

/-! ## Other events -/

/-- The list of a room's members that an event brings. -/
def memberList? : Event → Option SignalingMessage
  | .inbound env msg => (ConnectionManager.dispatched env msg).filter (·.msgType == .sfuMembers)
  | _ => none

/-- The joins to send again, after an event: a list of the room's members and
leaving the room settle its own. -/
def joinRetriesLeft (e : Event) : List ((String × String) × PendingRoomJoinRetry) :=
  let settled := match e with
    | .leaveRoom _ roomId => some roomId
    | e => (memberList? e).map ConnectionManager.roomOf
  c.pendingRoomJoinRetries.filter fun entry => some entry.1.2 != settled

def handleOther (P : Platform) (e : Event) : RoomClient where
  manager := c.manager.step P e
  pendingMaterialize := c.pendingMaterialize
  pendingPrivateRoomJoins := c.pendingPrivateRoomJoins
  pendingRoomJoinRetries := c.joinRetriesLeft e
  pendingFailoverRejoin :=
    match (memberList? e).map ConnectionManager.roomOf with
    | some roomId =>
      if c.manager.failoverPendingRoom = some roomId then c.rejoinsWithout roomId
      else c.pendingFailoverRejoin
    | none => c.pendingFailoverRejoin

/-- A supernode is connected; the room that waited for it is rejoined there and
nowhere else. -/
def wsConnected (supernodeId : String) : RoomClient :=
  let rejoin := c.pendingFailoverRejoin[supernodeId]?
  { c with
    manager := (c.manager.wsConnected env supernodeId rejoin).1
    pendingFailoverRejoin :=
      match rejoin with
      | some roomId => (c.pendingFailoverRejoin.erase supernodeId).filter fun _ room => room != roomId
      | none => c.pendingFailoverRejoin }

/-- A supernode was lost. A room that was current there waits for its siblings
that are not connected, and for itself when none is. -/
def wsDisconnected (supernodeId : String) (plan : Option FailoverPlan) : RoomClient :=
  let room := c.manager.currentRoomId
  { c with
    manager := (c.manager.wsDisconnected env supernodeId plan).1
    pendingFailoverRejoin :=
      match plan with
      | some plan =>
        if c.manager.currentSupernodeId = supernodeId ∧ room ≠ "" then
          let own := if plan.live.isEmpty then c.pendingFailoverRejoin.insert supernodeId room
            else c.pendingFailoverRejoin
          plan.cold.foldl (fun m sibling => m.insert sibling room) own
        else c.pendingFailoverRejoin
      | none => c.pendingFailoverRejoin }

/-- Sends the joins again that are due, going through the table in some order.
Those to supernodes without a session are given up, and those sent too often. -/
def retryPendingRoomJoins (visit : List (String × String)) : RoomClient :=
  let kept := c.pendingRoomJoinRetries.filter fun entry =>
    decide (entry.1.1 ∈ c.manager.supernodes) &&
      decide (entry.2.attempts < PendingRoomJoinRetry.roomJoinMaxAttempts)
  let due := visit.filter fun key => (kept.lookup key).any (·.due env.nowMs)
  { c with
    manager := due.foldl (fun m key => (m.sendRoomJoin env key.1 key.2).1) c.manager
    pendingRoomJoinRetries := kept.map fun entry =>
      if entry.2.due env.nowMs then (entry.1, ⟨env.nowMs, entry.2.attempts + 1⟩) else entry }

end RoomClient

/-! ## Runs -/

/-- A create of the user that was not answered yet. -/
structure Create where
  supernodeId : String
  roomId : Option String

inductive SteeringEvent where
  | createRoom (env : Env) (supernodeId : String) (roomId : Option String) (materializeOnly : Bool)
  | joinRoomWithInvite (env : Env) (supernodeId roomId : String)
  | reply (env : Env) (visit : Nat) (r : RoomReply)
  | wsConnected (env : Env) (supernodeId : String)
  | wsDisconnected (env : Env) (supernodeId : String) (plan : Option FailoverPlan)
  | retryPendingRoomJoins (env : Env) (visit : List (String × String))
  /-- Any other event; one that brings a created room is a reply. -/
  | other (e : Event)

/-- The message of the event says that a room was created. -/
def Event.isRoomCreated : Event → Bool
  | .inbound env msg =>
    (ConnectionManager.dispatched env msg).any fun m => m.msgType == .sfuRoomCreated
  | _ => false

/-- The client, and the creates of the user it has no answer to. -/
structure SteeringLog where
  client : RoomClient
  creates : List Create

namespace SteeringLog

def answeredBy (r : RoomReply) (create : Create) : Bool :=
  bare create.supernodeId == bare r.sender.text &&
    (create.roomId.isNone || create.roomId == some r.roomId)

def step (P : Platform) (L : SteeringLog) : SteeringEvent → SteeringLog
  | .createRoom env supernodeId roomId materializeOnly =>
    ⟨L.client.sendRoomCreate env supernodeId roomId materializeOnly,
      if materializeOnly then L.creates
      else L.creates ++ [⟨env.liveRoomRoute supernodeId, roomId.filter (· ≠ "")⟩]⟩
  | .joinRoomWithInvite env supernodeId roomId =>
    { L with client := L.client.joinRoomWithInvite env supernodeId roomId }
  | .reply env visit r =>
    ⟨L.client.handleReply env r visit,
      if r.kind = .roomCreated then L.creates.eraseP (answeredBy r) else L.creates⟩
  | .wsConnected env supernodeId =>
    { L with client := L.client.wsConnected env supernodeId }
  | .wsDisconnected env supernodeId plan =>
    { L with client := L.client.wsDisconnected env supernodeId plan }
  | .retryPendingRoomJoins env visit =>
    { L with client := L.client.retryPendingRoomJoins env visit }
  | .other e =>
    if e.isRoomCreated then L else { L with client := L.client.handleOther P e }

end SteeringLog

end ConquerD.Client
