import ConquerD.Client.Inbound
import ConquerD.Lib.Run

/-!
# Client: the connection manager as a transition system

What reaches the connection manager, one event at a time: the user's commands,
the timers, sessions with supernodes and inbound messages. Sessions open and
close at will, which covers invites, cluster siblings and lost connections.
-/

namespace ConquerD.Client

open Std (ExtTreeMap ExtTreeSet)
open Wire

inductive Event where
  | generateInvite (env : Env)
  | acceptInvite (env : Env) (payload : Json)
  | acceptRoomInvite (env : Env) (supernodeId supernodeHint : String)
  | blockPeer (peerId : String)
  | unblockPeer (peerId : String)
  | joinRoom (env : Env) (supernodeId roomId : String)
  | leaveRoom (supernodeId roomId : String)
  | subscribeRoomChat (supernodeId roomId : String)
  | unsubscribeRoomChat (supernodeId roomId : String)
  | connectSupernode (supernodeId : String)
  | removeSupernode (supernodeId : String)
  /-- The supernode that hosted the room was lost and siblings are asked for it. -/
  | failover (roomId : String)
  | pruneInvites (env : Env)
  | retryPendingGroupKeys (env : Env)
  | inbound (env : Env) (msg : SignalingMessage)

namespace ConnectionManager

variable (P : Platform) (c : ConnectionManager)

def joinRoom (env : Env) (supernodeId roomId : String) : Outcome :=
  { c with
    currentSupernodeId := supernodeId
    currentRoomId := roomId
    chatActiveRooms := c.chatActiveRooms.insert (roomScopeKey supernodeId roomId) }.sendRoomJoin env
    supernodeId roomId

/-- We voice in this room on this supernode. -/
def voicing (supernodeId roomId : String) : Bool :=
  c.currentRoomId == roomId && c.currentSupernodeId == supernodeId

/-- Leaving a room's voice. Its keys go unless its chat stays active. -/
def leaveRoom (supernodeId roomId : String) : Outcome :=
  let c :=
    if c.voicing supernodeId roomId then { c with currentRoomId := "", currentSupernodeId := "" }
    else c
  if c.chatActiveRooms.contains (roomScopeKey supernodeId roomId) then
    (c, [.roomLeave supernodeId roomId, .roomSubscribe supernodeId roomId])
  else (c.forgetRoom supernodeId roomId, [.roomLeave supernodeId roomId])

/-- Ending a room's chat. Its keys go unless we still voice there. -/
def unsubscribeRoomChat (supernodeId roomId : String) : Outcome :=
  let c := { c with
    chatActiveRooms := c.chatActiveRooms.erase (roomScopeKey supernodeId roomId) }
  if c.voicing supernodeId roomId then (c, [.roomUnsubscribe supernodeId roomId])
  else (c.forgetRoom supernodeId roomId, [.roomUnsubscribe supernodeId roomId])

def removeSupernode (supernodeId : String) : Outcome :=
  let out : List Outgoing :=
    if c.currentSupernodeId = supernodeId ∧ c.currentRoomId ≠ "" then
      [.roomLeave supernodeId c.currentRoomId]
    else []
  let c :=
    if c.currentSupernodeId = supernodeId then
      { c with currentRoomId := "", currentSupernodeId := "" }
    else c
  ({ c with
      chatActiveRooms := c.chatActiveRooms.filter fun k =>
        !((supernodeId ++ ":").toList.isPrefixOf k.toList)
      supernodes := c.supernodes.erase supernodeId }, out)

def handle : Event → Outcome
  | .generateInvite _ => (c, [])
  | .acceptInvite env payload => (c.handleAcceptInvite env payload, [])
  | .acceptRoomInvite env supernodeId hint => (c.handleAcceptRoomInvite env supernodeId hint, [])
  | .blockPeer peerId => (c.setBlocked peerId true, [])
  | .unblockPeer peerId => (c.setBlocked peerId false, [])
  | .joinRoom env supernodeId roomId => c.joinRoom env supernodeId roomId
  | .leaveRoom supernodeId roomId => c.leaveRoom supernodeId roomId
  | .subscribeRoomChat supernodeId roomId =>
    ({ c with chatActiveRooms := c.chatActiveRooms.insert (roomScopeKey supernodeId roomId) },
      [.roomSubscribe supernodeId roomId])
  | .unsubscribeRoomChat supernodeId roomId => c.unsubscribeRoomChat supernodeId roomId
  | .connectSupernode supernodeId => (c.connectSupernodeWs supernodeId, [])
  | .removeSupernode supernodeId => c.removeSupernode supernodeId
  | .failover roomId => ({ c with failoverPendingRoom := some roomId }, [])
  | .pruneInvites env => (c.pruneInvites env, [])
  | .retryPendingGroupKeys env => c.retryPendingGroupKeys P env
  | .inbound env msg => c.handleInbound P env msg

/-- The state after one event. -/
def step (c : ConnectionManager) (e : Event) : ConnectionManager :=
  (c.handle P e).1

end ConnectionManager

end ConquerD.Client
