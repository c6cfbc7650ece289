import ConquerD.Client.Manager

/-!
# Client: sessions with supernodes come and go

A supernode session is opened once and its WebSocket connects, drops and
connects again under it. Losing the connection clears the voice room that ran
over it and looks for a sibling in the cluster; removing the supernode ends the
session. Neither touches the member snapshots the supernode gave.
-/

namespace ConquerD.Client

open Std (ExtTreeSet)
open Wire

/-- The verified siblings of a lost supernode: those with a live connection and
those to dial or wait for. -/
structure FailoverPlan where
  live : List String
  cold : List String

/-- The manager, and the supernodes whose connection is up. -/
structure Sessions where
  manager : ConnectionManager
  connected : ExtTreeSet String

namespace Sessions

def start (publicId : String) (peerStore : PeerStore) : Sessions :=
  ⟨.start publicId peerStore, ∅⟩

end Sessions

namespace ConnectionManager

variable (env : Env) (c : ConnectionManager)

/-- The key a frame for the room is sealed under: that of the current epoch.
Without a real key nothing is sent. -/
def sealKey (P : Platform) (roomId : String) : Option EpochKey :=
  if c.groupKeys.hasRealKey roomId then
    c.groupKeys.epochKey roomId P (c.groupKeys.currentEpoch roomId)
  else none

/-- Rejoins the room on the siblings of the supernode that was lost. -/
def maybeFailoverToCluster (roomId : String) (plan : Option FailoverPlan) : Outcome :=
  match plan with
  | none => (c, [])
  | some plan =>
    let c := { c with currentRoomId := roomId }
    let c :=
      match plan.live.head? with
      | some first =>
        { c with currentSupernodeId := first, failoverPendingRoom := some roomId }
      | none => c
    let joined := plan.live.foldl (fun o sibling =>
      Outcome.andThen o fun c => c.sendRoomJoin env sibling roomId) (c, [])
    (plan.cold.foldl (fun c sibling =>
      if sibling ∈ c.supernodes then c else c.connectSupernodeWs sibling) joined.1, joined.2)

/-- The connection dropped. -/
def wsDisconnected (supernodeId : String) (plan : Option FailoverPlan) : Outcome :=
  if c.currentSupernodeId = supernodeId then
    let lostRoom := c.currentRoomId
    let c := { c with currentRoomId := "", currentSupernodeId := "" }
    if lostRoom = "" then (c, []) else c.maybeFailoverToCluster env lostRoom plan
  else (c, [])

/-- The connection is up. `rejoin` is the room that waited for it. -/
def wsConnected (supernodeId : String) (rejoin : Option String) : Outcome :=
  let list : Outcome := (c, [.roomListRequest supernodeId])
  match rejoin with
  | none => list
  | some roomId => list.andThen fun c =>
      { c with
        failoverPendingRoom :=
          if c.failoverPendingRoom = some roomId then none else c.failoverPendingRoom
        currentSupernodeId := supernodeId
        currentRoomId := roomId }.sendRoomJoin env supernodeId roomId

end ConnectionManager

/-- What happens to the rooms of a client. -/
inductive RoomEvent where
  | inbound (env : Env) (msg : SignalingMessage)
  | retryPendingGroupKeys (env : Env)
  | leaveRoom (supernodeId roomId : String)
  | unsubscribeRoomChat (supernodeId roomId : String)
  | connectSupernode (supernodeId : String)
  | removeSupernode (supernodeId : String)
  | wsConnected (env : Env) (supernodeId : String) (rejoin : Option String)
  | wsDisconnected (env : Env) (supernodeId : String) (plan : Option FailoverPlan)

namespace Sessions

variable (P : Platform) (s : Sessions)

/-- The manager after an event, and what it sent. -/
def manage : RoomEvent → Outcome
  | .inbound env msg => s.manager.handle P (.inbound env msg)
  | .retryPendingGroupKeys env => s.manager.handle P (.retryPendingGroupKeys env)
  | .leaveRoom supernodeId roomId => s.manager.handle P (.leaveRoom supernodeId roomId)
  | .unsubscribeRoomChat supernodeId roomId =>
    s.manager.handle P (.unsubscribeRoomChat supernodeId roomId)
  | .connectSupernode supernodeId => s.manager.handle P (.connectSupernode supernodeId)
  | .removeSupernode supernodeId => s.manager.handle P (.removeSupernode supernodeId)
  | .wsConnected env supernodeId rejoin => s.manager.wsConnected env supernodeId rejoin
  | .wsDisconnected env supernodeId plan => s.manager.wsDisconnected env supernodeId plan

/-- The connections after an event. A session opened anew is not connected. -/
def connectedAfter : RoomEvent → ExtTreeSet String
  | .connectSupernode supernodeId => s.connected.erase supernodeId
  | .removeSupernode supernodeId => s.connected.erase supernodeId
  | .wsConnected _ supernodeId _ =>
    if supernodeId ∈ s.manager.supernodes then s.connected.insert supernodeId else s.connected
  | .wsDisconnected _ supernodeId _ => s.connected.erase supernodeId
  | _ => s.connected

def handle (e : RoomEvent) : Sessions × List Outgoing :=
  (⟨(s.manage P e).1, s.connectedAfter e⟩, (s.manage P e).2)

end Sessions

end ConquerD.Client
