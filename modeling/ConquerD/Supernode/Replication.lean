import ConquerD.Supernode.Node

/-!
# Supernode: a cluster of nodes

The nodes of a cluster side by side, with the frames they hand over to each
other. A frame handed over stays available to the links, which may carry any
number of copies of it to any node at any time. A node may restart: it comes
back with its peers from disk, an empty cache of seen ids and its game counter
at zero. Beside the nodes' states the cluster records what has been originated,
processed and delivered; the nodes never read these records.
-/

namespace ConquerD.Supernode

open Wire

variable {ν : Type} [DecidableEq ν]

/-- A frame handed over to the cluster. A signed client message is one frame,
whoever hands it over. A game payload has nothing of its own to tell it apart,
so the node it entered at numbers it, over all the node's lifetimes. -/
structure Frame (ν : Type) where
  serial : Option (ν × Nat)
  roomId : String
  messageId : String
  raw : String
  deriving DecidableEq

inductive ClusterEvent (ν : Type) where
  /-- Something that reaches the node from outside the cluster. -/
  | node (n : ν) (e : Event)
  /-- A copy of the frame reaches the node over some link. -/
  | copy (m : ν) (f : Frame ν) (env : Env)
  | restart (n : ν) (peers : PeerStore) (handshake : HandshakeManager)

structure Cluster (ν : Type) where
  nodes : ν → SupernodeState
  originated : List (Frame ν)
  /-- The number of game frames each node has originated. -/
  minted : ν → Nat
  /-- The frames with an id each node has processed since it started, in order. -/
  processed : ν → List (Frame ν)
  /-- The frames a node had processed when it restarted. -/
  forgotten : ν → List (Frame ν)
  /-- Node, frame and recipient of every delivery. -/
  deliveries : List (ν × Frame ν × String)

/-- The peer a delivered frame goes to. -/
def Outgoing.deliveredTo : Outgoing → Option String
  | .frame target _ => some target
  | .datagram target _ => some target
  | .gameDatagram target _ => some target
  | _ => none

/-- The frames among what a node sends. -/
def handedOver (serial : Option (ν × Nat)) (out : List Outgoing) : List (Frame ν) :=
  out.filterMap fun
    | .replicate roomId messageId raw => some ⟨serial, roomId, messageId, raw⟩
    | _ => none

namespace Cluster

variable (P : Platform) (c : Cluster ν)

/-- Every node has just started. -/
def start (config : ν → Config) (peers : ν → PeerStore) (handshake : ν → HandshakeManager) :
    Cluster ν where
  nodes n := .start (config n) (peers n) (handshake n)
  originated := []
  minted _ := 0
  processed _ := []
  forgotten _ := []
  deliveries := []

/-- Node `n` takes the event, and what it hands over is recorded. -/
def handleAt (n : ν) (serial : Option (ν × Nat)) (e : Event) : Cluster ν :=
  let (st, out) := (c.nodes n).handle P e
  { c with
    nodes := Function.update c.nodes n st
    originated := c.originated ++ handedOver serial out }

def deliverCopy (m : ν) (f : Frame ν) (env : Env) : Cluster ν :=
  let (st, out) := (c.nodes m).deliverReplicatedRoomFrame P env f.roomId f.messageId f.raw
  let isNew := ((c.nodes m).insertSeen f.messageId).2
  { c with
    nodes := Function.update c.nodes m st
    processed :=
      if isNew ∧ f.messageId ≠ "" then Function.update c.processed m (c.processed m ++ [f])
      else c.processed
    deliveries := c.deliveries ++ (out.filterMap Outgoing.deliveredTo).map (m, f, ·) }

def step : ClusterEvent ν → Cluster ν
  -- frames of the cluster arrive as copies
  | .node _ (.replicated ..) => c
  | .node n (.gameDatagram sessionId fromPeer payload) =>
    { c.handleAt P n (some (n, c.minted n)) (.gameDatagram sessionId fromPeer payload) with
      minted :=
        if (c.nodes n).config.clustered then Function.update c.minted n (c.minted n + 1)
        else c.minted }
  | .node n e => c.handleAt P n none e
  | .copy m f env => if f ∈ c.originated then c.deliverCopy P m f env else c
  | .restart n peers handshake =>
    { c with
      nodes := Function.update c.nodes n (.start (c.nodes n).config peers handshake)
      processed := Function.update c.processed n []
      forgotten := Function.update c.forgotten n (c.forgotten n ++ c.processed n) }

end Cluster

end ConquerD.Supernode
