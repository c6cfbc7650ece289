import ConquerD.Lib.Roster
import ConquerD.Supernode.Crypto
import ConquerD.Supernode.Tls

/-!
# Supernode: the cluster link

Cluster membership as configured, the table of live links, the acceptance of
an inbound link, and the bounded cache that recognises replicated frames seen
before.
-/

namespace ConquerD.Supernode

open Std (ExtTreeMap)
open Lib.Rosters Wire

structure ClusterMember where
  identityPub : String
  relayAddr : String
  clusterAddr : Option String
  wsAddr : Option String

structure ClusterConfig where
  clusterId : String
  members : List ClusterMember

def ClusterConfig.contains (config : ClusterConfig) (identityPub : String) : Bool :=
  config.members.any fun m => bare m.identityPub == bare identityPub

structure ClusterMembership where
  config : ClusterConfig
  selfId : String

def ClusterMembership.new (config : ClusterConfig) (selfIdentityPub : String) :
    ClusterMembership where
  config := config
  selfId := bare selfIdentityPub

/-- Whether the id is another member of the cluster. -/
def ClusterMembership.isPeerMember (m : ClusterMembership) (identityPub : String) : Bool :=
  bare identityPub != m.selfId && m.config.contains (bare identityPub)

/-- Live links by member id (each named by its connection), and the rooms each
member has said it hosts subscribers for. -/
structure LinkState where
  peers : ExtTreeMap String Nat
  remoteSubs : Roster String String

def LinkState.new : LinkState where
  peers := ∅
  remoteSubs := ∅

/-- Members that have local subscribers for the room. -/
def LinkState.membersForRoom (st : LinkState) (roomId : String) : List String :=
  (st.remoteSubs.toList.filter fun e => roomId ∈ e.2).map (·.1)

inductive IncomingLink where
  | noPeerId (error : PeerIdError)
  | notAMember
  | up (memberId : String)
  deriving DecidableEq

/-- Acceptance of an inbound link, up to the point where `run_link` has
registered its outbound channel. -/
def LinkState.handleIncoming (st : LinkState) (membership : ClusterMembership)
    (certs : List (List UInt8)) (connection : Nat) : LinkState × IncomingLink :=
  match extractPeerId certs with
  | .error e => (st, .noPeerId e)
  | .ok peerId =>
    let peerId := bare peerId
    if membership.isPeerMember peerId then
      ({ st with peers := st.peers.insert peerId connection }, .up peerId)
    else (st, .notAMember)

/-- Teardown of a link. -/
def LinkState.closeLink (st : LinkState) (memberId : String) : LinkState where
  peers := st.peers.erase memberId
  remoteSubs := st.remoteSubs.erase memberId

/-! ## The cache of seen ids -/

/-- Recently seen ids, oldest first. The source keeps a hash set beside the
queue for lookup; the two hold the same ids. -/
structure SeenCache where
  order : List String
  cap : Nat
  deriving DecidableEq

def SeenCache.new (cap : Nat) : SeenCache where
  order := []
  cap := cap

/-- Records `id`; the Boolean says whether it had not been seen before. -/
def SeenCache.insertNew (c : SeenCache) (id : String) : SeenCache × Bool :=
  if id = "" then (c, true)
  else if id ∈ c.order then (c, false)
  else
    let order := c.order ++ [id]
    ({ c with order := if order.length > c.cap then order.drop 1 else order }, true)

/-!
## Supernode: cluster links over time

The table of a node's cluster links as its links come and go. Every link runs a
read loop of its own: it registers when it starts, files the subscriptions it
reads, and takes its member out of the table when it ends. The links of one
member share one entry. A link is known by its place among those that were
started.
-/

open Std (ExtTreeMap ExtTreeSet)

namespace LinkState

/-- The outbound channel of a link that starts takes the member's entry. -/
def register (st : LinkState) (memberId : String) (link : Nat) : LinkState :=
  { st with peers := st.peers.insert memberId link }

/-- The rooms a member hosts subscribers for, in the place of those it named before. -/
def setSubscriptions (st : LinkState) (memberId : String) (rooms : List String) : LinkState :=
  { st with remoteSubs := st.remoteSubs.insert memberId (ExtTreeSet.ofList rooms) }

/-- The links whose outbound channel a frame of the room is handed to. -/
def replicate (st : LinkState) (roomId : String) : List Nat :=
  (st.membersForRoom roomId).filterMap fun member => st.peers[member]?

end LinkState

/-- A link and whether its `run_link` is still on its way. -/
structure ClusterRun where
  memberId : String
  running : Bool
  deriving DecidableEq

structure LinkTable where
  state : LinkState
  /-- The links so far. -/
  links : List ClusterRun
  /-- The subscriptions that were read and the links they came by, the latest first. -/
  heard : List (Nat × List String)

/-- What happens on the links, in any order. -/
inductive LinkEvent where
  /-- `run_link` starts, for a member that was dialed or accepted. -/
  | started (memberId : String)
  /-- The read loop of a link takes an authenticated `Subscriptions`. -/
  | subscriptions (link : Nat) (rooms : List String)
  /-- The read loop takes another authenticated message; no other kind changes
  who is registered or which rooms are filed. -/
  | otherMessage (link : Nat)
  /-- The read loop has ended and `run_link` tears the link down. -/
  | ended (link : Nat)
  deriving DecidableEq

namespace LinkTable

def new : LinkTable where
  state := .new
  links := []
  heard := []

/-- The member of a link that is still running. -/
def memberOf (t : LinkTable) (link : Nat) : Option String :=
  (t.links[link]?.filter (·.running)).map (·.memberId)

def step (t : LinkTable) : LinkEvent → LinkTable
  | .started memberId =>
    { t with
      state := t.state.register memberId t.links.length
      links := t.links ++ [⟨memberId, true⟩] }
  | .subscriptions link rooms =>
    match t.memberOf link with
    | none => t
    | some memberId =>
      { t with
        state := t.state.setSubscriptions memberId rooms
        heard := (link, rooms) :: t.heard }
  | .otherMessage _ => t
  | .ended link =>
    match t.memberOf link with
    | none => t
    | some memberId =>
      { t with
        state := t.state.closeLink memberId
        links := t.links.set link ⟨memberId, false⟩ }

/-- The last subscriptions that came by a link to the member that is still running. -/
def lastHeard (t : LinkTable) (memberId : String) : Option (List String) :=
  (t.heard.find? fun e => t.memberOf e.1 = some memberId).map (·.2)

end LinkTable

end ConquerD.Supernode
