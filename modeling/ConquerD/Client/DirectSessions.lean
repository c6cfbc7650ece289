import ConquerD.Client.Manager
import ConquerD.Client.Tls

/-!
# Client: direct sessions

One map holds the direct sessions, by the peer id they go under. A dial files its
session under the id that was dialled, an inbound connection under the id of its
certificate, and a handshake message moves a session to the id it gives. Sampling
of statistics, the requests for hole punches and what is told to the user are left
out; a hole punch ends in a dial. A relabel cuts the ids for its log line by bytes;
where that stops the client, it goes on here.
-/

namespace ConquerD.Client

open Std (ExtTreeMap)
open Lib.Encoding
open ConquerD.Transport (PublicKey)
open Wire

/-! ## Connections -/

/-- The other end of a connection: the certificates it presented, and the keys it
holds. TLS has proven that the certificate's own key is one of them; of a key that
the certificate names, it has not. -/
structure Remote (sha256 : Bytes → Bytes) where
  certs : List Bytes
  /-- The public key in the first certificate, as the TLS library reads it. -/
  ownKey : Option PublicKey
  held : Set PublicKey
  proven : ∀ key, ownKey = some key → key ∈ held

/-- The certificate's own key hashes to the id. -/
def Remote.CertifiedAs {sha256 : Bytes → Bytes} (r : Remote sha256) (p : String) : Prop :=
  ∃ key, r.ownKey = some (.ed25519 key) ∧ p = peerIdFromPubBytes sha256 key

inductive SessionPhase where
  /-- The session has reported its connection, and the report is on its way. -/
  | starting
  | running
  /-- The session has reported its end. Frames it had read may still arrive. -/
  | ended
  deriving DecidableEq

/-- The task of a connection. -/
structure QuicSession (sha256 : Bytes → Bytes) where
  /-- The id it reports under. -/
  peerId : String
  remote : Remote sha256
  phase : SessionPhase

inductive PeerConnectionState where
  | disconnected
  | connecting
  | connected
  deriving DecidableEq

structure PeerConnection where
  state : PeerConnectionState
  /-- The session that takes what is sent. -/
  quicOutTx : Option Nat
  deriving DecidableEq

def PeerConnection.new : PeerConnection where
  state := .disconnected
  quicOutTx := none

structure PendingPeerReconnect where
  host : String
  port : Nat
  attempts : Nat
  /-- Milliseconds. -/
  nextAt : Nat
  deriving DecidableEq

/-- What a step reads from outside, with the settings of direct sessions. -/
structure DirectEnv extends Env where
  directEnabled : Bool
  /-- The endpoint is open, and host and port are a socket address. -/
  dialable : String → Nat → Bool

/-- The connection manager with its direct sessions. -/
structure DirectClient (sha256 : Bytes → Bytes) where
  manager : ConnectionManager
  /-- The peer id of the client itself. -/
  localPeerId : String
  peers : ExtTreeMap String PeerConnection
  quicPeerAliases : ExtTreeMap String String
  pendingPeerReconnects : ExtTreeMap String PendingPeerReconnect
  /-- The peers that are being dialled. -/
  dialing : List String
  /-- The connections so far. A session is known by its place here. -/
  sessions : List (QuicSession sha256)

namespace DirectClient

variable {sha256 : Bytes → Bytes}

def start (publicId localPeerId : String) (peerStore : PeerStore) : DirectClient sha256 where
  manager := .start publicId peerStore
  localPeerId := localPeerId
  peers := ∅
  quicPeerAliases := ∅
  pendingPeerReconnects := ∅
  dialing := []
  sessions := []

variable (env : DirectEnv) (c : DirectClient sha256)

/-- The session that a message for a peer is written to. -/
def directSession (target : String) : Option Nat :=
  c.peers[target]?.bind fun peer => if peer.state = .connected then peer.quicOutTx else none

/-! ## Dialling -/

def connectDirectQuic (peerId host : String) (port : Nat) : DirectClient sha256 :=
  -- no two dials of one peer at a time
  if c.peers[peerId]?.any fun peer => peer.state = .connecting ∨ peer.state = .connected then c
  else if !env.dialable host port then c
  else
    { c with
      dialing := peerId :: c.dialing
      peers := c.peers.insert peerId
        { c.peers[peerId]?.getD .new with state := .connecting } }

/-- The best address of a peer: what it gave first, or this machine. -/
def peerQuicEndpoint (env : Env) (record : PeerRecord) : Option (String × Nat) :=
  (record.relayHints.filterMap env.parseQuicLanHint ++
    if record.quicPort ≠ 0 then [("127.0.0.1", record.quicPort)] else []).head?

/-- Seconds before the next attempt. -/
def peerReconnectBackoff (attempts : Nat) : Nat :=
  min (2 ^ min attempts 6) 60

def schedulePeerReconnect (peerId : String) : DirectClient sha256 :=
  if !env.directEnabled then c
  else
    match (c.manager.peerStore.get peerId).or
        (c.manager.peerStore.getByIdentity env.storeOrder peerId) with
    | none => c
    | some record =>
      if record.blocked || record.revoked || record.isSupernode then c
      else
        match peerQuicEndpoint env.toEnv record with
        | none => c
        | some (host, port) =>
          let attempts := (c.pendingPeerReconnects[peerId]?.map (·.attempts)).getD 0
          { c with
            pendingPeerReconnects := c.pendingPeerReconnects.insert peerId
              { host := host
                port := port
                attempts := min (attempts + 1) (2 ^ 32 - 1)
                nextAt := env.nowMs + 1000 * peerReconnectBackoff attempts } }

def cancelPeerReconnect (peerId : String) : DirectClient sha256 :=
  { c with pendingPeerReconnects := c.pendingPeerReconnects.erase peerId }

/-- The reconnects that are due, of peers without a session. -/
def dueReconnects : List (String × PendingPeerReconnect) :=
  c.pendingPeerReconnects.toList.filter fun e =>
    decide (e.2.nextAt ≤ env.nowMs) && c.peers[e.1]?.all fun peer => peer.state = .disconnected

/-- The next attempt is put off, and the peer dialled. -/
def redial (e : String × PendingPeerReconnect) : DirectClient sha256 :=
  connectDirectQuic env
    { c with
      pendingPeerReconnects := c.pendingPeerReconnects.insert e.1
        { e.2 with nextAt := env.nowMs + 1000 * peerReconnectBackoff e.2.attempts } }
    e.1 e.2.host e.2.port

def tickPeerReconnects : DirectClient sha256 :=
  (c.dueReconnects env).foldl (redial env) c

/-! ## Sessions come and go -/

def openSession (peerId : String) (remote : Remote sha256) : DirectClient sha256 :=
  { c with sessions := c.sessions ++ [⟨peerId, remote, .starting⟩] }

/-- The dial of a peer is done. The certificate is compared with the peer, and a
mismatch logged. -/
def dialled (peerId : String) (remote : Remote sha256) : DirectClient sha256 :=
  if peerId ∈ c.dialing then
    openSession { c with dialing := c.dialing.erase peerId } peerId remote
  else c

/-- Without a peer id from its certificate, the connection is dropped. -/
def handleIncomingQuic (remote : Remote sha256) : DirectClient sha256 :=
  match certPeerId sha256 remote.certs with
  | none => c
  | some peerId => c.openSession peerId remote

def setPhase (session : Nat) (phase : SessionPhase) : DirectClient sha256 :=
  { c with sessions := c.sessions.modify session fun s => { s with phase := phase } }

def quicConnected (session : Nat) (peerId : String) : DirectClient sha256 :=
  cancelPeerReconnect
    { c with peers := c.peers.insert peerId ⟨.connected, some session⟩ } peerId

def resolveQuicPeerAlias (peerId : String) : String :=
  c.quicPeerAliases[peerId]?.getD peerId

/-- Nothing more is sent to the peer. -/
def dropSession (peerId : String) : DirectClient sha256 :=
  if peerId ∈ c.peers then { c with peers := c.peers.insert peerId ⟨.disconnected, none⟩ } else c

def quicDisconnected (peerId : String) : DirectClient sha256 :=
  let canonical := c.resolveQuicPeerAlias peerId
  let c := { c with quicPeerAliases := c.quicPeerAliases.erase peerId }
  let c := c.dropSession peerId
  let c := if canonical ≠ peerId then c.dropSession canonical else c
  let c := c.schedulePeerReconnect env canonical
  if peerId ≠ canonical then c.cancelPeerReconnect peerId else c

/-! ## Relabelling -/

/-- A session may be moved to the id: it is another one, and not our own. -/
def Relabels (current canonical : String) : Prop :=
  current ≠ canonical ∧ canonical ≠ "" ∧ canonical ≠ c.localPeerId

instance (current canonical : String) : Decidable (c.Relabels current canonical) :=
  inferInstanceAs (Decidable (_ ∧ _ ∧ _))

def relabelQuicPeerSession (current canonical : String) : DirectClient sha256 :=
  if c.Relabels current canonical then
    match c.peers[current]? with
    | none => c
    | some provisional =>
      { c with
        peers := (c.peers.erase current).insert canonical provisional
        quicPeerAliases := c.quicPeerAliases.insert current canonical
        pendingPeerReconnects := (c.pendingPeerReconnects.erase current).erase canonical }
  else c

/-- The id a handshake message gives its sender. That of an acceptance, with the
identity beside it, must be the one in the invite; neither is compared with the key
that signed. -/
def handshakePeerId (manager : ConnectionManager) (msg : SignalingMessage) : Option String :=
  match msg.msgType with
  | .inviteHandshakeInit => some (ConnectionManager.joinerPeerId msg)
  | .inviteHandshakeAccept =>
    manager.pendingInvites[(msg.payload.str? "invite_id").getD ""]?.bind fun pending =>
      if ConnectionManager.acceptIdentityPub msg ≠ pending.inviterIdentityPub ∨
          ConnectionManager.acceptPeerId msg ≠ pending.inviterPeerId then none
      else some (ConnectionManager.acceptPeerId msg)
  | _ => none

/-- The id that a message moves the session of its transport to. -/
def relabelTarget (current : String) (env : Env) (msg : SignalingMessage) :
    Option (SignalingMessage × String) :=
  (ConnectionManager.dispatched env msg).bind fun m =>
    (handshakePeerId c.manager m).bind fun p =>
      if c.Relabels current p ∧ current ∈ c.peers then some (m, p) else none

def handleInboundFromQuic (P : Platform) (env : Env) (transportPeerId : String)
    (msg : SignalingMessage) : DirectClient sha256 :=
  match ConnectionManager.dispatched env msg with
  | none => c
  | some m =>
    let relabelled :=
      match handshakePeerId c.manager m with
      | none => c
      | some p => c.relabelQuicPeerSession transportPeerId p
    { relabelled with manager := (c.manager.dispatch P env m).1 }

def blockPeer (peerId : String) : DirectClient sha256 :=
  (cancelPeerReconnect { c with manager := c.manager.setBlocked peerId true } peerId).dropSession
    peerId

end DirectClient

/-! ## Runs -/

inductive DirectEvent (sha256 : Bytes → Bytes) where
  /-- The user dials. -/
  | connectDirect (env : DirectEnv) (peerId host : String) (port : Nat)
  /-- A dial at the start, for an invite, or for a hole punch. -/
  | dial (env : DirectEnv) (peerId host : String) (port : Nat)
  | tickPeerReconnects (env : DirectEnv)
  | dialled (peerId : String) (remote : Remote sha256)
  | dialFailed (env : DirectEnv) (peerId : String)
  | incoming (remote : Remote sha256)
  | quicConnected (session : Nat)
  | quicSignalingData (env : Env) (session : Nat) (msg : SignalingMessage)
  | quicDisconnected (env : DirectEnv) (session : Nat)
  | blockPeer (peerId : String)
  /-- Anything else, inbound messages from supernodes among it. -/
  | other (e : Event)

/-- A session was moved to an id by a message that came on a connection. -/
structure SessionAssignment where
  session : Nat
  signer : PublicId
  peerId : String

/-- The client, and the moves so far. -/
structure DirectLog (sha256 : Bytes → Bytes) where
  client : DirectClient sha256
  assignments : List SessionAssignment

namespace DirectLog

variable {sha256 : Bytes → Bytes}

def start (publicId localPeerId : String) (peerStore : PeerStore) : DirectLog sha256 :=
  ⟨.start publicId localPeerId peerStore, []⟩

/-- A message on the connection of a session. -/
def signalingData (P : Platform) (L : DirectLog sha256) (env : Env) (session : Nat)
    (peerId : String) (msg : SignalingMessage) : DirectLog sha256 where
  client := L.client.handleInboundFromQuic P env peerId msg
  assignments := L.assignments ++
    ((L.client.relabelTarget peerId env msg).map fun t => ⟨session, t.1.sender, t.2⟩).toList

def step (P : Platform) (L : DirectLog sha256) : DirectEvent sha256 → DirectLog sha256
  | .connectDirect env peerId host port =>
    { L with client := (L.client.cancelPeerReconnect peerId).connectDirectQuic env peerId host port }
  | .dial env peerId host port =>
    { L with client := L.client.connectDirectQuic env peerId host port }
  | .tickPeerReconnects env => { L with client := L.client.tickPeerReconnects env }
  | .dialled peerId remote => { L with client := L.client.dialled peerId remote }
  | .dialFailed env peerId =>
    if peerId ∈ L.client.dialing then
      { L with
        client := DirectClient.quicDisconnected env
          { L.client with dialing := L.client.dialing.erase peerId } peerId }
    else L
  | .incoming remote => { L with client := L.client.handleIncomingQuic remote }
  | .quicConnected session =>
    match L.client.sessions[session]? with
    | none => L
    | some s =>
      if s.phase = .starting then
        { L with client := (L.client.setPhase session .running).quicConnected session s.peerId }
      else L
  | .quicSignalingData env session msg =>
    match L.client.sessions[session]? with
    | none => L
    | some s => if s.phase = .starting then L else L.signalingData P env session s.peerId msg
  | .quicDisconnected env session =>
    match L.client.sessions[session]? with
    | none => L
    | some s =>
      if s.phase = .running then
        { L with client := (L.client.setPhase session .ended).quicDisconnected env s.peerId }
      else L
  | .blockPeer peerId => { L with client := L.client.blockPeer peerId }
  | .other e => { L with client := { L.client with manager := L.client.manager.step P e } }

end DirectLog

end ConquerD.Client
