import ConquerD.Client.DirectSessions
import ConquerD.Client.Verify.OutboundRouting

/-!
# Verify: whose session it is

A session goes under an id that the key of its certificate or a message on it vouches
for, and what is written to it reaches a holder of that id's key, exactly as long as no
session is reported under an id that its certificate only names or that was only
dialled, and no handshake message moves a session to an id of another key than the one
that signed it.
-/

namespace ConquerD.Client

open Std (ExtTreeMap)
open Lib.Encoding Lib.Run Lib.JsonText Lib.Visit
open ConquerD.Transport (PublicKey)
open Wire

variable {sha256 : Bytes → Bytes}

/-! ## What is said of sessions -/

/-- The id is that of the key: its hash, or the key itself. -/
def IdOfKey (sha256 : Bytes → Bytes) (p : String) (key : Bytes) : Prop :=
  p = peerIdFromPubBytes sha256 key ∨ (bare p = b64UrlEncode key ∧ key.length = 32)

def SignedByKeyOf (sha256 : Bytes → Bytes) (signer : PublicId) (p : String) : Prop :=
  ∃ key, bare signer.text = b64UrlEncode key ∧ IdOfKey sha256 p key

/-- The sessions of the client, as a message on its way out meets them. -/
def DirectClient.routingPeers (d : DirectClient sha256) (hasRoom : Nat → Bool) :
    VisitMap Routing.DirectSession where
  entries := d.peers.toList.map fun e =>
    (e.1, { connection := e.2.quicOutTx.getD 0
            connected := decide (e.2.state = .connected)
            quicOut := e.2.quicOutTx.map hasRoom })
  nodup := by
    rw [List.map_map]
    exact ExtTreeMap.map_fst_toList_eq_keys (t := d.peers) ▸ ExtTreeMap.nodup_keys

/-- A client on its way to send, with the sessions of this one. -/
def DirectClient.routed (d : DirectClient sha256) (c : Routing.ConnectionManager)
    (hasRoom : Nat → Bool) : Routing.ConnectionManager :=
  { c with peers := d.routingPeers hasRoom }

namespace DirectLog

variable (L : DirectLog sha256)

/-- The key of the session's certificate hashes to the id, or a message on the session
that the key of the id signed gave it. -/
def Vouched (session : Nat) (p : String) : Prop :=
  (∃ s, L.client.sessions[session]? = some s ∧ s.remote.CertifiedAs p) ∨
    ∃ a ∈ L.assignments, a.session = session ∧ a.peerId = p ∧ SignedByKeyOf sha256 a.signer p

/-- The other end of the session holds the key of the id. -/
def HoldsKeyOf (session : Nat) (p : String) : Prop :=
  ∃ s, L.client.sessions[session]? = some s ∧
    ∃ key, IdOfKey sha256 p key ∧ PublicKey.ed25519 key ∈ s.remote.held

structure OwnIdentity : Prop where
  vouched : ∀ p session, L.client.directSession p = some session → L.Vouched session p
  /-- What is dispatched to a session is dispatched to a holder of the target's key. -/
  toHolder : ∀ c hasRoom S now msg session tag json,
    .direct session tag json ∈
      ((L.client.routed c hasRoom).dispatchOutbound S now msg).sent →
    ∃ p, msg.target = some p ∧ L.HoldsKeyOf session p

/-- A session is reported under the id of its certificate's own key. A handshake
message that moves a session moves the one it came on, and the key of the id it gives
signed it and is held at the other end; or that session was the id's before. -/
def SafeStep : DirectEvent sha256 → Prop
  | .quicConnected session => ∀ s, L.client.sessions[session]? = some s → s.phase = .starting →
      s.remote.CertifiedAs s.peerId
  | .quicSignalingData env session msg => ∀ s m p moved,
      L.client.sessions[session]? = some s → s.phase ≠ .starting →
      L.client.relabelTarget s.peerId env msg = some (m, p) →
      L.client.directSession s.peerId = some moved →
      (L.Vouched moved p ∨ (moved = session ∧ SignedByKeyOf sha256 m.sender p)) ∧
        L.HoldsKeyOf moved p
  | _ => True

/-- Messages came on sessions that had been reported. -/
def Started : Prop :=
  ∀ a ∈ L.assignments, ∃ s, L.client.sessions[a.session]? = some s ∧ s.phase ≠ .starting

end DirectLog

/-! ## The routes of a dispatch -/

namespace Routing.ConnectionManager

variable {c : ConnectionManager} {attempt : Option (String × String)}

theorem isSupernode_of_fanOut {relayJson : String} {f : Sent}
    (h : f ∈ (c.fanOut attempt relayJson).sent) : f.carrier.isSupernode = true := by
  unfold fanOut at h
  dsimp only at h
  split at h
  · cases h
  · obtain ⟨sn, -, rfl⟩ := List.mem_map.mp h
    rfl

theorem isSupernode_of_firstAccepting {relayJson : String} {f : Sent}
    (h : f ∈ (c.firstAccepting relayJson).sent) : f.carrier.isSupernode = true := by
  unfold firstAccepting at h
  split at h
  · cases List.mem_singleton.mp h
    rfl
  · cases h

theorem isSupernode_of_supernodeRoute {msgType : Protocol.MessageType} {supernodeId json : String}
    {f : Sent} (h : f ∈ (c.supernodeRoute attempt msgType supernodeId json).sent) :
    f.carrier.isSupernode = true := by
  unfold supernodeRoute at h
  rcases Option.eq_none_or_eq_some (c.relayRoute msgType supernodeId json) with hnone | ⟨out, hout⟩
  · rw [hnone, Option.getD_none] at h
    rcases c.wsRoute_cases attempt supernodeId json with
      ⟨sn, -, -, -, hws⟩ | ⟨sn, -, -, -, hws⟩ | ⟨-, hws⟩
    · rw [hws] at h
      cases List.mem_singleton.mp h
      rfl
    · rw [hws] at h
      cases h
    · rw [hws] at h
      cases h
  · rw [hout, Option.getD_some] at h
    obtain ⟨relay, -, -, -, ⟨-, rfl⟩ | ⟨-, -, -, rfl⟩⟩ := c.relayRoute_cases hout
    · cases List.mem_singleton.mp h
      rfl
    · cases h

theorem dispatchOutbound_direct {S : FloatSyntax FiniteF64} {now : F64}
    {msg : Protocol.SignalingMessage} {n : Nat} {tag : UInt8} {json : String}
    (h : .direct n tag json ∈ (c.dispatchOutbound S now msg).sent) :
    ∃ p room, msg.target = some p ∧ c.directSession p = some (n, room) := by
  have hdirect : ¬ (Sent.direct n tag json).carrier.isSupernode = true := Bool.false_ne_true
  unfold dispatchOutbound at h
  rcases Option.eq_none_or_eq_some (c.gate msg) with hgate | ⟨out, hgate⟩
  · rw [hgate, Option.getD_none] at h
    dsimp only at h
    rcases Option.eq_none_or_eq_some msg.target with ht | ⟨p, ht⟩
    · rw [ht] at h
      exact absurd (isSupernode_of_firstAccepting h) hdirect
    · rw [ht] at h
      refine ⟨p, ?_⟩
      rcases c.route_cases (chatAttempt msg) msg.msgType p _ _ with
        ⟨out, hout, hroute⟩ | ⟨-, sn, -, hroute⟩ | ⟨-, -, hroute⟩
      · rw [hroute] at h
        rcases c.directRoute_cases hout with ⟨m, hm, rfl⟩ | ⟨m, -, -, rfl⟩ | ⟨m, -, -, -, rfl⟩
        · have hsame := List.mem_singleton.mp h
          cases hsame
          exact ⟨true, ht, hm⟩
        · cases h
        · cases h
      · rw [hroute] at h
        exact absurd (isSupernode_of_supernodeRoute h) hdirect
      · rw [hroute] at h
        exact absurd (isSupernode_of_fanOut h) hdirect
  · rw [hgate, Option.getD_some, gate_sent c hgate] at h
    cases h

theorem dispatchOutbound_of_directSession (S : FloatSyntax FiniteF64) (now : F64)
    (msg : Protocol.SignalingMessage) {p : String} {n : Nat}
    (hp : c.directSession p = some (n, true)) (htype : msg.msgType = .ping) (ht : msg.target = some p) :
    ∃ tag json, .direct n tag json ∈ (c.dispatchOutbound S now msg).sent := by
  have hchat : chatAttempt msg = none := by simp [chatAttempt, htype]
  have hgate : c.gate msg = none := by simp [gate, hchat, htype, featureGate]
  refine ⟨channelTagFor msg.msgType, (c.signed S msg).toJson S, ?_⟩
  unfold dispatchOutbound route directRoute
  simp only [hgate, Option.getD_none, ht, Option.bind_some, hp, if_true, Option.getD_some]
  exact List.mem_singleton_self _

end Routing.ConnectionManager

/-! ## Sessions in the map -/

namespace DirectClient

theorem directSession_routed (d : DirectClient sha256) (c : Routing.ConnectionManager)
    (hasRoom : Nat → Bool) (p : String) :
    (d.routed c hasRoom).directSession p = (d.directSession p).map fun n => (n, hasRoom n) := by
  unfold Routing.ConnectionManager.directSession directSession
  have hget : (d.routingPeers hasRoom).get? p = d.peers[p]?.map fun peer =>
      { connection := peer.quicOutTx.getD 0
        connected := decide (peer.state = .connected)
        quicOut := peer.quicOutTx.map hasRoom } := by
    rw [Option.ext_iff]
    intro session
    rw [VisitMap.get?_eq_some_iff, Option.map_eq_some_iff]
    constructor
    · intro hmem
      obtain ⟨⟨k, peer⟩, hentry, heq⟩ := List.mem_map.mp hmem
      obtain ⟨rfl, rfl⟩ := Prod.mk.inj heq
      exact ⟨peer, ExtTreeMap.mem_toList_iff_getElem?_eq_some.mp hentry, rfl⟩
    · rintro ⟨peer, hpeer, rfl⟩
      exact List.mem_map.mpr
        ⟨(p, peer), ExtTreeMap.mem_toList_iff_getElem?_eq_some.mpr hpeer, rfl⟩
  have hpeers : (d.routed c hasRoom).peers = d.routingPeers hasRoom := rfl
  rw [hpeers, hget]
  rcases Option.eq_none_or_eq_some d.peers[p]? with hnone | ⟨⟨state, tx⟩, hpeer⟩
  · rw [hnone]
    rfl
  · rw [hpeer]
    cases state <;> cases tx <;> rfl

variable {c c' : DirectClient sha256}

theorem directSession_insert {k : String} {v : PeerConnection}
    (h : c'.peers = c.peers.insert k v) (p : String) :
    c'.directSession p =
      if p = k then (if v.state = .connected then v.quicOutTx else none) else c.directSession p := by
  unfold directSession
  rw [h, ExtTreeMap.getElem?_insert]
  by_cases hp : p = k
  · rw [if_pos (compare_eq_iff_eq.mpr hp.symm), if_pos hp]
    rfl
  · rw [if_neg (fun hcmp => hp (compare_eq_iff_eq.mp hcmp).symm), if_neg hp]

/-- Connections stay, and no session is added. -/
structure Keeps (c c' : DirectClient sha256) : Prop where
  sessions : ∀ (i : Nat) (s : QuicSession sha256), c.sessions[i]? = some s →
    ∃ s' : QuicSession sha256, c'.sessions[i]? = some s' ∧ s'.remote = s.remote ∧
      (s.phase ≠ .starting → s'.phase ≠ .starting)
  directSession : ∀ p i, c'.directSession p = some i → c.directSession p = some i

namespace Keeps

theorem of_peers_eq (hpeers : c'.peers = c.peers) (hsessions : c'.sessions = c.sessions) :
    Keeps c c' where
  sessions _ s hs := ⟨s, hsessions ▸ hs, rfl, id⟩
  directSession p i h := by
    unfold DirectClient.directSession at h ⊢
    rwa [hpeers] at h

theorem refl (c : DirectClient sha256) : Keeps c c :=
  of_peers_eq rfl rfl

theorem trans {c'' : DirectClient sha256} (h : Keeps c c') (h' : Keeps c' c'') : Keeps c c'' where
  sessions i s hs := by
    obtain ⟨s', hs', hremote, hphase⟩ := h.sessions i s hs
    obtain ⟨s'', hs'', hremote', hphase'⟩ := h'.sessions i s' hs'
    exact ⟨s'', hs'', hremote'.trans hremote, fun hne => hphase' (hphase hne)⟩
  directSession p i hp := h.directSession p i (h'.directSession p i hp)

theorem of_insert {k : String} {v : PeerConnection} (hpeers : c'.peers = c.peers.insert k v)
    (hv : v.state ≠ .connected) (hsessions : c'.sessions = c.sessions) : Keeps c c' where
  sessions _ s hs := ⟨s, hsessions ▸ hs, rfl, id⟩
  directSession p i h := by
    rw [directSession_insert hpeers, if_neg hv] at h
    split at h
    · cases h
    · exact h

end Keeps

variable (env : DirectEnv)

theorem keeps_connectDirectQuic (c : DirectClient sha256) (peerId host : String) (port : Nat) :
    Keeps c (c.connectDirectQuic env peerId host port) := by
  unfold connectDirectQuic
  split
  · exact .refl c
  · split
    · exact .refl c
    · exact .of_insert rfl (by simp) rfl

theorem keeps_cancelPeerReconnect (c : DirectClient sha256) (peerId : String) :
    Keeps c (c.cancelPeerReconnect peerId) :=
  .of_peers_eq rfl rfl

theorem keeps_schedulePeerReconnect (c : DirectClient sha256) (peerId : String) :
    Keeps c (c.schedulePeerReconnect env peerId) := by
  unfold schedulePeerReconnect
  split
  · exact .refl c
  · split
    · exact .refl c
    · split
      · exact .refl c
      · split
        · exact .refl c
        · exact .of_peers_eq rfl rfl

theorem keeps_redial (c : DirectClient sha256) (e : String × PendingPeerReconnect) :
    Keeps c (c.redial env e) :=
  have hput : Keeps c
      { c with
        pendingPeerReconnects := c.pendingPeerReconnects.insert e.1
          { e.2 with nextAt := env.nowMs + 1000 * peerReconnectBackoff e.2.attempts } } :=
    .of_peers_eq rfl rfl
  hput.trans (keeps_connectDirectQuic env _ e.1 e.2.host e.2.port)

theorem keeps_tickPeerReconnects (c : DirectClient sha256) : Keeps c (c.tickPeerReconnects env) := by
  unfold tickPeerReconnects
  induction c.dueReconnects env generalizing c with
  | nil => exact .refl c
  | cons e rest ih => exact (keeps_redial env c e).trans (ih (c.redial env e))

theorem keeps_openSession (c : DirectClient sha256) (peerId : String) (remote : Remote sha256) :
    Keeps c (c.openSession peerId remote) where
  sessions i s hs := by
    obtain ⟨hlt, -⟩ := List.getElem?_eq_some_iff.mp hs
    exact ⟨s, by rw [openSession, List.getElem?_append_left hlt, hs], rfl, id⟩
  directSession _ _ h := h

theorem keeps_dialled (c : DirectClient sha256) (peerId : String) (remote : Remote sha256) :
    Keeps c (c.dialled peerId remote) := by
  unfold dialled
  split
  · have herase : Keeps c { c with dialing := c.dialing.erase peerId } := .of_peers_eq rfl rfl
    exact herase.trans (keeps_openSession _ peerId remote)
  · exact .refl c

theorem keeps_handleIncomingQuic (c : DirectClient sha256) (remote : Remote sha256) :
    Keeps c (c.handleIncomingQuic remote) := by
  unfold handleIncomingQuic
  split
  · exact .refl c
  · exact keeps_openSession c _ remote

theorem keeps_setPhase (c : DirectClient sha256) (session : Nat) {phase : SessionPhase}
    (h : phase ≠ .starting) : Keeps c (c.setPhase session phase) where
  sessions i s hs := by
    by_cases hi : session = i
    · subst hi
      exact ⟨{ s with phase := phase }, by simp [setPhase, hs], rfl, fun _ => h⟩
    · exact ⟨s, by simp [setPhase, hi, hs], rfl, id⟩
  directSession _ _ hp := hp

theorem keeps_dropSession (c : DirectClient sha256) (peerId : String) :
    Keeps c (c.dropSession peerId) := by
  unfold dropSession
  split
  · exact .of_insert rfl (by simp) rfl
  · exact .refl c

theorem keeps_quicDisconnected (c : DirectClient sha256) (peerId : String) :
    Keeps c (c.quicDisconnected env peerId) := by
  unfold quicDisconnected
  dsimp only
  have halias : Keeps c { c with quicPeerAliases := c.quicPeerAliases.erase peerId } :=
    .of_peers_eq rfl rfl
  have hdrop := halias.trans (keeps_dropSession _ peerId)
  have hboth : Keeps c
      (if c.resolveQuicPeerAlias peerId ≠ peerId then
        (dropSession { c with quicPeerAliases := c.quicPeerAliases.erase peerId } peerId).dropSession
          (c.resolveQuicPeerAlias peerId)
      else dropSession { c with quicPeerAliases := c.quicPeerAliases.erase peerId } peerId) := by
    split
    · exact hdrop.trans (keeps_dropSession _ _)
    · exact hdrop
  have hscheduled := hboth.trans (keeps_schedulePeerReconnect env _ (c.resolveQuicPeerAlias peerId))
  split
  · exact hscheduled.trans (keeps_cancelPeerReconnect _ peerId)
  · exact hscheduled

theorem keeps_blockPeer (c : DirectClient sha256) (peerId : String) : Keeps c (c.blockPeer peerId) := by
  unfold blockPeer
  have hblock : Keeps c
      (cancelPeerReconnect { c with manager := c.manager.setBlocked peerId true } peerId) :=
    .of_peers_eq rfl rfl
  exact hblock.trans (keeps_dropSession _ peerId)

/-! ## A message on a session -/

theorem relabelQuicPeerSession_cases (c : DirectClient sha256) (current p : String) :
    (c.relabelQuicPeerSession current p).sessions = c.sessions ∧
    ((¬ (c.Relabels current p ∧ current ∈ c.peers) ∧
        (c.relabelQuicPeerSession current p).peers = c.peers) ∨
      ((c.Relabels current p ∧ current ∈ c.peers) ∧
        ∀ q, (c.relabelQuicPeerSession current p).directSession q =
          if q = p then c.directSession current
          else if q = current then none else c.directSession q)) := by
  unfold relabelQuicPeerSession
  by_cases hmoves : c.Relabels current p
  · rw [if_pos hmoves]
    rcases Option.eq_none_or_eq_some c.peers[current]? with hpeer | ⟨provisional, hpeer⟩
    · have hnot : current ∉ c.peers := by
        rw [ExtTreeMap.mem_iff_isSome_getElem?, hpeer]
        exact Bool.false_ne_true
      rw [hpeer]
      exact ⟨rfl, .inl ⟨fun h => hnot h.2, rfl⟩⟩
    · have hmem : current ∈ c.peers := by
        rw [ExtTreeMap.mem_iff_isSome_getElem?, hpeer]
        rfl
      rw [hpeer]
      refine ⟨rfl, .inr ⟨⟨hmoves, hmem⟩, fun q => ?_⟩⟩
      have herase : directSession { c with peers := c.peers.erase current } q =
          if q = current then none else c.directSession q := by
        unfold directSession
        rw [ExtTreeMap.getElem?_erase]
        by_cases hq : q = current
        · rw [if_pos (compare_eq_iff_eq.mpr hq.symm), if_pos hq]
          rfl
        · rw [if_neg (fun hcmp => hq (compare_eq_iff_eq.mp hcmp).symm), if_neg hq]
      have hcurrent : c.directSession current =
          if provisional.state = .connected then provisional.quicOutTx else none := by
        unfold directSession
        rw [hpeer]
        rfl
      rw [← herase, hcurrent]
      exact directSession_insert rfl q
  · rw [if_neg hmoves]
    exact ⟨rfl, .inl ⟨fun h => hmoves h.1, rfl⟩⟩

/-- A message moves no session, or moves the one of its transport to another id. -/
theorem handleInboundFromQuic_cases (P : Platform) (c : DirectClient sha256) (env : Env)
    (current : String) (msg : SignalingMessage) :
    (c.handleInboundFromQuic P env current msg).sessions = c.sessions ∧
    ((c.relabelTarget current env msg = none ∧
        (c.handleInboundFromQuic P env current msg).peers = c.peers) ∨
      ∃ m p, c.relabelTarget current env msg = some (m, p) ∧
        ∀ q, (c.handleInboundFromQuic P env current msg).directSession q =
          if q = p then c.directSession current
          else if q = current then none else c.directSession q) := by
  rcases Option.eq_none_or_eq_some (ConnectionManager.dispatched env msg) with hmsg | ⟨m, hmsg⟩
  · simp only [handleInboundFromQuic, relabelTarget, hmsg]
    exact ⟨trivial, .inl ⟨rfl, trivial⟩⟩
  · rcases Option.eq_none_or_eq_some (handshakePeerId c.manager m) with hid | ⟨p, hid⟩
    · simp only [handleInboundFromQuic, relabelTarget, hmsg, hid, Option.bind_some]
      exact ⟨trivial, .inl ⟨rfl, trivial⟩⟩
    · have hhandled : c.handleInboundFromQuic P env current msg =
          { c.relabelQuicPeerSession current p with manager := (c.manager.dispatch P env m).1 } := by
        simp only [handleInboundFromQuic, hmsg, hid]
      have htarget : c.relabelTarget current env msg =
          if c.Relabels current p ∧ current ∈ c.peers then some (m, p) else none := by
        simp only [relabelTarget, hmsg, hid, Option.bind_some]
      rw [hhandled, htarget]
      obtain ⟨hsessions, ⟨hnot, hpeers⟩ | ⟨hmoves, hsession⟩⟩ :=
        c.relabelQuicPeerSession_cases current p
      · exact ⟨hsessions, .inl ⟨if_neg hnot, hpeers⟩⟩
      · exact ⟨hsessions, .inr ⟨m, p, if_pos hmoves, hsession⟩⟩

end DirectClient

/-! ## Steps -/

namespace DirectLog

variable {L L' : DirectLog sha256}

theorem Vouched.mono (hkeeps : L.client.Keeps L'.client)
    (hassigned : ∀ a ∈ L.assignments, a ∈ L'.assignments) {session : Nat} {p : String}
    (h : L.Vouched session p) : L'.Vouched session p := by
  rcases h with ⟨s, hs, hcert⟩ | ⟨a, ha, hgives⟩
  · obtain ⟨s', hs', hremote, -⟩ := hkeeps.sessions session s hs
    exact .inl ⟨s', hs', hremote ▸ hcert⟩
  · exact .inr ⟨a, hassigned a ha, hgives⟩

theorem HoldsKeyOf.mono (hkeeps : L.client.Keeps L'.client) {session : Nat} {p : String}
    (h : L.HoldsKeyOf session p) : L'.HoldsKeyOf session p := by
  obtain ⟨s, hs, key, hkey, hheld⟩ := h
  obtain ⟨s', hs', hremote, -⟩ := hkeeps.sessions session s hs
  exact ⟨s', hs', key, hkey, hremote ▸ hheld⟩

theorem holdsKeyOf_of_cert {session : Nat} {s : QuicSession sha256} {p : String}
    (hs : L.client.sessions[session]? = some s) (hcert : s.remote.CertifiedAs p) :
    L.HoldsKeyOf session p := by
  obtain ⟨key, hown, hid⟩ := hcert
  exact ⟨s, hs, key, .inl hid, s.remote.proven _ hown⟩

/-- A sample message without a gate. -/
def pingTo (p : String) : Protocol.SignalingMessage where
  msgType := .ping
  sender := ""
  payload := []
  timestamp := F64.zero.val
  target := some p
  signature := none
  protocolVersion := 2

theorem ownIdentity_iff :
    L.OwnIdentity ↔ ∀ p session, L.client.directSession p = some session →
      L.Vouched session p ∧ L.HoldsKeyOf session p := by
  constructor
  · intro h p session hp
    refine ⟨h.vouched p session hp, ?_⟩
    -- a ping to the peer, with room in the queue, is written to the session
    have hrouted : (L.client.routed (Routing.clientOf alice.text ⟨0, true, true⟩)
        fun _ => true).directSession p = some (session, true) := by
      rw [DirectClient.directSession_routed, hp]
      rfl
    obtain ⟨tag, json, hsent⟩ := Routing.ConnectionManager.dispatchOutbound_of_directSession
      FloatSyntax.sample F64.zero.val (pingTo p) hrouted rfl rfl
    obtain ⟨q, hq, hholds⟩ := h.toHolder _ _ _ _ _ _ _ _ hsent
    exact Option.some.inj hq ▸ hholds
  · intro h
    refine ⟨fun p session hp => (h p session hp).1, ?_⟩
    intro c hasRoom S now msg session tag json hsent
    obtain ⟨p, room, ht, hrouted⟩ := Routing.ConnectionManager.dispatchOutbound_direct hsent
    rw [DirectClient.directSession_routed] at hrouted
    obtain ⟨n, hn, heq⟩ := Option.map_eq_some_iff.mp hrouted
    obtain ⟨rfl, -⟩ := Prod.mk.inj heq
    exact ⟨p, ht, (h p n hn).2⟩

theorem OwnIdentity.mono (hkeeps : L.client.Keeps L'.client)
    (hassigned : ∀ a ∈ L.assignments, a ∈ L'.assignments) (h : L.OwnIdentity) : L'.OwnIdentity := by
  rw [ownIdentity_iff] at h ⊢
  intro p session hp
  obtain ⟨hvouched, hholds⟩ := h p session (hkeeps.directSession p session hp)
  exact ⟨hvouched.mono hkeeps hassigned, hholds.mono hkeeps⟩

theorem Started.mono (hkeeps : L.client.Keeps L'.client)
    (hassigned : L'.assignments = L.assignments) (h : L.Started) : L'.Started := by
  intro a ha
  obtain ⟨s, hs, hphase⟩ := h a (hassigned ▸ ha)
  obtain ⟨s', hs', -, hphase'⟩ := hkeeps.sessions a.session s hs
  exact ⟨s', hs', hphase' hphase⟩

variable (P : Platform)

/-- A session is reported, or a message comes on one, or the sessions are kept. -/
theorem step_cases (L : DirectLog sha256) (e : DirectEvent sha256) :
    (∃ session s, e = .quicConnected session ∧ L.client.sessions[session]? = some s ∧
        s.phase = .starting ∧
        L.step P e =
          ⟨(L.client.setPhase session .running).quicConnected session s.peerId, L.assignments⟩) ∨
    (∃ env session msg s, e = .quicSignalingData env session msg ∧
        L.client.sessions[session]? = some s ∧ s.phase ≠ .starting ∧
        L.step P e = L.signalingData P env session s.peerId msg) ∨
    (L.SafeStep e ∧ L.client.Keeps (L.step P e).client ∧
      (L.step P e).assignments = L.assignments) := by
  cases e with
  | connectDirect env peerId host port =>
    exact .inr (.inr ⟨trivial, (DirectClient.keeps_cancelPeerReconnect _ peerId).trans
      (DirectClient.keeps_connectDirectQuic env _ peerId host port), rfl⟩)
  | dial env peerId host port =>
    exact .inr (.inr ⟨trivial, DirectClient.keeps_connectDirectQuic env _ peerId host port, rfl⟩)
  | tickPeerReconnects env =>
    exact .inr (.inr ⟨trivial, DirectClient.keeps_tickPeerReconnects env _, rfl⟩)
  | dialled peerId remote =>
    exact .inr (.inr ⟨trivial, DirectClient.keeps_dialled _ peerId remote, rfl⟩)
  | dialFailed env peerId =>
    refine .inr (.inr ⟨trivial, ?_⟩)
    simp only [step]
    split
    · have herase : L.client.Keeps
          { L.client with dialing := L.client.dialing.erase peerId } := .of_peers_eq rfl rfl
      exact ⟨herase.trans (DirectClient.keeps_quicDisconnected env _ peerId), rfl⟩
    · exact ⟨.refl _, rfl⟩
  | incoming remote =>
    exact .inr (.inr ⟨trivial, DirectClient.keeps_handleIncomingQuic _ remote, rfl⟩)
  | quicConnected session =>
    rcases Option.eq_none_or_eq_some L.client.sessions[session]? with hnone | ⟨s, hs⟩
    · refine .inr (.inr ⟨fun s hs => ?_, ?_⟩)
      · rw [hnone] at hs
        cases hs
      · simp only [step, hnone]
        exact ⟨.refl _, trivial⟩
    · by_cases hphase : s.phase = .starting
      · refine .inl ⟨session, s, rfl, hs, hphase, ?_⟩
        simp only [step, hs, if_pos hphase]
      · refine .inr (.inr ⟨fun s' hs' hstarting => ?_, ?_⟩)
        · rw [hs, Option.some.injEq] at hs'
          exact absurd (hs' ▸ hstarting) hphase
        · simp only [step, hs, if_neg hphase]
          exact ⟨.refl _, trivial⟩
  | quicSignalingData env session msg =>
    rcases Option.eq_none_or_eq_some L.client.sessions[session]? with hnone | ⟨s, hs⟩
    · refine .inr (.inr ⟨fun s m p moved hs => ?_, ?_⟩)
      · rw [hnone] at hs
        cases hs
      · simp only [step, hnone]
        exact ⟨.refl _, trivial⟩
    · by_cases hphase : s.phase = .starting
      · refine .inr (.inr ⟨fun s' m p moved hs' hstarted => ?_, ?_⟩)
        · rw [hs, Option.some.injEq] at hs'
          exact absurd hphase (hs' ▸ hstarted)
        · simp only [step, hs, if_pos hphase]
          exact ⟨.refl _, trivial⟩
      · refine .inr (.inl ⟨env, session, msg, s, rfl, hs, hphase, ?_⟩)
        simp only [step, hs, if_neg hphase]
  | quicDisconnected env session =>
    refine .inr (.inr ⟨trivial, ?_⟩)
    rcases Option.eq_none_or_eq_some L.client.sessions[session]? with hnone | ⟨s, hs⟩
    · simp only [step, hnone]
      exact ⟨.refl _, trivial⟩
    · simp only [step, hs]
      split
      · have hended : L.client.Keeps (L.client.setPhase session .ended) :=
          DirectClient.keeps_setPhase _ session nofun
        exact ⟨hended.trans (DirectClient.keeps_quicDisconnected env _ s.peerId), rfl⟩
      · exact ⟨.refl _, rfl⟩
  | blockPeer peerId => exact .inr (.inr ⟨trivial, DirectClient.keeps_blockPeer _ peerId, rfl⟩)
  | other e => exact .inr (.inr ⟨trivial, .of_peers_eq rfl rfl, rfl⟩)

/-- The report of a session files it under the id it runs under, and no message has
come on it. -/
theorem quicConnected_iff {session : Nat} {s : QuicSession sha256} (hstarted : L.Started)
    (hown : L.OwnIdentity) (hs : L.client.sessions[session]? = some s)
    (hphase : s.phase = .starting) :
    OwnIdentity ⟨(L.client.setPhase session .running).quicConnected session s.peerId,
        L.assignments⟩ ↔ s.remote.CertifiedAs s.peerId := by
  let L₁ : DirectLog sha256 := ⟨L.client.setPhase session .running, L.assignments⟩
  have hrunning : L.client.Keeps L₁.client := DirectClient.keeps_setPhase _ session nofun
  have hs₁ : L₁.client.sessions[session]? = some { s with phase := .running } := by
    simp [L₁, DirectClient.setPhase, hs]
  have hsession (p : String) : (L₁.client.quicConnected session s.peerId).directSession p =
      if p = s.peerId then some session else L₁.client.directSession p :=
    DirectClient.directSession_insert (v := ⟨.connected, some session⟩) rfl p
  rw [ownIdentity_iff]
  constructor
  · intro h
    obtain ⟨hvouched, -⟩ := h s.peerId session ((hsession s.peerId).trans (if_pos rfl))
    rcases hvouched with ⟨s', hs', hcert⟩ | ⟨a, ha, rfl, -⟩
    · have heq : some { s with phase := .running } = some s' := hs₁.symm.trans hs'
      rw [← Option.some.inj heq] at hcert
      exact hcert
    · obtain ⟨s', hs', hphase'⟩ := hstarted a ha
      rw [hs, Option.some.injEq] at hs'
      exact absurd (hs' ▸ hphase) hphase'
  · intro hcert p i hp
    have hp' := (hsession p).symm.trans hp
    by_cases hlabel : p = s.peerId
    · rw [if_pos hlabel, Option.some.injEq] at hp'
      subst hlabel hp'
      exact ⟨.inl ⟨_, hs₁, hcert⟩, holdsKeyOf_of_cert (L := L₁) hs₁ hcert⟩
    · rw [if_neg hlabel] at hp'
      obtain ⟨hvouched, hholds⟩ := ownIdentity_iff.mp hown p i (hrunning.directSession p i hp')
      have hkept : L₁.Vouched i p := hvouched.mono hrunning fun _ ha => ha
      have hheld : L₁.HoldsKeyOf i p := hholds.mono hrunning
      exact ⟨hkept, hheld⟩

/-- A message that moves a session moves it rightly, or whose it is is lost. -/
theorem signalingData_iff {env : Env} {session : Nat} {s : QuicSession sha256}
    {msg : SignalingMessage} (hown : L.OwnIdentity)
    (hs : L.client.sessions[session]? = some s) (hphase : s.phase ≠ .starting) :
    (L.signalingData P env session s.peerId msg).OwnIdentity ↔
      L.SafeStep (.quicSignalingData env session msg) := by
  obtain ⟨hsessions, ⟨hnone, hpeers⟩ | ⟨m, p, hmoves, hsession⟩⟩ :=
    L.client.handleInboundFromQuic_cases P env s.peerId msg
  · have hkeeps : L.client.Keeps (L.client.handleInboundFromQuic P env s.peerId msg) :=
      .of_peers_eq hpeers hsessions
    refine iff_of_true (hown.mono hkeeps fun a ha => List.mem_append_left _ ha) ?_
    intro s' m p moved hs' _ hmoves
    rw [hs, Option.some.injEq] at hs'
    rw [← hs', hnone] at hmoves
    cases hmoves
  · have hassigned : (L.signalingData P env session s.peerId msg).assignments =
        L.assignments ++ [⟨session, m.sender, p⟩] := by
      simp [signalingData, hmoves]
    have hkept : (L.signalingData P env session s.peerId msg).client.sessions =
        L.client.sessions := hsessions
    have hvouched (i : Nat) (q : String) :
        (L.signalingData P env session s.peerId msg).Vouched i q ↔
          L.Vouched i q ∨ (i = session ∧ q = p ∧ SignedByKeyOf sha256 m.sender q) := by
      simp only [Vouched, hkept, hassigned, List.mem_append, List.mem_singleton, or_and_right,
        exists_or, exists_eq_left, ← or_assoc]
      exact or_congr Iff.rfl (and_congr eq_comm (and_congr_left' eq_comm))
    have hholds (i : Nat) (q : String) :
        (L.signalingData P env session s.peerId msg).HoldsKeyOf i q ↔ L.HoldsKeyOf i q := by
      simp only [HoldsKeyOf, hkept]
    rw [ownIdentity_iff]
    constructor
    · intro h s' m' p' moved hs' _ hmoves' hmoved
      rw [hs, Option.some.injEq] at hs'
      subst hs'
      obtain ⟨rfl, rfl⟩ := Prod.mk.inj (Option.some.inj (hmoves.symm.trans hmoves'))
      obtain ⟨hv, hh⟩ := h p moved ((hsession p).trans ((if_pos rfl).trans hmoved))
      refine ⟨((hvouched moved p).mp hv).imp id fun hnew => ⟨hnew.1, hnew.2.2⟩, ?_⟩
      exact (hholds moved p).mp hh
    · intro hsafe q i hq
      have hq' := (hsession q).symm.trans hq
      by_cases hp : q = p
      · rw [if_pos hp] at hq'
        obtain ⟨hv, hh⟩ := hsafe s m p i hs hphase hmoves hq'
        subst hp
        exact ⟨(hvouched i q).mpr (hv.imp id fun hnew => ⟨hnew.1, rfl, hnew.2⟩),
          (hholds i q).mpr hh⟩
      · rw [if_neg hp] at hq'
        split at hq'
        · cases hq'
        · obtain ⟨hv, hh⟩ := ownIdentity_iff.mp hown q i hq'
          exact ⟨(hvouched i q).mpr (.inl hv), (hholds i q).mpr hh⟩

theorem started_step (L : DirectLog sha256) (e : DirectEvent sha256) (h : L.Started) :
    (L.step P e).Started := by
  rcases L.step_cases P e with ⟨session, s, rfl, hs, hphase, hstep⟩ |
    ⟨env, session, msg, s, rfl, hs, hphase, hstep⟩ | ⟨-, hkeeps, hassigned⟩
  · rw [hstep]
    have hrunning : L.client.Keeps (L.client.setPhase session .running) :=
      DirectClient.keeps_setPhase _ session nofun
    have hstarted : Started ⟨L.client.setPhase session .running, L.assignments⟩ :=
      h.mono hrunning rfl
    exact hstarted
  · rw [hstep]
    obtain ⟨hsessions, -⟩ := L.client.handleInboundFromQuic_cases P env s.peerId msg
    intro a ha
    rcases List.mem_append.mp ha with hold | hnew
    · obtain ⟨s', hs', hphase'⟩ := h a hold
      exact ⟨s', (congrArg (fun l => l[a.session]?) hsessions).trans hs', hphase'⟩
    · obtain ⟨t, -, rfl⟩ := Option.map_eq_some_iff.mp (Option.mem_toList.mp hnew)
      exact ⟨s, (congrArg (fun l => l[session]?) hsessions).trans hs, hphase⟩
  · exact h.mono hkeeps hassigned

theorem ownIdentity_step_iff (hstarted : L.Started) (hown : L.OwnIdentity)
    (e : DirectEvent sha256) : (L.step P e).OwnIdentity ↔ L.SafeStep e := by
  rcases L.step_cases P e with ⟨session, s, rfl, hs, hphase, hstep⟩ |
    ⟨env, session, msg, s, rfl, hs, hphase, hstep⟩ | ⟨hsafe, hkeeps, hassigned⟩
  · rw [hstep, quicConnected_iff hstarted hown hs hphase]
    constructor
    · intro hcert s' hs' _
      rw [hs, Option.some.injEq] at hs'
      exact hs' ▸ hcert
    · intro hsafe
      exact hsafe s hs hphase
  · rw [hstep]
    exact signalingData_iff P hown hs hphase
  · refine iff_of_true (hown.mono hkeeps ?_) hsafe
    intro a ha
    rwa [hassigned]

/-- Direct sessions carry their own identity through a run exactly when every step of
it is safe. -/
theorem along_ownIdentity_iff (publicId localPeerId : String) (peerStore : PeerStore)
    (es : List (DirectEvent sha256)) :
    Along (step P) (fun L e => (L.step P e).OwnIdentity) (start publicId localPeerId peerStore) es ↔
      Along (step P) SafeStep (start publicId localPeerId peerStore) es := by
  refine along_after_iff Started OwnIdentity ?_ ?_ (fun L e h => started_step P L e h)
    fun L e hstarted hown => ownIdentity_step_iff P hstarted hown e
  · intro a ha
    cases ha
  · rw [ownIdentity_iff]
    intro p session hp
    simp [DirectClient.directSession, start, DirectClient.start] at hp

end DirectLog

/-! ## An attacker at the dialled address -/

def malloryKey : Bytes := List.replicate 32 0x11

/-- Whoever holds this key and no other, behind a certificate of its own. -/
def mallory : Remote id where
  certs := [[]]
  ownKey := some (.ed25519 malloryKey)
  held := {PublicKey.ed25519 malloryKey}
  proven key hkey := (Option.some.inj hkey).symm

def DirectEnv.permissive : DirectEnv where
  toEnv := .permissive
  directEnabled := true
  dialable _ _ := true

/-- The client dials a peer, and the connection of another goes under that peer's id. -/
theorem dialled_stranger_goes_by_peer :
    ¬ Along (DirectLog.step Platform.symbolic)
      (fun L e => (L.step Platform.symbolic e).OwnIdentity)
      (DirectLog.start alice.text "a11ce" ⟨∅⟩ : DirectLog id)
      [.dial .permissive "b0b" "203.0.113.7" 34935, .dialled "b0b" mallory,
        .quicConnected 0] := by
  rintro ⟨-, -, hown, -⟩
  rcases hown.vouched "b0b" 0 (by decide +kernel) with ⟨s, hs, key, hkey, hid⟩ | ⟨a, ha, -⟩
  · have hsession : s = ⟨"b0b", mallory, .running⟩ := (Option.some.inj hs).symm
    rw [hsession] at hkey
    obtain rfl : malloryKey = key := PublicKey.ed25519.inj (Option.some.inj hkey)
    -- hashes are the bytes themselves here
    revert hid
    decide
  · cases ha

end ConquerD.Client
