import ConquerD.Supernode.Verify.RelayRuns

/-!
# Supernode: game sessions of the relay

The sessions list their members, and each member is filed under its session. Joins,
leaves and removals keep the two in step, so a peer is in one session at most. A game
broadcast of a peer in a session stays in the session; one of a peer in none goes to
its voice room.
-/

namespace ConquerD.Supernode

open ConquerD.Features Lib.Encoding Lib.Rosters Lib.Run Wire
open Std (ExtTreeMap ExtTreeSet)

namespace RelayState

variable {st st' : RelayState} {p : String}

/-- A peer is listed in the session it is filed under, and no session is empty. -/
structure SessionsAgree (st : RelayState) : Prop where
  listed : ∀ s p, Listed st.gameSessions s p ↔ st.peerGameSession[p]? = some s
  noneEmpty : NoneEmpty st.gameSessions

theorem SessionsAgree.of_same (h : st.SessionsAgree) (hsessions : st'.gameSessions = st.gameSessions)
    (hfiled : st'.peerGameSession = st.peerGameSession) : st'.SessionsAgree := by
  constructor
  · rw [hsessions, hfiled]
    exact h.listed
  · rw [hsessions]
    exact h.noneEmpty

theorem SessionsAgree.eq (h : st.SessionsAgree) {s s' : String} (hs : Listed st.gameSessions s p)
    (hs' : Listed st.gameSessions s' p) : s = s' :=
  Option.some.inj (((h.listed s p).mp hs).symm.trans ((h.listed s' p).mp hs'))

theorem SessionsAgree.erase (h : st.SessionsAgree) {s : String}
    (hs : st.peerGameSession[p]? = some s)
    (hsessions : st'.gameSessions = removeMember st.gameSessions s p)
    (hfiled : st'.peerGameSession = st.peerGameSession.erase p) : st'.SessionsAgree := by
  constructor
  · intro s' q
    rw [hsessions, hfiled, listed_removeMember, h.listed, ExtTreeMap.getElem?_erase]
    simp only [Std.compare_eq_iff_eq]
    by_cases hq : p = q
    · subst hq
      simp [hs]
    · simp [hq]
  · rw [hsessions]
    exact noneEmpty_removeMember h.noneEmpty s p

theorem sessionsAgree_new : SessionsAgree .new where
  listed s p := by simp [new]
  noneEmpty s members h := by simp [new] at h

theorem SessionsAgree.insert (h : st.SessionsAgree) {left : Roster String String} {s : String}
    (hnonempty : NoneEmpty left)
    (hothers : ∀ s' q, p ≠ q → (Listed left s' q ↔ Listed st.gameSessions s' q))
    (hown : ∀ s', Listed left s' p → s = s')
    (hsessions : st'.gameSessions = addMember left s p)
    (hfiled : st'.peerGameSession = st.peerGameSession.insert p s) : st'.SessionsAgree := by
  constructor
  · intro s' q
    rw [hsessions, hfiled, listed_addMember, ExtTreeMap.getElem?_insert]
    simp only [Std.compare_eq_iff_eq]
    by_cases hq : p = q
    · subst hq
      simp only [and_true, if_true, Option.some.injEq]
      exact ⟨fun hleft => hleft.elim (hown s') id, .inr⟩
    · simp only [hq, and_false, or_false, if_false, hothers s' q hq, h.listed]
  · rw [hsessions]
    exact noneEmpty_addMember hnonempty s p

theorem SessionsAgree.joinGameSession (h : st.SessionsAgree) (p s : String) :
    (st.joinGameSession p s).SessionsAgree := by
  unfold RelayState.joinGameSession
  dsimp only
  split
  · exact h
  · cases hs : st.peerGameSession[bare p]? with
    | none =>
      refine h.insert h.noneEmpty (fun _ _ _ => Iff.rfl) ?_ rfl rfl
      intro s' hlisted
      cases hs.symm.trans ((h.listed s' (bare p)).mp hlisted)
    | some old =>
      have hold : ∀ s', Listed st.gameSessions s' (bare p) → old = s' := by
        intro s' hlisted
        exact Option.some.inj (hs.symm.trans ((h.listed s' (bare p)).mp hlisted))
      by_cases heq : old = s
      · refine h.insert h.noneEmpty (fun _ _ _ => Iff.rfl)
          (fun s' hlisted => heq ▸ hold s' hlisted) ?_ rfl
        simp only [heq, if_true]
      · refine h.insert (noneEmpty_removeMember h.noneEmpty old (bare p)) ?_ ?_ ?_ rfl
        · intro s' q hq
          rw [listed_removeMember]
          exact and_iff_left fun hgone => hq hgone.2
        · intro s' hlisted
          rw [listed_removeMember] at hlisted
          exact absurd ⟨hold s' hlisted.1, rfl⟩ hlisted.2
        · simp only [heq, if_false]

theorem SessionsAgree.leaveGameSession (h : st.SessionsAgree) (p : String) :
    (st.leaveGameSession p).SessionsAgree := by
  unfold RelayState.leaveGameSession
  dsimp only
  split
  · exact h
  · next s hs => exact h.erase hs rfl rfl

theorem SessionsAgree.removePeer (h : st.SessionsAgree) (p : String) :
    (st.removePeer p).SessionsAgree := by
  cases hs : st.peerGameSession[p]? with
  | some s =>
    refine h.erase hs ?_ ?_
    · rw [removePeer_eq, hs]
    · rw [removePeer_eq, hs]
  | none =>
    -- the sweep through all sessions finds the peer in none
    have hsessions : (st.removePeer p).gameSessions = removeEverywhere st.gameSessions p := by
      rw [removePeer_eq, hs]
    have hfiled : (st.removePeer p).peerGameSession = st.peerGameSession := by
      rw [removePeer_eq, hs]
    constructor
    · intro s' q
      rw [hsessions, hfiled, listed_removeEverywhere, h.listed]
      refine and_iff_left_of_imp fun hq => ?_
      rintro rfl
      cases hs.symm.trans hq
    · rw [hsessions]
      exact noneEmpty_removeEverywhere p

theorem registerPeer_sessions (st : RelayState) (p : String) (connection : Nat)
    (order : List String) (portalOnly : Bool) :
    (st.registerPeer p connection order portalOnly).1.gameSessions = st.gameSessions ∧
    (st.registerPeer p connection order portalOnly).1.peerGameSession = st.peerGameSession := by
  have hreplaced : (st.softReplace p).gameSessions = st.gameSessions ∧
      (st.softReplace p).peerGameSession = st.peerGameSession := by
    unfold softReplace
    split
    · exact ⟨rfl, rfl⟩
    · exact ⟨rfl, rfl⟩
  unfold registerPeer
  split
  · exact ⟨rfl, rfl⟩
  · dsimp only
    split
    · exact hreplaced
    · next idx st' halloc =>
      unfold allocateIndex at halloc
      split at halloc
      · cases halloc
      · cases halloc
        exact hreplaced

theorem sessionsAgree_invariant : TableInvariant SessionsAgree where
  new := sessionsAgree_new
  allowPeer _ _ h := h.of_same rfl rfl
  allowPeerUpdate _ _ h := h.of_same rfl rfl
  allowPortalPeer _ _ h := h.of_same rfl rfl
  revoked _ _ h := h.of_same rfl rfl
  registerPeer st p connection order portalOnly h := by
    obtain ⟨hsessions, hfiled⟩ := st.registerPeer_sessions p connection order portalOnly
    exact h.of_same hsessions hfiled
  removePeer _ p h := h.removePeer p
  joinRoom _ _ _ h := h.of_same rfl rfl
  leaveRoom st p h := by
    unfold RelayState.leaveRoom
    dsimp only
    split
    · exact h
    · split
      · exact h
      · exact h.of_same rfl rfl
  healed _ _ _ h := h.of_same rfl rfl
  joinGameSession _ p s h := h.joinGameSession p s
  leaveGameSession _ p h := h.leaveGameSession p
  setVideoSubscriptions _ _ _ h := h.of_same rfl rfl

end RelayState

/-! ## Broadcasts -/

/-- A datagram to all that is charged to the game relay. -/
def GameBroadcast (data : Bytes) : Prop :=
  ∃ payload, parseDatagram data = some (broadcastIndex, payload) ∧
    (relayDatagramFeature payload).1 = "game.relay.v1"

namespace RelayServer

variable {P : Platform} {srv : RelayServer} {sender recipient : String} {data datagram : Bytes}
  {now : Nat}

theorem recipient_of_gameBroadcast (hdata : GameBroadcast data)
    (hforward : .forward recipient datagram ∈ (srv.handleDatagram P sender data now).2) :
    match srv.state.gameSessionOf sender with
    | some (_, members) => recipient ∈ members ∧ recipient ≠ sender
    | none => ∃ peer, srv.state.peers[sender]? = some peer ∧
        recipient ∈ srv.state.roomRecipients sender peer "game.relay.v1" := by
  obtain ⟨payload, hparse, hfeature⟩ := hdata
  unfold handleDatagram at hforward
  rw [hparse] at hforward
  dsimp only at hforward
  split at hforward
  · unfold routeDatagram at hforward
    dsimp only at hforward
    split at hforward
    · cases hforward
    · next peer hpeer =>
      rw [hfeature, if_neg (fun hroom => absurd hroom.2.1 (by decide))] at hforward
      unfold relayFrame at hforward
      cases hsession : srv.state.gameSessionOf sender with
      | some session =>
        simp only [if_true, hsession] at hforward
        have hfan := List.mem_append.mp hforward
        rcases hfan with hmember | hbridge
        · have hfiltered := List.mem_filter.mp (mem_of_forwardAll _ hmember)
          exact ⟨ExtTreeSet.mem_toList.mp hfiltered.1, of_decide_eq_true hfiltered.2⟩
        · split at hbridge
          · cases List.mem_singleton.mp hbridge
          · cases hbridge
      | none =>
        simp only [if_true, hsession] at hforward
        exact ⟨peer, hpeer, mem_of_forwardAll _ hforward⟩
  · cases hforward

theorem gameSessionOf_eq (h : srv.state.SessionsAgree) {s : String}
    (hs : srv.state.peerGameSession[sender]? = some s) :
    srv.state.gameSessionOf sender = some (s, members srv.state.gameSessions s) := by
  have hlisted := (h.listed s sender).mpr hs
  unfold RelayState.gameSessionOf
  rw [hs]
  cases hmembers : srv.state.gameSessions[s]? with
  | none => simp [Listed, members, hmembers] at hlisted
  | some set => simp [members, hmembers]

theorem gameBroadcast_reaches (h : srv.state.SessionsAgree) (hdata : GameBroadcast data)
    (hforward : .forward recipient datagram ∈ (srv.handleDatagram P sender data now).2) :
    match srv.state.peerGameSession[sender]? with
    | some s => Listed srv.state.gameSessions s recipient ∧
        srv.state.peerGameSession[recipient]? = some s
    | none => ∃ peer r, srv.state.peers[sender]? = some peer ∧ peer.roomId = some r ∧
        Listed srv.state.rooms r recipient := by
  have hreached := recipient_of_gameBroadcast hdata hforward
  cases hs : srv.state.peerGameSession[sender]? with
  | some s =>
    rw [gameSessionOf_eq h hs] at hreached
    exact ⟨hreached.1, (h.listed s recipient).mp hreached.1⟩
  | none =>
    have hnone : srv.state.gameSessionOf sender = none := by
      unfold RelayState.gameSessionOf
      rw [hs]
      rfl
    rw [hnone] at hreached
    obtain ⟨peer, hpeer, hrecipient⟩ := hreached
    unfold RelayState.roomRecipients at hrecipient
    split at hrecipient
    · cases hrecipient
    · next r hroom =>
      exact ⟨peer, r, hpeer, hroom, ExtTreeSet.mem_toList.mp (List.mem_filter.mp hrecipient).1⟩

/-- After any turns of the relay a peer is filed under a session exactly when the session
lists it, under one at most, no session is empty, and a game broadcast of a peer in a
session reaches peers of that session only; of a peer in none, peers of its voice room. -/
theorem game_sessions_agree (P : Platform) (features : FeatureRegistry)
    (roomAudioBridge gameRelayBridge : Bool) (ts : List RelayTurn) :
    let srv := reached P features roomAudioBridge gameRelayBridge ts
    (∀ s p, srv.state.peerGameSession[p]? = some s ↔ Listed srv.state.gameSessions s p) ∧
    (∀ s s' p, Listed srv.state.gameSessions s p → Listed srv.state.gameSessions s' p → s = s') ∧
    NoneEmpty srv.state.gameSessions ∧
    ∀ sender data now recipient datagram, GameBroadcast data →
      .forward recipient datagram ∈ (srv.handleDatagram P sender data now).2 →
      match srv.state.peerGameSession[sender]? with
      | some s => Listed srv.state.gameSessions s recipient ∧
          srv.state.peerGameSession[recipient]? = some s
      | none => ∃ peer r, srv.state.peers[sender]? = some peer ∧ peer.roomId = some r ∧
          Listed srv.state.rooms r recipient := by
  intro srv
  have hagree : srv.state.SessionsAgree :=
    RelayState.sessionsAgree_invariant.run P features roomAudioBridge gameRelayBridge ts
  refine ⟨fun s p => (hagree.listed s p).symm, fun s s' p => hagree.eq, hagree.noneEmpty, ?_⟩
  intro sender data now recipient datagram hdata hforward
  exact gameBroadcast_reaches hagree hdata hforward

def ForwardsShared (P : Platform) (srv : RelayServer) : Prop :=
  ∀ sender data now recipient datagram,
    .forward recipient datagram ∈ (srv.handleDatagram P sender data now).2 →
      (∃ s, Listed srv.state.gameSessions s sender ∧ Listed srv.state.gameSessions s recipient) ∨
        ∃ r, Listed srv.state.rooms r sender ∧ Listed srv.state.rooms r recipient

theorem forwardsShared_of (h : srv.state.ConnectedListed ∧ srv.state.SessionsAgree) :
    ForwardsShared P srv := by
  intro sender data now recipient datagram hforward
  obtain ⟨session, hsession, hin⟩ | hroom := forward_shares_room h.1 hforward
  · obtain ⟨s, hs, -⟩ := Option.bind_eq_some_iff.mp hsession
    rw [gameSessionOf_eq h.2 hs] at hsession
    cases hsession
    exact .inl ⟨s, (h.2.listed s sender).mpr hs, hin⟩
  · exact .inr hroom

theorem forwards_shared (P : Platform) (features : FeatureRegistry)
    (roomAudioBridge gameRelayBridge : Bool) (es : List RelayEvent) :
    ForwardsShared P (run (fun srv e => (handle srv P e).1)
      (.start features roomAudioBridge gameRelayBridge) es) :=
  forwardsShared_of (run_inv
    (fun srv : RelayServer => srv.state.ConnectedListed ∧ srv.state.SessionsAgree)
    ⟨fun p peer r hpeer => (by simp [start, RelayState.new] at hpeer), RelayState.sessionsAgree_new⟩
    fun srv e h => ⟨handle_connectedListed h.1 e, RelayState.sessionsAgree_invariant.handle h.2 e⟩)

/-! ## A broadcast outside the game -/

/-- A certificate that names bob's key. -/
def bobCert : List UInt8 :=
  Transport.cnOid ++ 0x0C :: 64 :: utf8Bytes
    "3d4017c3e843895a92b70aa74d1b7ebc9c982ccf2ec4968cc0cd55f12af4660c"

/-- Alice and bob talk in one room, and neither is in a game. -/
def chattingRoom : List RelayTurn :=
  [.event (.allow alice.text), .event (.allow bob.text), .event (.connect [aliceCert] 1 []),
    .event (.connect [bobCert] 2 []), .event (.joinRoom alice.text "den"),
    .event (.joinRoom bob.text "den")]

/-- A game broadcast of alice, who is in no game, reaches bob through their room. -/
theorem game_broadcast_leaves_for_the_room :
    ¬ ∀ (P : Platform) (features : FeatureRegistry) (room game : Bool) (ts : List RelayTurn)
      (sender recipient : String) (data datagram : Bytes) (now : Nat), GameBroadcast data →
      .forward recipient datagram ∈
        ((reached P features room game ts).handleDatagram P sender data now).2 →
      ∃ s, (reached P features room game ts).state.peerGameSession[sender]? = some s ∧
        Listed (reached P features room game ts).state.gameSessions s recipient := by
  intro h
  have hgame : GameBroadcast [broadcastIndex, gameRelayTag] := ⟨[gameRelayTag], rfl, rfl⟩
  obtain ⟨s, hs, -⟩ := h .symbolic ⟨fun _ => none, .new, .new⟩ true true chattingRoom
    (bare alice.text) (bare bob.text) [broadcastIndex, gameRelayTag] [1, gameRelayTag] 0 hgame
    (by decide +kernel)
  have hnone : (reached .symbolic ⟨fun _ => none, .new, .new⟩ true true
      chattingRoom).state.peerGameSession[bare alice.text]? = none := by
    decide +kernel
  cases hnone.symm.trans hs

end RelayServer

end ConquerD.Supernode
