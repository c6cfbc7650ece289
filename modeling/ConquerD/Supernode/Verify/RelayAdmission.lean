import ConquerD.Supernode.RelayDatagrams
import ConquerD.Supernode.Verify.RelayRooms

/-!
# Relay rooms and the peers that joined them

What a peer's room is can be told from the calls: the room it joined last, until
it leaves or its connection is taken away. The relay's table lists a peer in that
room alone as long as joins and leaves find the connection where the table has
the peer, and no datagram puts its sender into a room.
-/

namespace ConquerD.Supernode

open Std (ExtTreeMap ExtTreeSet)
open ConquerD.Features Lib.Encoding Lib.Rosters Lib.Run Wire

namespace RelayServer

variable {P : Platform} {srv : RelayServer}

/-! ## Datagrams leave the tables alone -/

theorem tryForwardDatagram_state {featureId recipient : String} {fwd : Bytes} {now : Nat} :
    (srv.tryForwardDatagram featureId fwd now recipient).1.state = srv.state := by
  unfold tryForwardDatagram
  split
  · rfl
  · rfl

theorem forwardAll_state {featureId : String} {fwd : Bytes} {now : Nat} :
    ∀ (recipients : List String) {srv : RelayServer},
      (srv.forwardAll featureId fwd now recipients).1.state = srv.state
  | [], _ => rfl
  | _ :: rest, _ => (forwardAll_state rest).trans tryForwardDatagram_state

theorem mem_of_forwardAll {featureId recipient : String} {fwd datagram : Bytes} {now : Nat} :
    ∀ (recipients : List String) {srv : RelayServer},
      .forward recipient datagram ∈ (srv.forwardAll featureId fwd now recipients).2 →
        recipient ∈ recipients
  | [], _, h => nomatch h
  | first :: rest, srv, h => by
    rcases List.mem_append.mp h with h | h
    · have hfirst : recipient = first := by
        unfold tryForwardDatagram at h
        split at h
        · simp only at h
          split at h
          · simpa using And.left (by simpa using h : recipient = first ∧ datagram = fwd)
          · cases h
        · cases h
      exact hfirst ▸ List.mem_cons_self
    · exact List.mem_cons_of_mem _ (mem_of_forwardAll rest h)

theorem roomAudioFrame_state {fromPeer : String} {peer : RelayPeer} {payload : Bytes} :
    (srv.roomAudioFrame P fromPeer peer payload).1.state = srv.state := by
  unfold roomAudioFrame
  simp only
  split
  · rfl
  · split
    · rfl
    · rfl

theorem forward_notMem_roomAudioFrame {fromPeer recipient : String} {peer : RelayPeer}
    {payload datagram : Bytes} :
    .forward recipient datagram ∉ (srv.roomAudioFrame P fromPeer peer payload).2 := by
  unfold roomAudioFrame
  simp only
  split
  · exact List.not_mem_nil
  · split
    · simp
    · exact List.not_mem_nil

theorem relayFrame_state {fromPeer featureId : String} {peer : RelayPeer} {targetIdx : UInt8}
    {payload : Bytes} {now : Nat} :
    (srv.relayFrame fromPeer peer targetIdx featureId payload now).1.state = srv.state := by
  unfold relayFrame
  simp only
  split
  · split
    · exact forwardAll_state _
    · exact forwardAll_state _
  · exact forwardAll_state _

theorem routeDatagram_state {fromPeer : String} {targetIdx : UInt8} {payload : Bytes} {now : Nat} :
    (srv.routeDatagram P fromPeer targetIdx payload now).1.state = srv.state := by
  unfold routeDatagram
  simp only
  split
  · rfl
  · split
    · exact roomAudioFrame_state
    · exact relayFrame_state

theorem handleDatagram_state {fromPeer : String} {data : Bytes} {now : Nat} :
    (srv.handleDatagram P fromPeer data now).1.state = srv.state := by
  unfold handleDatagram
  split
  · rfl
  · simp only
    split
    · exact routeDatagram_state
    · rfl

/-! ## Recipients -/

theorem relayFrame_recipient {fromPeer featureId recipient : String} {peer : RelayPeer}
    {targetIdx : UInt8} {payload datagram : Bytes} {now : Nat}
    (h : .forward recipient datagram ∈
      (srv.relayFrame fromPeer peer targetIdx featureId payload now).2) :
    (∃ session ∈ srv.state.gameSessionOf fromPeer, recipient ∈ session.2) ∨
      recipient ∈ srv.state.roomRecipients fromPeer peer featureId ∨
      recipient ∈ srv.state.pointToPoint peer targetIdx := by
  unfold relayFrame at h
  dsimp only at h
  split at h
  · split at h
    · next sessionId sessionMembers hsession =>
      split at hsession
      · rcases List.mem_append.mp h with hmember | hbridge
        · have hfiltered := List.mem_filter.mp (mem_of_forwardAll _ hmember)
          exact .inl ⟨_, hsession, ExtTreeSet.mem_toList.mp hfiltered.1⟩
        · split at hbridge
          · cases List.mem_singleton.mp hbridge
          · cases hbridge
      · cases hsession
    · exact .inr (.inl (mem_of_forwardAll _ h))
  · exact .inr (.inr (mem_of_forwardAll _ h))

theorem listed_of_recipient (hc : srv.state.ConnectedListed) {fromPeer featureId recipient : String}
    {peer : RelayPeer} {targetIdx : UInt8}
    (h : recipient ∈ srv.state.roomRecipients fromPeer peer featureId ∨
      recipient ∈ srv.state.pointToPoint peer targetIdx) :
    ∃ r, peer.roomId = some r ∧ Listed srv.state.rooms r recipient := by
  rcases h with h | h
  · unfold RelayState.roomRecipients at h
    split at h
    · cases h
    · rename_i r hroom
      exact ⟨r, hroom, ExtTreeSet.mem_toList.mp (List.mem_filter.mp h).1⟩
  · unfold RelayState.pointToPoint at h
    split at h
    · cases h
    · split at h
      · cases h
      · rename_i target htarget
        split at h
        · rename_i a b hfrom hto
          split at h
          · rename_i hab
            rw [List.mem_singleton] at h
            subst h
            exact ⟨a, hfrom, hc _ target a htarget (hab ▸ hto)⟩
          · cases h
        · cases h

theorem routeDatagram_shares_room (hc : srv.state.ConnectedListed) {fromPeer recipient : String}
    {targetIdx : UInt8} {payload datagram : Bytes} {now : Nat}
    (h : .forward recipient datagram ∈
      (srv.routeDatagram P fromPeer targetIdx payload now).2) :
    (∃ session ∈ srv.state.gameSessionOf fromPeer, recipient ∈ session.2) ∨
      ∃ r, Listed srv.state.rooms r fromPeer ∧ Listed srv.state.rooms r recipient := by
  unfold routeDatagram at h
  simp only at h
  split at h
  · cases h
  · rename_i peer hpeer
    split at h
    · exact absurd h forward_notMem_roomAudioFrame
    · obtain hsession | hroom := relayFrame_recipient h
      · exact .inl hsession
      · obtain ⟨r, hin, hto⟩ := listed_of_recipient hc hroom
        exact .inr ⟨r, hc fromPeer peer r hpeer hin, hto⟩

theorem forward_shares_room (hc : srv.state.ConnectedListed) {fromPeer recipient : String}
    {data datagram : Bytes} {now : Nat}
    (h : .forward recipient datagram ∈ (srv.handleDatagram P fromPeer data now).2) :
    (∃ session ∈ srv.state.gameSessionOf fromPeer, recipient ∈ session.2) ∨
      ∃ r, Listed srv.state.rooms r fromPeer ∧ Listed srv.state.rooms r recipient := by
  unfold handleDatagram at h
  split at h
  · cases h
  · rename_i targetIdx payload _
    simp only at h
    split at h
    · exact @routeDatagram_shares_room P
        { srv with features := (srv.inboundGate fromPeer payload now).1 } hc _ _ _ _ _ _ h
    · cases h

/-! ## Connections that are taken away -/

/-- The peers whose connection the event takes away. -/
def departed (srv : RelayServer) : RelayEvent → List String
  | .disconnect p connection => if srv.registered p connection then [p] else []
  | .revokePeer p => [bare p]
  | .cleanup closed => srv.stalePeers closed
  | _ => []

theorem disconnect_state {p : String} {connection : Nat} :
    (srv.disconnect p connection).state =
      if srv.registered p connection then srv.state.removePeer p else srv.state := by
  have hstate : (srv.disconnect p connection).state = srv.state.connectionClosed p connection := by
    unfold disconnect
    simp only
    split
    · rfl
    · rfl
  rw [hstate]
  unfold RelayState.connectionClosed registered
  cases hp : srv.state.peers[p]? with
  | none => rfl
  | some peer => simp

theorem cleanup_state {closed : List Nat} :
    (srv.cleanupStalePeers closed).state =
      (srv.stalePeers closed).foldl (fun st id => st.removePeer id) srv.state := by
  unfold cleanupStalePeers
  generalize srv.stalePeers closed = stale
  induction stale generalizing srv with
  | nil => rfl
  | cons id stale ih => exact ih

theorem connect_state {certs : List (List UInt8)} {connection : Nat} {order : List String} :
    (srv.connect certs connection order).state =
      (srv.state.handleConnection certs connection order).1 := by
  unfold connect
  simp only
  split
  · split
    · rfl
    · rfl
  · split
    · rfl
    · rfl
  · rfl

end RelayServer

namespace RelayState

theorem listed_removePeers {r p : String} : ∀ (ids : List String) {st : RelayState},
    Listed (ids.foldl (fun st id => st.removePeer id) st).rooms r p ↔
      Listed st.rooms r p ∧ p ∉ ids
  | [], st => by simp
  | id :: ids, st => by
    rw [List.foldl_cons, listed_removePeers ids, listed_removePeer, List.mem_cons, not_or,
      and_assoc, ne_comm]

theorem removePeer_connectedListed {st : RelayState} {id : String} (h : st.ConnectedListed) :
    (st.removePeer id).ConnectedListed := by
  intro p peer r hpeer hroom
  obtain ⟨hold, hne⟩ := removePeer_peers hpeer
  exact listed_removePeer.mpr ⟨h p peer r hold hroom, hne⟩

theorem removePeers_connectedListed : ∀ (ids : List String) {st : RelayState},
    st.ConnectedListed → (ids.foldl (fun st id => st.removePeer id) st).ConnectedListed
  | [], _, h => h
  | _ :: ids, _, h => removePeers_connectedListed ids (removePeer_connectedListed h)

theorem joinGameSession_tables {st : RelayState} {p s : String} :
    (st.joinGameSession p s).rooms = st.rooms ∧ (st.joinGameSession p s).peers = st.peers := by
  unfold joinGameSession
  simp only
  split
  · exact ⟨rfl, rfl⟩
  · exact ⟨rfl, rfl⟩

theorem leaveGameSession_tables {st : RelayState} {p : String} :
    (st.leaveGameSession p).rooms = st.rooms ∧ (st.leaveGameSession p).peers = st.peers := by
  unfold leaveGameSession
  simp only
  split
  · exact ⟨rfl, rfl⟩
  · exact ⟨rfl, rfl⟩

theorem ConnectedListed.congr {st st' : RelayState} (h : st.ConnectedListed)
    (htables : st'.rooms = st.rooms ∧ st'.peers = st.peers) : st'.ConnectedListed := by
  intro p peer r hpeer hroom
  rw [htables.2] at hpeer
  rw [htables.1]
  exact h p peer r hpeer hroom

end RelayState

/-! ## What one event does to the tables -/

/-- The events that put a peer into a room or take it out of one by name. -/
def RelayEvent.moves : RelayEvent → Bool
  | .joinRoom .. | .leaveRoom .. | .heal .. => true
  | _ => false

namespace RelayServer

variable {P : Platform} {srv : RelayServer}

theorem listed_healRoom {h : PendingHeal} {position : Nat} (hat : srv.healing[position]? = some h)
    {r p : String} :
    Listed (srv.healRoom position).1.state.rooms r p ↔
      Listed srv.state.rooms r p ∨ (h.roomId = r ∧ h.fromPeer = p) := by
  unfold healRoom
  rw [hat]
  exact listed_addMember

theorem healRoom_connectedListed {position : Nat} (hc : srv.state.ConnectedListed) :
    (srv.healRoom position).1.state.ConnectedListed := by
  cases hat : srv.healing[position]? with
  | none =>
    unfold healRoom
    rw [hat]
    exact hc
  | some h =>
    intro p peer r hpeer hroom
    rw [listed_healRoom hat]
    unfold healRoom at hpeer
    simp only [hat, ExtTreeMap.getElem?_modify, Std.compare_eq_iff_eq] at hpeer
    split at hpeer
    · rename_i heq
      obtain ⟨old, -, rfl⟩ := Option.map_eq_some_iff.mp hpeer
      cases hroom
      exact .inr ⟨rfl, heq⟩
    · exact .inl (hc p peer r hpeer hroom)

/-- Every other event takes away the peers whose connection it takes away, and
lists nobody. -/
theorem handle_other (hc : srv.state.ConnectedListed) {e : RelayEvent} (hmoves : e.moves = false) :
    (∀ r p, Listed (srv.handle P e).1.state.rooms r p ↔
        Listed srv.state.rooms r p ∧ p ∉ srv.departed e) ∧
      (srv.handle P e).1.state.ConnectedListed := by
  have hsame : ∀ {st : RelayState}, st.rooms = srv.state.rooms ∧ st.peers = srv.state.peers →
      (∀ r p, Listed st.rooms r p ↔ Listed srv.state.rooms r p ∧ p ∉ ([] : List String)) ∧
        st.ConnectedListed := by
    intro st htables
    exact ⟨fun r p => by simp [htables.1], hc.congr htables⟩
  cases e with
  | joinRoom p r => cases hmoves
  | leaveRoom p => cases hmoves
  | heal position => cases hmoves
  | allow p => exact hsame ⟨rfl, rfl⟩
  | allowUpdate p => exact hsame ⟨rfl, rfl⟩
  | allowPortal p => exact hsame ⟨rfl, rfl⟩
  | joinGameSession p s => exact hsame RelayState.joinGameSession_tables
  | leaveGameSession p => exact hsame RelayState.leaveGameSession_tables
  | subscribeVideo p senders => exact hsame ⟨rfl, rfl⟩
  | datagram p data now =>
    simp only [handle]
    split
    · rw [handleDatagram_state]
      exact hsame ⟨rfl, rfl⟩
    · exact hsame ⟨rfl, rfl⟩
  | connect certs connection order =>
    simp only [handle, departed, connect_state, List.not_mem_nil, not_false_eq_true, and_true]
    exact RelayState.listed_handleConnection hc
  | disconnect p connection =>
    simp only [handle, departed, disconnect_state]
    split
    · refine ⟨fun r q => ?_, RelayState.removePeer_connectedListed hc⟩
      rw [RelayState.listed_removePeer, List.mem_singleton, ne_comm]
    · exact hsame ⟨rfl, rfl⟩
  | revokePeer p =>
    have hgrants : RelayState.ConnectedListed
        { srv.state with allowed := srv.state.allowed.erase (bare p) } := hc
    refine ⟨fun r q => ?_, RelayState.removePeer_connectedListed hgrants⟩
    simp only [handle, departed, revokePeer, clearQuotas, List.mem_singleton]
    rw [RelayState.listed_removePeer, ne_comm]
  | cleanup closed =>
    simp only [handle, departed, cleanup_state]
    exact ⟨fun _ _ => RelayState.listed_removePeers _,
      RelayState.removePeers_connectedListed _ hc⟩

theorem handle_connectedListed (hc : srv.state.ConnectedListed) (e : RelayEvent) :
    (srv.handle P e).1.state.ConnectedListed := by
  cases hmoves : e.moves with
  | false => exact (handle_other hc hmoves).2
  | true =>
    cases e with
    | joinRoom p r => exact RelayState.joinRoom_connectedListed hc
    | leaveRoom p => exact RelayState.leaveRoom_connectedListed hc
    | heal position => exact healRoom_connectedListed hc
    | _ => cases hmoves

end RelayServer

/-! ## The room of a peer, from the calls -/

/-- A relay, and for each peer the room it joined last and has not left. -/
structure TrackedRelay where
  server : RelayServer
  current : ExtTreeMap String String

namespace TrackedRelay

variable (P : Platform)

def start (features : FeatureRegistry) (roomAudioBridge gameRelayBridge : Bool) : TrackedRelay where
  server := .start features roomAudioBridge gameRelayBridge
  current := ∅

/-- A peer is in the room it joined, until it joins another, leaves, or loses its
connection. -/
def track (s : TrackedRelay) : RelayEvent → ExtTreeMap String String
  | .joinRoom p r => s.current.insert (bare p) r
  | .leaveRoom p => s.current.erase (bare p)
  | e => (s.server.departed e).foldl (fun current p => current.erase p) s.current

def step (s : TrackedRelay) (e : RelayEvent) : TrackedRelay where
  server := (s.server.handle P e).1
  current := s.track e

/-- Who is listed in a room joined it and has not left since. -/
def MembershipAdmitted (s : TrackedRelay) : Prop :=
  ∀ r p, Listed s.server.state.rooms r p → s.current[p]? = some r

/-- A join or a leave finds the peer's connection in the room that lists the peer
(a join may also find it listed in the room it joins), and a datagram puts its
sender only into the room it is in by its calls. -/
def MovesAdmitted (s : TrackedRelay) : RelayEvent → Prop
  | .joinRoom p r => ∀ r', Listed s.server.state.rooms r' (bare p) →
      r' = r ∨ s.server.state.roomOf p = some r'
  | .leaveRoom p => ∀ r', Listed s.server.state.rooms r' (bare p) →
      s.server.state.roomOf p = some r'
  | .heal position => ∀ h, s.server.healing[position]? = some h →
      s.current[h.fromPeer]? = some h.roomId
  | _ => True

variable {P} {s : TrackedRelay}

theorem track_other {e : RelayEvent} (hmoves : e.moves = false) :
    s.track e = (s.server.departed e).foldl (fun current p => current.erase p) s.current := by
  cases e with
  | joinRoom p r => cases hmoves
  | leaveRoom p => cases hmoves
  | _ => rfl

theorem getElem?_erased {p : String} : ∀ (ids : List String) {current : ExtTreeMap String String},
    p ∉ ids → (ids.foldl (fun current p => current.erase p) current)[p]? = current[p]?
  | [], _, _ => rfl
  | id :: ids, current, h => by
    rw [List.mem_cons, not_or] at h
    rw [List.foldl_cons, getElem?_erased ids h.2, ExtTreeMap.getElem?_erase]
    simp [Ne.symm h.1]

theorem admitted_joinRoom (hgood : s.MembershipAdmitted) {p r : String} :
    (s.step P (.joinRoom p r)).MembershipAdmitted ↔ s.MovesAdmitted (.joinRoom p r) := by
  have hlisted : ∀ r' p', Listed (s.server.state.joinRoom p r).rooms r' p' ↔
      (Listed s.server.state.rooms r' p' ∧ ¬ (s.server.state.roomOf p = some r' ∧ bare p = p')) ∨
        (r = r' ∧ bare p = p') := by
    intro r' p'
    unfold RelayState.joinRoom RelayState.roomOf
    simp only [listed_addMember]
    cases s.server.state.peers[bare p]?.bind (·.roomId) with
    | none => simp
    | some old => simp [listed_removeMember]
  constructor
  · intro hafter r' hl
    by_contra hne
    rw [not_or] at hne
    have hroom := hafter r' (bare p) ((hlisted r' (bare p)).mpr (.inl ⟨hl, fun h => hne.2 h.1⟩))
    have hinsert : (s.current.insert (bare p) r)[bare p]? = some r' := hroom
    rw [ExtTreeMap.getElem?_insert_self] at hinsert
    exact hne.1 (Option.some.inj hinsert).symm
  · intro hcond r' p' hl
    have hgoal : (s.current.insert (bare p) r)[p']? = some r' := by
      rw [ExtTreeMap.getElem?_insert]
      simp only [Std.compare_eq_iff_eq]
      rcases (hlisted r' p').mp hl with ⟨hold, hne⟩ | ⟨rfl, heq⟩
      · by_cases heq : bare p = p'
        · subst heq
          rcases hcond r' hold with rfl | hroom
          · rw [if_pos rfl]
          · exact absurd ⟨hroom, rfl⟩ hne
        · rw [if_neg heq]
          exact hgood r' p' hold
      · rw [if_pos heq]
    exact hgoal

theorem admitted_leaveRoom (hgood : s.MembershipAdmitted) {p : String} :
    (s.step P (.leaveRoom p)).MembershipAdmitted ↔ s.MovesAdmitted (.leaveRoom p) := by
  have hlisted : ∀ r' p', Listed (s.server.state.leaveRoom p).rooms r' p' ↔
      Listed s.server.state.rooms r' p' ∧
        ¬ (s.server.state.roomOf p = some r' ∧ bare p = p') := by
    intro r' p'
    cases hroom : s.server.state.roomOf p with
    | none => simp [RelayState.leaveRoom_of_roomOf_none hroom]
    | some r => simp [RelayState.listed_leaveRoom hroom]
  constructor
  · intro hafter r' hl
    by_contra hne
    have hroom := hafter r' (bare p) ((hlisted r' (bare p)).mpr ⟨hl, fun h => hne h.1⟩)
    have herase : (s.current.erase (bare p))[bare p]? = some r' := hroom
    simp at herase
  · intro hcond r' p' hl
    obtain ⟨hold, hne⟩ := (hlisted r' p').mp hl
    have hother : bare p ≠ p' := by
      rintro rfl
      exact hne ⟨hcond r' hold, rfl⟩
    have hgoal : (s.current.erase (bare p))[p']? = some r' := by
      rw [ExtTreeMap.getElem?_erase]
      simp only [Std.compare_eq_iff_eq, if_neg hother]
      exact hgood r' p' hold
    exact hgoal

theorem admitted_heal (hgood : s.MembershipAdmitted) {position : Nat} :
    (s.step P (.heal position)).MembershipAdmitted ↔ s.MovesAdmitted (.heal position) := by
  cases hat : s.server.healing[position]? with
  | none =>
    have hstate : (s.server.healRoom position).1 = s.server := by
      unfold RelayServer.healRoom
      rw [hat]
    constructor
    · intro _ h hsome
      cases hat.symm.trans hsome
    · intro _ r p hl
      have hl : Listed (s.server.healRoom position).1.state.rooms r p := hl
      rw [hstate] at hl
      exact hgood r p hl
  | some h =>
    constructor
    · intro hafter h' hsome
      cases hat.symm.trans hsome
      exact hafter h.roomId h.fromPeer
        ((RelayServer.listed_healRoom hat).mpr (.inr ⟨rfl, rfl⟩))
    · intro hcond r p hl
      rcases (RelayServer.listed_healRoom hat).mp hl with hold | ⟨rfl, rfl⟩
      · exact hgood r p hold
      · exact hcond h hat

/-- Membership stays admitted over an event exactly when the event is one that
finds the tables where the calls have the peer. -/
theorem admitted_step (hc : s.server.state.ConnectedListed) (hgood : s.MembershipAdmitted)
    (e : RelayEvent) : (s.step P e).MembershipAdmitted ↔ s.MovesAdmitted e := by
  cases hmoves : e.moves with
  | true =>
    cases e with
    | joinRoom p r => exact admitted_joinRoom hgood
    | leaveRoom p => exact admitted_leaveRoom hgood
    | heal position => exact admitted_heal hgood
    | _ => cases hmoves
  | false =>
    have hafter : (s.step P e).MembershipAdmitted := by
      intro r p hl
      obtain ⟨hold, hstays⟩ := ((RelayServer.handle_other hc hmoves).1 r p).mp hl
      have hgoal : (s.track e)[p]? = some r := by
        rw [track_other hmoves, getElem?_erased _ hstays]
        exact hgood r p hold
      exact hgoal
    have hcond : s.MovesAdmitted e := by
      cases e with
      | joinRoom p r => cases hmoves
      | leaveRoom p => cases hmoves
      | heal position => cases hmoves
      | _ => trivial
    exact ⟨fun _ => hcond, fun _ => hafter⟩

/-! ## Who receives what -/

/-- Outside game sessions, a forwarded datagram reaches only peers whose room, by
the calls, is the sender's. -/
theorem forward_within_room (hc : s.server.state.ConnectedListed) (hgood : s.MembershipAdmitted)
    {fromPeer recipient : String} {data datagram : Bytes} {now : Nat}
    (hsession : s.server.state.gameSessionOf fromPeer = none)
    (hforward : .forward recipient datagram ∈ (s.server.handleDatagram P fromPeer data now).2) :
    ∃ r, s.current[fromPeer]? = some r ∧ s.current[recipient]? = some r := by
  obtain ⟨session, hin, -⟩ | ⟨r, hfrom, hto⟩ := RelayServer.forward_shares_room hc hforward
  · rw [hsession] at hin
    cases hin
  exact ⟨r, hgood r fromPeer hfrom, hgood r recipient hto⟩

/-! ## Runs -/

/-- Along a run, the relay lists a peer only in the room it joined and has not left
exactly when every join and leave finds the peer's connection in the room that
lists the peer and no datagram puts its sender into another room. -/
theorem membership_admitted_iff (P : Platform) (features : FeatureRegistry)
    (roomAudioBridge gameRelayBridge : Bool) (es : List RelayEvent) :
    Along (step P) (fun s e => (s.step P e).MembershipAdmitted)
        (start features roomAudioBridge gameRelayBridge) es ↔
      Along (step P) MovesAdmitted (start features roomAudioBridge gameRelayBridge) es := by
  refine along_after_iff (fun s => s.server.state.ConnectedListed) MembershipAdmitted
    ?_ ?_ ?_ ?_
  · intro p peer r hpeer
    simp [start, RelayServer.start, RelayState.new] at hpeer
  · intro r p hl
    exact absurd hl (listed_empty r p)
  · exact fun s e hc => RelayServer.handle_connectedListed hc e
  · exact fun s e hc hgood => admitted_step hc hgood e

/-! ## A room nobody let her into -/

/-- The body of a room-audio frame that names a room. -/
def denEnvelope : String :=
  "\x7b\"payload\":\x7b\"room_id\":\"den\"\x7d\x7d"

/-- A platform whose JSON reader knows that text. -/
def envelopePlatform : Platform :=
  { Platform.symbolic with
    jsonFromStr := fun text =>
      if text = denEnvelope then some (.obj [("payload", .obj [("room_id", .str "den")])])
      else none }

def intrusion : List RelayEvent :=
  [.allow alice.text, .connect [aliceCert] 1 [],
    .datagram (bare alice.text) (broadcastIndex :: roomAudioTag :: utf8Bytes denEnvelope) 0,
    .heal 0]

/-- Alice is listed in a room she never joined. -/
theorem datagram_joins_a_room :
    ¬ ∀ (P : Platform) (features : FeatureRegistry) (room game : Bool) (es : List RelayEvent),
      Along (step P) (fun s e => (s.step P e).MembershipAdmitted) (start features room game) es := by
  intro h
  have hrun := h envelopePlatform ⟨fun _ => none, .new, .new⟩ true true intrusion
  have hlast := hrun.2.2.2.1 "den" (bare alice.text) (by decide +kernel)
  have hnone : (run (step envelopePlatform) (start ⟨fun _ => none, .new, .new⟩ true true)
      intrusion).current[bare alice.text]? = none := by
    decide +kernel
  cases hnone.symm.trans hlast

end TrackedRelay

end ConquerD.Supernode
