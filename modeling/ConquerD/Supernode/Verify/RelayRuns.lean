import ConquerD.Supernode.Verify.RelayAdmission

/-!
# Supernode: what the turns of the relay do to its tables

Whatever the interleaving, the tables are written by a dozen functions. A property of
the tables that each of them keeps holds after any turns.
-/

namespace ConquerD.Supernode

open ConquerD.Features Lib.Encoding Lib.Rosters Lib.Run Wire
open Std (ExtTreeMap ExtTreeSet)

namespace RelayState

/-- The table of rooms and connections with a peer put into a room by its own frame. -/
def healed (st : RelayState) (peerId roomId : String) : RelayState :=
  { st with
    peers := st.peers.modify peerId fun peer => { peer with roomId := some roomId }
    rooms := addMember st.rooms roomId peerId }

theorem removePeer_eq (st : RelayState) (p : String) : st.removePeer p =
    { st with
      videoSubs := st.videoSubs.erase (normalizePublicId p)
      peers := match st.peers[p]? with
        | none => st.peers
        | some _ => st.peers.erase p
      indexToPeer := match st.peers[p]? with
        | none => st.indexToPeer
        | some peer => st.indexToPeer.erase peer.peerIndex
      rooms := removeEverywhere (match st.peers[p]?.bind (·.roomId) with
        | none => st.rooms
        | some roomId => removeMember st.rooms roomId p) p
      peerGameSession := match st.peerGameSession[p]? with
        | none => st.peerGameSession
        | some _ => st.peerGameSession.erase p
      gameSessions := match st.peerGameSession[p]? with
        | none => removeEverywhere st.gameSessions p
        | some sessionId => removeMember st.gameSessions sessionId p } := by
  unfold removePeer
  cases hp : st.peers[p]? with
  | none =>
    cases hs : st.peerGameSession[p]? with
    | none => simp only [hp, hs, Option.bind_none]
    | some sessionId => simp only [hp, hs, Option.bind_none]
  | some peer =>
    cases hr : peer.roomId with
    | none =>
      cases hs : st.peerGameSession[p]? with
      | none => simp only [hp, hs, Option.bind_some, hr]
      | some sessionId => simp only [hp, hs, Option.bind_some, hr]
    | some roomId =>
      cases hs : st.peerGameSession[p]? with
      | none => simp only [hp, hs, Option.bind_some, hr]
      | some sessionId => simp only [hp, hs, Option.bind_some, hr]

/-- What every write to the tables keeps. -/
structure TableInvariant (I : RelayState → Prop) : Prop where
  new : I .new
  allowPeer : ∀ st p, I st → I (st.allowPeer p)
  allowPeerUpdate : ∀ st p, I st → I (st.allowPeerUpdate p)
  allowPortalPeer : ∀ st p, I st → I (st.allowPortalPeer p)
  revoked : ∀ st p, I st → I { st with allowed := st.allowed.erase p }
  registerPeer : ∀ st p connection order portalOnly, I st →
    I (st.registerPeer p connection order portalOnly).1
  removePeer : ∀ st p, I st → I (st.removePeer p)
  joinRoom : ∀ st p r, I st → I (st.joinRoom p r)
  leaveRoom : ∀ st p, I st → I (st.leaveRoom p)
  healed : ∀ st p r, I st → I (st.healed p r)
  joinGameSession : ∀ st p s, I st → I (st.joinGameSession p s)
  leaveGameSession : ∀ st p, I st → I (st.leaveGameSession p)
  setVideoSubscriptions : ∀ st p senders, I st → I (st.setVideoSubscriptions p senders)

namespace TableInvariant

variable {I : RelayState → Prop}

theorem handleConnection (hI : TableInvariant I) {st : RelayState} (h : I st)
    (certs : List (List UInt8)) (connection : Nat) (order : List String) :
    I (st.handleConnection certs connection order).1 := by
  cases hid : extractPeerId certs with
  | error e =>
    unfold RelayState.handleConnection
    rw [hid]
    exact h
  | ok peerId =>
    rw [handleConnection_eq_registerPeer st connection order hid]
    split
    · exact hI.registerPeer _ _ _ _ _ h
    · exact h

theorem removePeers (hI : TableInvariant I) (ids : List String) {st : RelayState} (h : I st) :
    I (ids.foldl (fun st id => st.removePeer id) st) := by
  induction ids generalizing st with
  | nil => exact h
  | cons id ids ih => exact ih (hI.removePeer st id h)

end TableInvariant

end RelayState

namespace RelayServer

variable {P : Platform} {srv : RelayServer}

theorem registerPeer_state (p : String) (connection : Nat) (order : List String)
    (portalOnly : Bool) : (srv.registerPeer p connection order portalOnly).state =
      (srv.state.registerPeer p connection order portalOnly).1 := by
  unfold registerPeer
  simp only
  split
  · split
    · rfl
    · rfl
  · split
    · rfl
    · rfl
  · rfl

theorem healRoom_state (position : Nat) : (srv.healRoom position).1.state = srv.state ∨
    ∃ p r, (srv.healRoom position).1.state = srv.state.healed p r := by
  unfold healRoom
  split
  · exact .inl rfl
  · next h _ => exact .inr ⟨h.fromPeer, h.roomId, rfl⟩

end RelayServer

namespace RelayState.TableInvariant

variable {I : RelayState → Prop} {P : Platform} {srv : RelayServer}

theorem handle (hI : TableInvariant I) (h : I srv.state) (e : RelayEvent) :
    I (srv.handle P e).1.state := by
  cases e with
  | allow p => exact hI.allowPeer _ p h
  | allowUpdate p => exact hI.allowPeerUpdate _ p h
  | allowPortal p => exact hI.allowPortalPeer _ p h
  | connect certs connection order =>
    simp only [RelayServer.handle, RelayServer.connect_state]
    exact hI.handleConnection h certs connection order
  | disconnect p connection =>
    simp only [RelayServer.handle, RelayServer.disconnect_state]
    split
    · exact hI.removePeer _ p h
    · exact h
  | joinRoom p r => exact hI.joinRoom _ p r h
  | leaveRoom p => exact hI.leaveRoom _ p h
  | joinGameSession p s => exact hI.joinGameSession _ p s h
  | leaveGameSession p => exact hI.leaveGameSession _ p h
  | subscribeVideo p senders => exact hI.setVideoSubscriptions _ p senders h
  | revokePeer p => exact hI.removePeer _ (bare p) (hI.revoked _ (bare p) h)
  | cleanup closed =>
    simp only [RelayServer.handle, RelayServer.cleanup_state]
    exact hI.removePeers _ h
  | datagram p data now =>
    simp only [RelayServer.handle]
    split
    · rw [RelayServer.handleDatagram_state]
      exact h
    · exact h
  | heal position =>
    rcases srv.healRoom_state position with hsame | ⟨p, r, hhealed⟩
    · exact hsame.symm ▸ h
    · exact hhealed.symm ▸ hI.healed _ p r h

theorem turn (hI : TableInvariant I) (h : I srv.state) (t : RelayTurn) :
    I (srv.afterTurn P t).state := by
  cases t with
  | event e => exact hI.handle h e
  | register p connection order portalOnly =>
    simp only [RelayServer.afterTurn, RelayServer.turn, RelayServer.registerPeer_state]
    exact hI.registerPeer _ _ _ _ _ h
  | remove p => exact hI.removePeer _ p h

theorem run (hI : TableInvariant I) (P : Platform) (features : FeatureRegistry)
    (roomAudioBridge gameRelayBridge : Bool) (ts : List RelayTurn) :
    I (run (RelayServer.afterTurn P) (.start features roomAudioBridge gameRelayBridge) ts).state :=
  run_inv (fun srv : RelayServer => I srv.state) hI.new fun _ t h => hI.turn h t

end RelayState.TableInvariant

end ConquerD.Supernode
