import ConquerD.Lib.TwoWay
import ConquerD.Supernode.Verify.RelayRuns

/-!
# Supernode: the indices of the relay

A connected peer has an index, and the reverse table leads from the index back to the
peer. Registrations, reconnects and the four ways a connection goes keep the two inverse,
so the index in front of a forwarded datagram leads to its sender.
-/

namespace ConquerD.Supernode

open ConquerD.Features Lib.Encoding Lib.Rosters Lib.Run Lib.TwoWay Wire
open Std (ExtTreeMap ExtTreeSet)

namespace RelayState

variable {st st' : RelayState} {p q : String}

/-- The index of a connected peer. -/
def indexOf (st : RelayState) (p : String) : Option Nat :=
  st.peers[p]?.map RelayPeer.peerIndex

/-- The peer an index leads to. -/
def peerAt (st : RelayState) (index : Nat) : Option String :=
  st.indexToPeer[index]?

/-- The tables are inverse, and all indices are from 1 to 254. -/
structure IndexTable (st : RelayState) : Prop where
  inverse : Inverse st.indexOf st.peerAt
  range : ∀ index p, st.peerAt index = some p → 1 ≤ index ∧ index ≤ 254
  next : 1 ≤ st.nextIndex ∧ st.nextIndex ≤ 254

/-! ## The search -/

theorem succPeerIndex_range {index : Nat} (h : 1 ≤ index ∧ index ≤ 254) :
    1 ≤ succPeerIndex index ∧ succPeerIndex index ≤ 254 := by
  unfold succPeerIndex
  split
  · decide
  · omega

theorem mem_indexOrder {index : Nat} (h : 1 ≤ st.nextIndex) :
    index ∈ st.indexOrder ↔ 1 ≤ index ∧ index ≤ 254 := by
  unfold indexOrder
  rw [List.mem_map]
  constructor
  · rintro ⟨k, -, rfl⟩
    omega
  · rintro ⟨hlow, hhigh⟩
    refine ⟨(index + 254 * st.nextIndex - st.nextIndex) % 254, List.mem_range.mpr ?_, ?_⟩
    · omega
    · omega

theorem free_iff {index : Nat} :
    (!st.indexToPeer.contains index) = true ↔ index ∉ st.indexToPeer := by
  rw [Bool.not_eq_true', ← Bool.not_eq_true, ExtTreeMap.mem_iff_contains]

theorem allocateIndex_eq_none_iff (h : 1 ≤ st.nextIndex) :
    st.allocateIndex = none ↔
      ∀ index, 1 ≤ index → index ≤ 254 → index ∈ st.indexToPeer := by
  have hnone : st.allocateIndex = none ↔
      (st.indexOrder.find? fun index => !st.indexToPeer.contains index) = none := by
    unfold allocateIndex
    split
    · next hfound => simp [hfound]
    · next hfound => simp [hfound]
  rw [hnone, List.find?_eq_none]
  constructor
  · intro hall index hlow hhigh
    have htaken := hall index ((mem_indexOrder h).mpr ⟨hlow, hhigh⟩)
    rwa [free_iff, not_not] at htaken
  · intro hall index hindex
    obtain ⟨hlow, hhigh⟩ := (mem_indexOrder h).mp hindex
    rw [free_iff, not_not]
    exact hall index hlow hhigh

theorem allocateIndex_eq_some {index : Nat} (h : 1 ≤ st.nextIndex)
    (hfound : st.allocateIndex = some (index, st')) :
    (1 ≤ index ∧ index ≤ 254) ∧ index ∉ st.indexToPeer ∧
      st' = { st with nextIndex := succPeerIndex index } := by
  unfold allocateIndex at hfound
  split at hfound
  · cases hfound
  · next found hsome =>
    cases hfound
    have hfree := List.find?_some hsome
    exact ⟨(mem_indexOrder h).mp (List.mem_of_find?_eq_some hsome), free_iff.mp hfree, rfl⟩

/-- The index the search tries after so many others. -/
def tried (start k : Nat) : Nat :=
  (start - 1 + k) % 254 + 1

/-- The loop finds what is first free of the indices that are left to try. -/
theorem allocateFrom_eq (taken : Nat → Bool) {start : Nat} (hstart : 1 ≤ start ∧ start ≤ 254)
    (more left k : Nat) (hk : k + (left + 1) = 254) :
    allocateFrom taken start (left + 1 + more) (tried start k) =
      (((List.range' k (left + 1)).map (tried start)).find? fun index => !taken index).map
        fun index => (index, succPeerIndex index) := by
  have hsucc : succPeerIndex (tried start k) = tried start (k + 1) := by
    unfold succPeerIndex tried
    split
    · omega
    · omega
  induction left generalizing k with
  | zero =>
    -- the last index, after which the loop is where it began
    have hback : tried start (k + 1) = start := by
      unfold tried
      omega
    rw [Nat.add_comm 0 1, Nat.add_comm 1 more]
    unfold allocateFrom
    cases htaken : taken (tried start k) with
    | false => simp [htaken, List.range'_succ]
    | true => simp [htaken, hsucc, hback, List.range'_succ]
  | succ left ih =>
    have hon : tried start (k + 1) ≠ start := by
      unfold tried
      omega
    rw [show left + 1 + 1 + more = (left + 1 + more) + 1 by omega, List.range'_succ]
    unfold allocateFrom
    cases htaken : taken (tried start k) with
    | false => simp [htaken]
    | true =>
      have hrest := ih (k + 1) (by omega) (by
        unfold succPeerIndex tried
        split
        · omega
        · omega)
      simp only [htaken, hsucc, Bool.not_true, Bool.false_eq_true, if_false, if_neg hon, hrest,
        List.map_cons, List.find?_cons_of_neg, not_false_eq_true]

/-- The loop of the source, started where the last one stopped, is the search. -/
theorem allocateFrom_eq_allocateIndex (hnext : 1 ≤ st.nextIndex ∧ st.nextIndex ≤ 254)
    (more : Nat) :
    (allocateFrom st.indexToPeer.contains st.nextIndex (254 + more) st.nextIndex).map
        (fun found => (found.1, { st with nextIndex := found.2 })) = st.allocateIndex := by
  have hfirst : tried st.nextIndex 0 = st.nextIndex := by
    unfold tried
    omega
  have hloop := allocateFrom_eq st.indexToPeer.contains hnext more 253 0 rfl
  rw [hfirst] at hloop
  have horder : (List.range' 0 254).map (tried st.nextIndex) = st.indexOrder := by
    rw [← List.range_eq_range']
    rfl
  rw [hloop, horder]
  unfold allocateIndex
  cases st.indexOrder.find? fun index => !st.indexToPeer.contains index with
  | none => rfl
  | some index => rfl

/-! ## The writes -/

theorem indexTable_new : IndexTable .new where
  inverse p index := by simp [indexOf, peerAt, new]
  range index p h := by simp [peerAt, new] at h
  next := by decide

theorem IndexTable.of_same (h : st.IndexTable) (hindex : ∀ p, st'.indexOf p = st.indexOf p)
    (hback : ∀ index, st'.peerAt index = st.peerAt index)
    (hnext : st'.nextIndex = st.nextIndex) : st'.IndexTable := by
  have hof : st'.indexOf = st.indexOf := funext hindex
  have hat : st'.peerAt = st.peerAt := funext hback
  refine ⟨?_, ?_, hnext ▸ h.next⟩
  · rw [hof, hat]
    exact h.inverse
  · rw [hat]
    exact h.range

theorem IndexTable.erase (h : st.IndexTable)
    (hindex : ∀ q, st'.indexOf q = if p = q then none else st.indexOf q)
    (hback : ∀ index, st'.peerAt index =
      if st.indexOf p = some index then none else st.peerAt index)
    (hnext : st'.nextIndex = st.nextIndex) : st'.IndexTable := by
  cases hp : st.indexOf p with
  | none =>
    refine h.of_same (fun q => ?_) (fun index => ?_) hnext
    · rw [hindex]
      split
      · next heq => rw [← heq, hp]
      · rfl
    · rw [hback, hp]
      exact if_neg nofun
  | some i =>
    have hof : st'.indexOf = Function.update st.indexOf p none := by
      funext q
      rw [hindex, Function.update_apply]
      simp only [eq_comm]
    have hat : st'.peerAt = Function.update st.peerAt i none := by
      funext index
      rw [hback, hp, Function.update_apply]
      simp only [Option.some.injEq, eq_comm]
    refine ⟨?_, fun index q hq => ?_, hnext ▸ h.next⟩
    · rw [hof, hat]
      exact h.inverse.erase hp
    · rw [hback] at hq
      split at hq
      · cases hq
      · exact h.range index q hq

theorem IndexTable.insert (h : st.IndexTable) {i : Nat} (hp : st.indexOf p = none)
    (hfree : st.peerAt i = none) (hrange : 1 ≤ i ∧ i ≤ 254)
    (hindex : ∀ q, st'.indexOf q = if p = q then some i else st.indexOf q)
    (hback : ∀ index, st'.peerAt index = if i = index then some p else st.peerAt index)
    (hnext : 1 ≤ st'.nextIndex ∧ st'.nextIndex ≤ 254) : st'.IndexTable := by
  have hof : st'.indexOf = Function.update st.indexOf p (some i) := by
    funext q
    rw [hindex, Function.update_apply]
    simp only [eq_comm]
  have hat : st'.peerAt = Function.update st.peerAt i (some p) := by
    funext index
    rw [hback, Function.update_apply]
    simp only [eq_comm]
  refine ⟨?_, fun index q hq => ?_, hnext⟩
  · rw [hof, hat]
    exact h.inverse.insert hp hfree
  · rw [hback] at hq
    split at hq
    · next heq => exact heq ▸ hrange
    · exact h.range index q hq

theorem indexOf_modify {peers : ExtTreeMap String RelayPeer} {f : RelayPeer → RelayPeer}
    (hf : ∀ peer, (f peer).peerIndex = peer.peerIndex) :
    (peers.modify p f)[q]?.map RelayPeer.peerIndex = peers[q]?.map RelayPeer.peerIndex := by
  rw [ExtTreeMap.getElem?_modify]
  split
  · next heq =>
    rw [Std.compare_eq_iff_eq.mp heq, Option.map_map]
    cases peers[q]? with
    | none => rfl
    | some peer => exact congrArg some (hf peer)
  · rfl

theorem removePeer_indices (st : RelayState) (p : String) :
    (∀ q, (st.removePeer p).indexOf q = if p = q then none else st.indexOf q) ∧
    (∀ index, (st.removePeer p).peerAt index =
      if st.indexOf p = some index then none else st.peerAt index) ∧
    (st.removePeer p).nextIndex = st.nextIndex := by
  cases hp : st.peers[p]? with
  | none =>
    refine ⟨fun q => ?_, fun index => ?_, by rw [removePeer_eq]⟩
    · simp only [indexOf, removePeer_eq, hp]
      split
      · next heq => rw [← heq, hp, Option.map_none]
      · rfl
    · simp only [indexOf, peerAt, removePeer_eq, hp, Option.map_none, reduceCtorEq, if_false]
  | some peer =>
    refine ⟨fun q => ?_, fun index => ?_, by rw [removePeer_eq]⟩
    · simp only [indexOf, removePeer_eq, hp, ExtTreeMap.getElem?_erase, Std.compare_eq_iff_eq]
      split
      · rfl
      · rfl
    · simp only [indexOf, peerAt, removePeer_eq, hp, ExtTreeMap.getElem?_erase,
        Std.compare_eq_iff_eq, Option.map_some, Option.some.injEq]

theorem softReplace_indices (st : RelayState) (p : String) :
    (∀ q, (st.softReplace p).indexOf q = if p = q then none else st.indexOf q) ∧
    (∀ index, (st.softReplace p).peerAt index =
      if st.indexOf p = some index then none else st.peerAt index) ∧
    (st.softReplace p).nextIndex = st.nextIndex := by
  refine ⟨fun q => ?_, fun index => ?_, ?_⟩
  · simp only [indexOf, softReplace_peers]
    split
    · rfl
    · rfl
  · unfold softReplace indexOf peerAt
    cases hp : st.peers[p]? with
    | none => simp only [Option.map_none, reduceCtorEq, if_false]
    | some peer =>
      simp only [ExtTreeMap.getElem?_erase, Std.compare_eq_iff_eq, Option.map_some,
        Option.some.injEq]
  · unfold softReplace
    split
    · rfl
    · rfl

theorem IndexTable.registerPeer (h : st.IndexTable) (p : String) (connection : Nat)
    (order : List String) (portalOnly : Bool) :
    (st.registerPeer p connection order portalOnly).1.IndexTable := by
  obtain ⟨hindex, hback, hnext⟩ := st.softReplace_indices p
  have hreplaced : (st.softReplace p).IndexTable := h.erase hindex hback hnext
  unfold RelayState.registerPeer
  split
  · exact h
  · dsimp only
    split
    · exact hreplaced
    · next i st' halloc =>
      obtain ⟨hrange, hfree, rfl⟩ := allocateIndex_eq_some hreplaced.next.1 halloc
      refine hreplaced.insert (p := p) ?_ (ExtTreeMap.getElem?_eq_none hfree) hrange
        (fun q => ?_) (fun index => ?_) (succPeerIndex_range hrange)
      · rw [hindex, if_pos rfl]
      · simp only [indexOf, ExtTreeMap.getElem?_insert, Std.compare_eq_iff_eq]
        split
        · rfl
        · rfl
      · simp only [peerAt, ExtTreeMap.getElem?_insert, Std.compare_eq_iff_eq]

theorem indexTable_invariant : TableInvariant IndexTable where
  new := indexTable_new
  allowPeer _ _ h := h.of_same (fun _ => rfl) (fun _ => rfl) rfl
  allowPeerUpdate _ _ h := h.of_same (fun _ => rfl) (fun _ => rfl) rfl
  allowPortalPeer _ _ h := h.of_same (fun _ => rfl) (fun _ => rfl) rfl
  revoked _ _ h := h.of_same (fun _ => rfl) (fun _ => rfl) rfl
  registerPeer _ p connection order portalOnly h := h.registerPeer p connection order portalOnly
  removePeer st p h := by
    obtain ⟨hindex, hback, hnext⟩ := st.removePeer_indices p
    exact h.erase hindex hback hnext
  joinRoom _ _ _ h := h.of_same (fun _ => indexOf_modify fun _ => rfl) (fun _ => rfl) rfl
  leaveRoom st p h := by
    unfold RelayState.leaveRoom
    dsimp only
    split
    · exact h
    · next peer hp =>
      split
      · exact h
      · refine h.of_same (fun q => ?_) (fun _ => rfl) rfl
        simp only [indexOf, ExtTreeMap.getElem?_insert, Std.compare_eq_iff_eq]
        split
        · next heq =>
          rw [← heq, hp]
          rfl
        · rfl
  healed _ _ _ h := h.of_same (fun _ => indexOf_modify fun _ => rfl) (fun _ => rfl) rfl
  joinGameSession st p s h := by
    unfold RelayState.joinGameSession
    dsimp only
    split
    · exact h
    · exact h.of_same (fun _ => rfl) (fun _ => rfl) rfl
  leaveGameSession st p h := by
    unfold RelayState.leaveGameSession
    dsimp only
    split
    · exact h
    · exact h.of_same (fun _ => rfl) (fun _ => rfl) rfl
  setVideoSubscriptions _ _ _ h := h.of_same (fun _ => rfl) (fun _ => rfl) rfl

end RelayState

/-! ## The index in front -/

/-- What is sent on behalf of a peer carries the index that leads to the peer. -/
def RelayState.NamesSender (st : RelayState) (sender : String) : RelayOutput → Prop
  | .forward _ datagram =>
    ∃ index payload, datagram = index :: payload ∧ st.peerAt index.toNat = some sender
  | .roomAudio fromPeer index _ _ => fromPeer = sender ∧ st.peerAt index = some sender
  | .gameRelay _ fromPeer _ => fromPeer = sender

namespace RelayServer

variable {P : Platform} {srv : RelayServer} {sender : String} {o : RelayOutput}

theorem eq_forward_of_mem_tryForward {featureId recipient : String} {fwd : Bytes} {now : Nat}
    (ho : o ∈ (srv.tryForwardDatagram featureId fwd now recipient).2) :
    o = .forward recipient fwd := by
  unfold tryForwardDatagram at ho
  split at ho
  · dsimp only at ho
    split at ho
    · exact List.mem_singleton.mp ho
    · cases ho
  · cases ho

theorem eq_forward_of_mem_forwardAll {featureId : String} {fwd : Bytes} {now : Nat}
    {recipients : List String} (ho : o ∈ (srv.forwardAll featureId fwd now recipients).2) :
    ∃ recipient, o = .forward recipient fwd := by
  induction recipients generalizing srv with
  | nil => cases ho
  | cons recipient rest ih =>
    rcases List.mem_append.mp ho with hfirst | hrest
    · exact ⟨recipient, eq_forward_of_mem_tryForward hfirst⟩
    · exact ih hrest

/-- The index a connected peer sends under leads back to it, as one byte too. -/
theorem namesSender_forward (h : srv.state.IndexTable) {peer : RelayPeer}
    (hpeer : srv.state.peers[sender]? = some peer) (recipient : String) (payload : Bytes) :
    srv.state.NamesSender sender
      (.forward recipient (buildForwardedDatagram (UInt8.ofNat peer.peerIndex) payload)) := by
  have hback : srv.state.peerAt peer.peerIndex = some sender :=
    (h.inverse sender peer.peerIndex).mp (by simp only [RelayState.indexOf, hpeer, Option.map_some])
  obtain ⟨-, hhigh⟩ := h.range _ _ hback
  have hbyte : (UInt8.ofNat peer.peerIndex).toNat = peer.peerIndex := by
    rw [UInt8.toNat_ofNat']
    omega
  exact ⟨UInt8.ofNat peer.peerIndex, payload, rfl, hbyte.symm ▸ hback⟩

theorem namesSender_roomAudioFrame (h : srv.state.IndexTable) {peer : RelayPeer} {payload : Bytes}
    (hpeer : srv.state.peers[sender]? = some peer)
    (ho : o ∈ (srv.roomAudioFrame P sender peer payload).2) : srv.state.NamesSender sender o := by
  have hback : srv.state.peerAt peer.peerIndex = some sender :=
    (h.inverse sender peer.peerIndex).mp (by simp only [RelayState.indexOf, hpeer, Option.map_some])
  unfold roomAudioFrame at ho
  dsimp only at ho
  split at ho
  · cases ho
  · split at ho
    · obtain rfl := List.mem_singleton.mp ho
      exact ⟨rfl, hback⟩
    · cases ho

theorem namesSender_relayFrame (h : srv.state.IndexTable) {peer : RelayPeer} {targetIdx : UInt8}
    {featureId : String} {payload : Bytes} {now : Nat}
    (hpeer : srv.state.peers[sender]? = some peer)
    (ho : o ∈ (srv.relayFrame sender peer targetIdx featureId payload now).2) :
    srv.state.NamesSender sender o := by
  have hforwarded : ∀ {recipients : List String},
      o ∈ (srv.forwardAll featureId
        (buildForwardedDatagram (UInt8.ofNat peer.peerIndex) payload) now recipients).2 →
        srv.state.NamesSender sender o := by
    intro recipients hmem
    obtain ⟨recipient, rfl⟩ := eq_forward_of_mem_forwardAll hmem
    exact namesSender_forward h hpeer recipient payload
  unfold relayFrame at ho
  dsimp only at ho
  split at ho
  · split at ho
    · rcases List.mem_append.mp ho with hfan | hbridge
      · exact hforwarded hfan
      · split at hbridge
        · obtain rfl := List.mem_singleton.mp hbridge
          rfl
        · cases hbridge
    · exact hforwarded ho
  · exact hforwarded ho

theorem namesSender_routeDatagram (h : srv.state.IndexTable) {targetIdx : UInt8} {payload : Bytes}
    {now : Nat} (ho : o ∈ (srv.routeDatagram P sender targetIdx payload now).2) :
    srv.state.NamesSender sender o := by
  unfold routeDatagram at ho
  dsimp only at ho
  split at ho
  · cases ho
  · next peer hpeer =>
    split at ho
    · exact namesSender_roomAudioFrame h hpeer ho
    · exact namesSender_relayFrame h hpeer ho

theorem namesSender_handleDatagram (h : srv.state.IndexTable) {data : Bytes} {now : Nat}
    (ho : o ∈ (srv.handleDatagram P sender data now).2) : srv.state.NamesSender sender o := by
  unfold handleDatagram at ho
  split at ho
  · cases ho
  · next targetIdx payload _ =>
    dsimp only at ho
    split at ho
    · have hcharged : ({ srv with
          features := (srv.inboundGate sender payload now).1 } : RelayServer).state.IndexTable := h
      have hnamed := namesSender_routeDatagram hcharged ho
      exact hnamed
    · cases ho

/-! ## Frames that wait -/

theorem forwardAll_healing {featureId : String} {fwd : Bytes} {now : Nat}
    {recipients : List String} :
    (srv.forwardAll featureId fwd now recipients).1.healing = srv.healing := by
  induction recipients generalizing srv with
  | nil => rfl
  | cons recipient rest ih =>
    refine ih.trans ?_
    unfold tryForwardDatagram
    split
    · rfl
    · rfl

theorem relayFrame_healing {peer : RelayPeer} {targetIdx : UInt8} {featureId : String}
    {payload : Bytes} {now : Nat} :
    (srv.relayFrame sender peer targetIdx featureId payload now).1.healing = srv.healing := by
  unfold relayFrame
  dsimp only
  split
  · split
    · exact forwardAll_healing
    · exact forwardAll_healing
  · exact forwardAll_healing

theorem mem_healing_handleDatagram {data : Bytes} {now : Nat} {h : PendingHeal}
    (hmem : h ∈ (srv.handleDatagram P sender data now).1.healing) :
    h ∈ srv.healing ∨ srv.state.indexOf h.fromPeer = some h.senderIndex := by
  unfold handleDatagram at hmem
  split at hmem
  · exact .inl hmem
  · dsimp only at hmem
    split at hmem
    · unfold routeDatagram at hmem
      dsimp only at hmem
      split at hmem
      · exact .inl hmem
      · next peer hpeer =>
        split at hmem
        · unfold roomAudioFrame at hmem
          dsimp only at hmem
          split at hmem
          · rcases List.mem_append.mp hmem with hold | hnew
            · exact .inl hold
            · obtain rfl := List.mem_singleton.mp hnew
              exact .inr (by simp only [RelayState.indexOf, hpeer, Option.map_some])
          · split at hmem
            · exact .inl hmem
            · exact .inl hmem
        · rw [relayFrame_healing] at hmem
          exact .inl hmem
    · exact .inl hmem

theorem connect_healing {certs : List (List UInt8)} {connection : Nat} {order : List String} :
    (srv.connect certs connection order).healing = srv.healing := by
  unfold connect
  dsimp only
  split
  · split
    · rfl
    · rfl
  · split
    · rfl
    · rfl
  · rfl

theorem registerPeer_healing {p : String} {connection : Nat} {order : List String}
    {portalOnly : Bool} :
    (srv.registerPeer p connection order portalOnly).healing = srv.healing := by
  unfold registerPeer
  dsimp only
  split
  · split
    · rfl
    · rfl
  · split
    · rfl
    · rfl
  · rfl

theorem cleanupStalePeers_healing {closed : List Nat} :
    (srv.cleanupStalePeers closed).healing = srv.healing := by
  unfold cleanupStalePeers
  generalize srv.stalePeers closed = stale
  induction stale generalizing srv with
  | nil => rfl
  | cons id stale ih => exact ih

theorem mem_healing_turn {t : RelayTurn} {h : PendingHeal}
    (hmem : h ∈ (srv.afterTurn P t).healing) :
    h ∈ srv.healing ∨ srv.state.indexOf h.fromPeer = some h.senderIndex := by
  cases t with
  | register p connection order portalOnly => exact .inl (registerPeer_healing ▸ hmem)
  | remove p => exact .inl hmem
  | event e =>
    cases e with
    | connect certs connection order => exact .inl (connect_healing ▸ hmem)
    | disconnect p connection =>
      simp only [afterTurn, turn, handle, disconnect] at hmem
      split at hmem
      · exact .inl hmem
      · exact .inl hmem
    | cleanup closed => exact .inl (cleanupStalePeers_healing ▸ hmem)
    | datagram p data now =>
      simp only [afterTurn, turn, handle] at hmem
      split at hmem
      · exact mem_healing_handleDatagram hmem
      · exact .inl hmem
    | heal position =>
      simp only [afterTurn, turn, handle, healRoom] at hmem
      split at hmem
      · exact .inl hmem
      · exact .inl (List.mem_of_mem_eraseIdx hmem)
    | _ => exact .inl hmem

end RelayServer

/-! ## Runs -/

namespace RelayServer

variable (P : Platform) (features : FeatureRegistry) (roomAudioBridge gameRelayBridge : Bool)

theorem exists_sent_of_waiting {ts : List RelayTurn} {h : PendingHeal}
    (hmem : h ∈ (reached P features roomAudioBridge gameRelayBridge ts).healing) :
    ∃ before, before <+: ts ∧
      (reached P features roomAudioBridge gameRelayBridge before).state.indexOf h.fromPeer =
        some h.senderIndex := by
  induction ts using List.reverseRecOn with
  | nil => cases hmem
  | append_singleton ts t ih =>
    rw [reached, run_append] at hmem
    rcases mem_healing_turn hmem with hold | hnew
    · obtain ⟨before, hbefore, hindex⟩ := ih hold
      exact ⟨before, hbefore.trans (List.prefix_append ts [t]), hindex⟩
    · exact ⟨ts, List.prefix_append ts [t], hnew⟩

/-- Along any turns of the relay its tables are inverse, the search for an index fails
only when all are taken, and what is sent carries the index of its sender: the one it
has, or had when its datagram came. -/
theorem indices_name_senders (ts : List RelayTurn) :
    let srv := reached P features roomAudioBridge gameRelayBridge ts
    srv.state.IndexTable ∧
    (∀ p more, let st := srv.state.softReplace p
      (RelayState.allocateFrom st.indexToPeer.contains st.nextIndex (254 + more)
          st.nextIndex).map (fun found => (found.1, { st with nextIndex := found.2 })) =
        st.allocateIndex ∧
      (st.allocateIndex = none ↔
        ∀ index, 1 ≤ index → index ≤ 254 → index ∈ st.indexToPeer)) ∧
    (∀ sender data now, ∀ o ∈ (srv.handleDatagram P sender data now).2,
      srv.state.NamesSender sender o) ∧
    ∀ position, ∀ o ∈ (srv.healRoom position).2, ∃ sender before, before <+: ts ∧
      (reached P features roomAudioBridge gameRelayBridge before).state.NamesSender sender o := by
  intro srv
  have htable : ∀ before,
      (reached P features roomAudioBridge gameRelayBridge before).state.IndexTable :=
    fun before => RelayState.indexTable_invariant.run P features roomAudioBridge gameRelayBridge
      before
  refine ⟨htable ts, fun p more => ?_, fun sender data now o ho => ?_, fun position o ho => ?_⟩
  · obtain ⟨hindex, hback, hnext⟩ := srv.state.softReplace_indices p
    have hreplaced : (srv.state.softReplace p).IndexTable := (htable ts).erase hindex hback hnext
    exact ⟨RelayState.allocateFrom_eq_allocateIndex hreplaced.next more,
      RelayState.allocateIndex_eq_none_iff hreplaced.next.1⟩
  · exact namesSender_handleDatagram (htable ts) ho
  · unfold healRoom at ho
    split at ho
    · cases ho
    · next h hat =>
      obtain rfl := List.mem_singleton.mp ho
      obtain ⟨before, hbefore, hindex⟩ :=
        exists_sent_of_waiting P features roomAudioBridge gameRelayBridge
          (List.mem_of_getElem? hat)
      exact ⟨h.fromPeer, before, hbefore, rfl, ((htable before).inverse _ _).mp hindex⟩

end RelayServer

end ConquerD.Supernode
