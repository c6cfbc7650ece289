import ConquerD.Supernode.Verify.RelayRuns
import ConquerD.Supernode.Verify.SamePeer

/-!
# Supernode: whose video a peer wants

A subscription describes what one connection shows. What a peer wishes can be told from
the calls: the set it sent last, and everything once its connection is taken away or a
new one is registered. The relay forgets a set with the connection, unless a new
connection comes before the old one is found gone.
-/

namespace ConquerD.Supernode

open ConquerD.Features Lib.Encoding Lib.Rosters Lib.Run Wire
open Std (ExtTreeMap ExtTreeSet)

namespace RelayState

variable {st : RelayState}

/-! ## The table of subscriptions -/

theorem removePeer_videoSubs (st : RelayState) (p : String) :
    (st.removePeer p).videoSubs = st.videoSubs.erase (normalizePublicId p) := by
  rw [removePeer_eq]

theorem removePeers_videoSubs (ids : List String) {key : String} :
    (ids.foldl (fun st id => st.removePeer id) st).videoSubs[key]? =
      if ∃ p ∈ ids, normalizePublicId p = key then none else st.videoSubs[key]? := by
  induction ids generalizing st with
  | nil => simp
  | cons id ids ih =>
    rw [List.foldl_cons, ih, removePeer_videoSubs, ExtTreeMap.getElem?_erase]
    simp only [Std.compare_eq_iff_eq, List.exists_mem_cons_iff]
    by_cases hid : normalizePublicId id = key
    · simp [hid]
    · simp [hid]

theorem registerPeer_videoSubs (p : String) (connection : Nat) (order : List String)
    (portalOnly : Bool) :
    (st.registerPeer p connection order portalOnly).1.videoSubs = st.videoSubs := by
  have hreplaced : (st.softReplace p).videoSubs = st.videoSubs := by
    unfold softReplace
    split
    · rfl
    · rfl
  unfold registerPeer
  split
  · rfl
  · dsimp only
    split
    · exact hreplaced
    · next idx st' halloc =>
      unfold allocateIndex at halloc
      split at halloc
      · cases halloc
      · cases halloc
        exact hreplaced

theorem handleConnection_videoSubs (certs : List (List UInt8)) (connection : Nat)
    (order : List String) :
    (st.handleConnection certs connection order).1.videoSubs = st.videoSubs := by
  cases hid : extractPeerId certs with
  | error e =>
    unfold handleConnection
    rw [hid]
  | ok peerId =>
    rw [handleConnection_eq_registerPeer st connection order hid]
    split
    · exact registerPeer_videoSubs _ _ _ _
    · rfl

theorem leaveRoom_videoSubs (p : String) : (st.leaveRoom p).videoSubs = st.videoSubs := by
  unfold leaveRoom
  dsimp only
  split
  · rfl
  · split
    · rfl
    · rfl

theorem joinGameSession_videoSubs (p s : String) :
    (st.joinGameSession p s).videoSubs = st.videoSubs := by
  unfold joinGameSession
  dsimp only
  split
  · rfl
  · rfl

theorem leaveGameSession_videoSubs (p : String) :
    (st.leaveGameSession p).videoSubs = st.videoSubs := by
  unfold leaveGameSession
  dsimp only
  split
  · rfl
  · rfl

/-- A peer without an entry wants everything, and only such a one: an entry is finite. -/
theorem wants_all_iff {recipient : String} :
    (∀ sender, st.wantsVideo recipient sender = true) ↔
      st.videoSubs[normalizePublicId recipient]? = none := by
  unfold wantsVideo
  cases st.videoSubs[normalizePublicId recipient]? with
  | none => simp
  | some set =>
    simp only [reduceCtorEq, iff_false, not_forall, Bool.not_eq_true]
    obtain ⟨sender, hfresh⟩ := exists_canonical_notMem set.toList.toFinset
    rw [List.mem_toFinset, ExtTreeSet.mem_toList] at hfresh
    rw [ExtTreeSet.mem_iff_contains, Bool.not_eq_true] at hfresh
    exact ⟨sender, hfresh⟩

theorem wantsVideo_setVideoSubscriptions {subscriber recipient sender : String}
    {senders : List String} :
    (st.setVideoSubscriptions subscriber senders).wantsVideo recipient sender = true ↔
      if SamePeer subscriber recipient then ∃ p ∈ senders, SamePeer p sender
      else st.wantsVideo recipient sender = true := by
  have hentry : (st.setVideoSubscriptions subscriber senders).videoSubs[
      normalizePublicId recipient]? =
      if SamePeer subscriber recipient then
        some (ExtTreeSet.ofList (senders.map normalizePublicId) compare)
      else st.videoSubs[normalizePublicId recipient]? := by
    unfold setVideoSubscriptions
    rw [ExtTreeMap.getElem?_insert]
    simp only [Std.compare_eq_iff_eq, samePeer_iff, @eq_comm _ (normalizePublicId subscriber)]
  unfold wantsVideo
  rw [hentry]
  by_cases hsame : SamePeer subscriber recipient
  · rw [if_pos hsame, if_pos hsame]
    simp only [ExtTreeSet.contains_ofList, List.contains_eq_mem, List.mem_map, decide_eq_true_eq,
      samePeer_iff, @eq_comm _ (normalizePublicId sender)]
  · rw [if_neg hsame, if_neg hsame]

end RelayState

namespace RelayServer

variable (P : Platform) (srv : RelayServer)

/-- The peers a turn removes. -/
def removed : RelayTurn → List String
  | .event e => srv.departed e
  | .register .. => []
  | .remove p => [p]

def registers : RelayTurn → Option String
  | .event (.connect certs connection order) =>
    match (srv.state.handleConnection certs connection order).2 with
    | .registered p _ _ => some p
    | _ => none
  | .register p connection order portalOnly =>
    match (srv.state.registerPeer p connection order portalOnly).2 with
    | .registered p _ _ => some p
    | _ => none
  | _ => none

variable {P} {srv}

theorem removed_of_registers {t : RelayTurn} {p : String} (h : srv.registers t = some p) :
    srv.removed t = [] := by
  cases t with
  | register => rfl
  | remove => cases h
  | event e =>
    cases e with
    | connect => rfl
    | _ => cases h

/-- Apart from a subscription, a turn drops the entries of the peers it removes. -/
theorem videoSubs_turn {t : RelayTurn}
    (hother : ∀ p senders, t ≠ .event (.subscribeVideo p senders)) (key : String) :
    (srv.afterTurn P t).state.videoSubs[key]? =
      if ∃ p ∈ srv.removed t, normalizePublicId p = key then none
      else srv.state.videoSubs[key]? := by
  have hsame : ∀ {st : RelayState}, st.videoSubs = srv.state.videoSubs →
      st.videoSubs[key]? =
        if ∃ p ∈ ([] : List String), normalizePublicId p = key then none
        else srv.state.videoSubs[key]? := by
    intro st heq
    simp [heq]
  cases t with
  | register p connection order portalOnly =>
    simp only [afterTurn, turn, removed, registerPeer_state]
    exact hsame (RelayState.registerPeer_videoSubs _ _ _ _)
  | remove p => exact RelayState.removePeers_videoSubs [p]
  | event e =>
    cases e with
    | subscribeVideo p senders => exact absurd rfl (hother p senders)
    | connect certs connection order =>
      simp only [afterTurn, turn, handle, removed, departed, connect_state]
      exact hsame (RelayState.handleConnection_videoSubs _ _ _)
    | disconnect p connection =>
      simp only [afterTurn, turn, handle, removed, departed, disconnect_state]
      split
      · exact RelayState.removePeers_videoSubs [p]
      · exact hsame rfl
    | revokePeer p => exact RelayState.removePeers_videoSubs [bare p]
    | cleanup closed =>
      simp only [afterTurn, turn, handle, removed, departed, cleanup_state]
      exact RelayState.removePeers_videoSubs _
    | leaveRoom p => exact hsame (RelayState.leaveRoom_videoSubs p)
    | joinGameSession p s => exact hsame (RelayState.joinGameSession_videoSubs p s)
    | leaveGameSession p => exact hsame (RelayState.leaveGameSession_videoSubs p)
    | datagram p data now =>
      simp only [afterTurn, turn, handle, removed, departed]
      split
      · rw [handleDatagram_state]
        exact hsame rfl
      · exact hsame rfl
    | heal position =>
      rcases srv.healRoom_state position with heq | ⟨p, r, heq⟩
      · exact hsame (congrArg RelayState.videoSubs heq)
      · exact hsame ((congrArg RelayState.videoSubs heq).trans rfl)
    | _ => exact hsame rfl

end RelayServer

/-! ## Wishes, from the calls -/

/-- A relay, and for each peer the set of senders it sent last, if any still counts. -/
structure WatchedRelay where
  server : RelayServer
  wishes : String → Option (List String)

namespace WatchedRelay

variable (P : Platform)

def start (features : FeatureRegistry) (roomAudioBridge gameRelayBridge : Bool) : WatchedRelay where
  server := .start features roomAudioBridge gameRelayBridge
  wishes := fun _ => none

/-- A peer wishes what it sent last, until its connection is removed or another is
registered. -/
def track (s : WatchedRelay) : RelayTurn → String → Option (List String)
  | .event (.subscribeVideo p senders) =>
    fun q => if SamePeer p q then some senders else s.wishes q
  | t => fun q =>
    if ∃ p ∈ s.server.removed t ++ (s.server.registers t).toList, SamePeer p q then none
    else s.wishes q

def step (s : WatchedRelay) (t : RelayTurn) : WatchedRelay where
  server := s.server.afterTurn P t
  wishes := s.track t

/-- Everybody wants whom he wishes for, however either is spelled. -/
def WishesHeld (s : WatchedRelay) : Prop :=
  ∀ recipient sender, s.server.state.wantsVideo recipient sender = true ↔
    match s.wishes recipient with
    | none => True
    | some senders => ∃ p ∈ senders, SamePeer p sender

/-- Whose connection is registered has sent no set that still counts. -/
def RegistersUnheard (s : WatchedRelay) (t : RelayTurn) : Prop :=
  ∀ p, s.server.registers t = some p → s.wishes p = none

variable {P} {s : WatchedRelay}

theorem WishesHeld.wishes_eq_none_iff (h : s.WishesHeld) {p : String} :
    s.wishes p = none ↔ s.server.state.videoSubs[normalizePublicId p]? = none := by
  rw [← RelayState.wants_all_iff]
  cases hp : s.wishes p with
  | none =>
    refine ⟨fun _ sender => (h p sender).mpr ?_, fun _ => rfl⟩
    rw [hp]
    trivial
  | some senders =>
    simp only [reduceCtorEq, false_iff, not_forall, Bool.not_eq_true]
    obtain ⟨sender, hfresh⟩ := exists_canonical_notMem (senders.map normalizePublicId).toFinset
    refine ⟨sender, Bool.not_eq_true _ ▸ fun hwants => hfresh ?_⟩
    have hwish := (h p sender).mp hwants
    rw [hp] at hwish
    obtain ⟨q, hq, hsame⟩ := hwish
    rw [List.mem_toFinset, samePeer_iff.mp hsame]
    exact List.mem_map_of_mem hq

theorem held_subscribeVideo (h : s.WishesHeld) (p : String) (senders : List String) :
    (s.step P (.event (.subscribeVideo p senders))).WishesHeld := by
  intro recipient sender
  refine RelayState.wantsVideo_setVideoSubscriptions.trans ?_
  simp only [step, track]
  split
  · rfl
  · exact h recipient sender

theorem held_step (h : s.WishesHeld) (t : RelayTurn) :
    (s.step P t).WishesHeld ↔ s.RegistersUnheard t := by
  by_cases hsubscribe : ∃ p senders, t = .event (.subscribeVideo p senders)
  · obtain ⟨p, senders, rfl⟩ := hsubscribe
    exact ⟨fun _ _ => nofun, fun _ => held_subscribeVideo h p senders⟩
  · have hother : ∀ p senders, t ≠ .event (.subscribeVideo p senders) :=
      fun p senders heq => hsubscribe ⟨p, senders, heq⟩
    have htable : ∀ key, (s.server.afterTurn P t).state.videoSubs[key]? =
        if ∃ p ∈ s.server.removed t, normalizePublicId p = key then none
        else s.server.state.videoSubs[key]? := RelayServer.videoSubs_turn hother
    have htrack : (s.step P t).wishes = fun q =>
        if ∃ p ∈ s.server.removed t ++ (s.server.registers t).toList, SamePeer p q then none
        else s.wishes q := by
      simp only [step]
      unfold track
      split
      · exact absurd rfl (hother _ _)
      · rfl
    constructor
    · intro hafter p hp
      have hwish : (s.step P t).wishes p = none := by
        rw [htrack]
        exact if_pos ⟨p, by simp [hp], .inl rfl⟩
      have hentry : (s.server.afterTurn P t).state.videoSubs[normalizePublicId p]? = none :=
        hafter.wishes_eq_none_iff.mp hwish
      rw [htable, RelayServer.removed_of_registers hp] at hentry
      exact h.wishes_eq_none_iff.mpr (by simpa using hentry)
    · intro hcond recipient sender
      rw [htrack]
      by_cases hforgotten : ∃ p ∈ s.server.removed t ++ (s.server.registers t).toList,
          SamePeer p recipient
      · simp only [if_pos hforgotten, iff_true]
        have hentry : (s.server.afterTurn P t).state.videoSubs[normalizePublicId recipient]? =
            none := by
          rw [htable]
          obtain ⟨p, hp, hsame⟩ := hforgotten
          have hcanon := samePeer_iff.mp hsame
          rcases List.mem_append.mp hp with hremoved | hregistered
          · exact if_pos ⟨p, hremoved, hcanon.symm⟩
          · have hnone := h.wishes_eq_none_iff.mp (hcond p (Option.mem_toList.mp hregistered))
            rw [hcanon, hnone, ite_self]
        exact RelayState.wants_all_iff.mpr hentry sender
      · simp only [if_neg hforgotten]
        have hentry : (s.server.afterTurn P t).state.videoSubs[normalizePublicId recipient]? =
            s.server.state.videoSubs[normalizePublicId recipient]? := by
          rw [htable]
          refine if_neg ?_
          rintro ⟨p, hp, hcanon⟩
          exact hforgotten ⟨p, List.mem_append_left _ hp, samePeer_iff.mpr hcanon.symm⟩
        have hwants : (s.server.afterTurn P t).state.wantsVideo recipient sender =
            s.server.state.wantsVideo recipient sender := by
          unfold RelayState.wantsVideo
          rw [hentry]
        exact (Bool.eq_iff_iff.mp hwants).trans (h recipient sender)

/-! ## Runs -/

/-- Along a run everybody wants whom he wishes for exactly when each connection that is
registered is one of a peer that has sent no set since its last connection was
registered or removed. -/
theorem wishes_held_iff (P : Platform) (features : FeatureRegistry)
    (roomAudioBridge gameRelayBridge : Bool) (ts : List RelayTurn) :
    Along (step P) (fun s t => (s.step P t).WishesHeld)
        (start features roomAudioBridge gameRelayBridge) ts ↔
      Along (step P) RegistersUnheard (start features roomAudioBridge gameRelayBridge) ts := by
  refine along_after_iff (fun _ => True) WishesHeld trivial ?_ ?_ ?_
  · intro recipient sender
    simp [start, RelayServer.start, RelayState.new, RelayState.wantsVideo]
  · exact fun _ _ _ => trivial
  · exact fun _ t _ h => held_step h t

/-! ## A set that outlives its connection -/

/-- Alice shows nobody, and then comes on a new connection. -/
def blackout : List RelayTurn :=
  [.event (.allow alice.text), .event (.connect [aliceCert] 1 []),
    .event (.subscribeVideo alice.text []), .event (.connect [aliceCert] 2 [])]

/-- On her new connection alice is sent no video of anybody. -/
theorem reconnect_keeps_a_subscription :
    ¬ ∀ (P : Platform) (features : FeatureRegistry) (room game : Bool) (ts : List RelayTurn),
      Along (step P) (fun s t => (s.step P t).WishesHeld) (start features room game) ts := by
  intro h
  have hrun := h .symbolic ⟨fun _ => none, .new, .new⟩ true true blackout
  have hlast := hrun.2.2.2.1 alice.text "bob"
  have hwish : (run (step .symbolic) (start ⟨fun _ => none, .new, .new⟩ true true)
      blackout).wishes alice.text = none := by
    decide +kernel
  have hwants : (run (step .symbolic) (start ⟨fun _ => none, .new, .new⟩ true true)
      blackout).server.state.wantsVideo alice.text "bob" = false := by
    decide +kernel
  have hall : (run (step .symbolic) (start ⟨fun _ => none, .new, .new⟩ true true)
      blackout).server.state.wantsVideo alice.text "bob" = true := by
    refine hlast.mpr ?_
    have hwish' : (step Platform.symbolic _ _).wishes alice.text = none := hwish
    rw [hwish']
    trivial
  cases hwants.symm.trans hall

end WatchedRelay

end ConquerD.Supernode
