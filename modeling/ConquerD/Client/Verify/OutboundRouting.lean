import ConquerD.Client.Routing

/-!
# Verify: outbound routing

What a dispatch can end in, route by route. A message that was handed over is
reported as such, and a chat message that was not is reported once, but for one
exit; and what a supernode gets of a message it only relays.
-/

namespace ConquerD.Client.Routing

open Lib.Encoding Lib.JsonText Lib.Visit Wire

/-! ## Outcomes -/

namespace Outcome

/-- Handed over, or the failure is told. -/
def Told (attempt : Option (String × String)) (out : Outcome) : Prop :=
  (out.delivered = true ∧ out.sent ≠ [] ∧ out.events = []) ∨
    ∃ reason drops, out = failed attempt reason drops

theorem told_deliveredBy (attempt : Option (String × String)) {sent : List Sent} (h : sent ≠ [])
    (drops : Nat) : Told attempt (deliveredBy sent drops) :=
  .inl ⟨rfl, h, rfl⟩

theorem told_failed (attempt : Option (String × String)) (reason : String) (drops : Nat) :
    Told attempt (failed attempt reason drops) :=
  .inr ⟨reason, drops, rfl⟩

theorem Told.delivered_iff {attempt : Option (String × String)} {out : Outcome}
    (h : Told attempt out ∨ ∃ drops, out = refused drops) :
    out.delivered = true ↔ out.sent ≠ [] := by
  rcases h with (⟨hd, hs, -⟩ | ⟨reason, drops, rfl⟩) | ⟨drops, rfl⟩
  · simp [hd, hs]
  · simp [failed]
  · simp [refused]

end Outcome

open Routing.Outcome

/-! ## Routes -/

namespace ConnectionManager

variable (c : ConnectionManager) {attempt : Option (String × String)}
  {msgType : Protocol.MessageType} {target supernodeId json relayJson : String} {out : Outcome}

/-- The direct session takes the message, holds it back, or is the only path. -/
theorem directRoute_cases (h : c.directRoute attempt msgType target json = some out) :
    (∃ n, c.directSession target = some (n, true) ∧
      out = .deliveredBy [.direct n (channelTagFor msgType) json] 0) ∨
    (∃ n, c.directSession target = some (n, false) ∧ isOrderedFilePayload msgType = true ∧
      out = .refused 0) ∨
    (∃ n, c.directSession target = some (n, false) ∧ isOrderedFilePayload msgType = false ∧
      c.relayAvailable = false ∧ out = .failed attempt "connection busy" 0) := by
  unfold directRoute at h
  obtain ⟨⟨n, room⟩, hsession, h⟩ := Option.bind_eq_some_iff.mp h
  cases room with
  | true =>
    refine .inl ⟨n, hsession, ?_⟩
    simpa using h.symm
  | false =>
    rw [if_neg (by simp)] at h
    split at h
    · next hordered => exact .inr (.inl ⟨n, hsession, hordered, (Option.some.inj h).symm⟩)
    · next hordered =>
      split at h
      · cases h
      · next hrelay =>
        exact .inr (.inr ⟨n, hsession, by simpa using hordered, by simpa using hrelay,
          (Option.some.inj h).symm⟩)

/-- The other routes are left when there is no direct session, or when its queue
is full and the message need not stay on it. -/
theorem directRoute_eq_none_iff :
    c.directRoute attempt msgType target json = none ↔
      ∀ n room, c.directSession target = some (n, room) →
        room = false ∧ isOrderedFilePayload msgType = false ∧ c.relayAvailable = true := by
  unfold directRoute
  rcases Option.eq_none_or_eq_some (c.directSession target) with hnone | ⟨⟨n, room⟩, hsome⟩
  · simp [hnone]
  · rw [hsome]
    cases room <;> cases isOrderedFilePayload msgType <;> cases c.relayAvailable <;> simp

theorem relayRoute_cases (h : c.relayRoute msgType supernodeId json = some out) :
    ∃ relay, isRelaySignalingType msgType = true ∧ c.quicRelays.get? supernodeId = some relay ∧
      relay.isAlive = true ∧
      ((relay.sendSignaling json = true ∧ out = .deliveredBy [.relay relay.connection json] 0) ∨
        (relay.sendSignaling json = false ∧ relay.signalingUsable = true ∧
          isOrderedFilePayload msgType = true ∧ out = .refused 0)) := by
  unfold relayRoute at h
  split at h
  · next htype =>
    obtain ⟨relay, hrelay, h⟩ := Option.bind_eq_some_iff.mp h
    split at h
    · cases h
    · next halive =>
      refine ⟨relay, htype, hrelay, by simpa using halive, ?_⟩
      split at h
      · next hsends => exact .inl ⟨hsends, (Option.some.inj h).symm⟩
      · next hsends =>
        split at h
        · next hstuck =>
          obtain ⟨husable, hordered⟩ := Bool.and_eq_true_iff.mp hstuck
          exact .inr ⟨by simpa using hsends, husable, hordered, (Option.some.inj h).symm⟩
        · cases h
  · cases h

theorem relayRoute_of_not_relayType (h : isRelaySignalingType msgType = false) :
    c.relayRoute msgType supernodeId json = none := by
  simp [relayRoute, h]

theorem wsRoute_cases (attempt : Option (String × String)) (supernodeId json : String) :
    (∃ sn, c.supernodes.get? supernodeId = some sn ∧ sn.connected = true ∧ sn.accepts = true ∧
      c.wsRoute attempt supernodeId json = .deliveredBy [.ws sn.connection json] 0) ∨
    (∃ sn, c.supernodes.get? supernodeId = some sn ∧ sn.connected = true ∧ sn.accepts = false ∧
      c.wsRoute attempt supernodeId json = .refused 1) ∨
    ((∀ sn, c.supernodes.get? supernodeId = some sn → sn.connected = false) ∧
      c.wsRoute attempt supernodeId json = .failed attempt "supernode is offline" 0) := by
  unfold wsRoute
  rcases Option.eq_none_or_eq_some (c.supernodes.get? supernodeId) with hnone | ⟨sn, hsn⟩
  · simp [hnone]
  · rw [hsn]
    cases hconnected : sn.connected <;> cases haccepts : sn.accepts <;> simp [hconnected, haccepts]

theorem told_fanOut : Told attempt (c.fanOut attempt relayJson) := by
  unfold fanOut
  dsimp only
  split
  · exact told_failed _ _ _
  · next hne => exact told_deliveredBy _ (by simpa using hne) _

theorem route_cases (attempt : Option (String × String)) (msgType : Protocol.MessageType)
    (target json relayJson : String) :
    (∃ out, c.directRoute attempt msgType target json = some out ∧
      c.route attempt msgType (some target) json relayJson = out) ∨
    (c.directRoute attempt msgType target json = none ∧
      ∃ sn, c.resolveSupernodeWsTarget target = some sn ∧
        c.route attempt msgType (some target) json relayJson =
          c.supernodeRoute attempt msgType sn json) ∨
    (c.directRoute attempt msgType target json = none ∧
      c.resolveSupernodeWsTarget target = none ∧
        c.route attempt msgType (some target) json relayJson = c.fanOut attempt relayJson) := by
  unfold route
  rcases Option.eq_none_or_eq_some (c.directRoute attempt msgType target json) with hd | ⟨out, hd⟩
  · refine .inr ?_
    rcases Option.eq_none_or_eq_some (c.resolveSupernodeWsTarget target) with hr | ⟨sn, hr⟩
    · refine .inr ⟨hd, hr, ?_⟩
      simp [hd, hr, shouldFanoutPeerRelay]
    · refine .inl ⟨hd, sn, hr, ?_⟩
      simp [hd, hr]
  · exact .inl ⟨out, hd, by simp [hd]⟩

theorem told_gate {msg : Protocol.SignalingMessage} (h : c.gate msg = some out) :
    Told (chatAttempt msg) out := by
  unfold gate at h
  dsimp only at h
  split at h
  · cases h
    exact told_failed _ _ _
  · split at h
    · cases h
      exact told_failed _ _ _
    · cases h

theorem gate_sent {msg : Protocol.SignalingMessage} (h : c.gate msg = some out) :
    out.sent = [] := by
  unfold gate at h
  dsimp only at h
  split at h
  · cases h
    rfl
  · split at h
    · cases h
      rfl
    · cases h

end ConnectionManager

/-! ## One report -/

section Report

variable (c : ConnectionManager) (S : FloatSyntax FiniteF64) (now : F64)
  (msg : Protocol.SignalingMessage)

/-- The JSON of the signed message. -/
def ConnectionManager.plainJson : String :=
  (c.signed S msg).toJson S

/-- A frame with the message in it, wrapped or not. -/
def Sent.Carries (f : Sent) : Prop :=
  f.json = c.plainJson S msg ∨
    c.maybeWrapForRelay S now (c.signed S msg) (c.plainJson S msg) = some f.json

/-- The outcome of a dispatch is reported once. -/
structure ReportedOnce : Prop where
  delivered_iff : (c.dispatchOutbound S now msg).delivered = true ↔
    ∃ f ∈ (c.dispatchOutbound S now msg).sent, f.Carries c S now msg
  failed_once : ∀ peerId messageId, chatAttempt msg = some (peerId, messageId) →
    (c.dispatchOutbound S now msg).delivered = false →
      ∃ reason, (c.dispatchOutbound S now msg).events = [.chatSendFailed peerId messageId reason]
  sent_silently : ∀ peerId messageId, chatAttempt msg = some (peerId, messageId) →
    (c.dispatchOutbound S now msg).delivered = true →
      (c.dispatchOutbound S now msg).events = []

/-- A chat message that passes its quota and that no direct session takes, for a
supernode whose WebSocket is up with a full or closed queue. -/
def ConnectionManager.SilentlyRefuses : Prop :=
  ∃ target messageId supernodeId sn, chatAttempt msg = some (target, messageId) ∧
    c.gateThroughFeature "core.chat.v1" target (byteEstimate msg.payload) = true ∧
    (∀ n, c.directSession target ≠ some (n, true)) ∧
    c.resolveSupernodeWsTarget target = some supernodeId ∧
    c.supernodes.get? supernodeId = some sn ∧ sn.connected = true ∧ sn.accepts = false

theorem chatAttempt_eq_some_iff {msg : Protocol.SignalingMessage} {target messageId : String} :
    chatAttempt msg = some (target, messageId) ↔
      msg.msgType = .chatMessage ∧ msg.target = some target ∧
        (msg.payload.lookup "message_id").bind valueStr? = some messageId := by
  unfold chatAttempt
  by_cases htype : msg.msgType = .chatMessage
  · rw [if_pos htype]
    cases htarget : msg.target with
    | none => simp
    | some t =>
      constructor
      · intro h
        obtain ⟨peer, hpeer, hmap⟩ := Option.bind_eq_some_iff.mp h
        obtain ⟨id, hid, hpair⟩ := Option.map_eq_some_iff.mp hmap
        cases hpeer
        cases hpair
        exact ⟨htype, rfl, hid⟩
      · rintro ⟨-, ht, hid⟩
        cases ht
        rw [Option.bind_some, hid, Option.map_some]
  · rw [if_neg htype]
    constructor
    · exact nofun
    · rintro ⟨h, -⟩
      exact absurd h htype

variable {c S msg}

theorem relayAvailable_of_get? {supernodeId : String} {sn : SupernodeSession}
    (hsn : c.supernodes.get? supernodeId = some sn) (hconnected : sn.connected = true) :
    c.relayAvailable = true := by
  unfold ConnectionManager.relayAvailable
  exact List.any_eq_true.mpr ⟨sn, c.supernodes.mem_values_of_get? hsn, hconnected⟩

theorem dispatchOutbound_of_gate {target : String} (ht : msg.target = some target)
    (hgate : c.gate msg = none) :
    c.dispatchOutbound S now msg =
      c.route (chatAttempt msg) msg.msgType (some target) (c.plainJson S msg)
        ((c.maybeWrapForRelay S now (c.signed S msg) (c.plainJson S msg)).getD
          (c.plainJson S msg)) := by
  rw [← ht, ConnectionManager.dispatchOutbound, hgate]
  rfl

theorem dispatchOutbound_of_gated {out : Outcome} (hgate : c.gate msg = some out) :
    c.dispatchOutbound S now msg = out := by
  rw [ConnectionManager.dispatchOutbound, hgate]
  rfl

theorem gate_eq_none_of_chat {target messageId : String}
    (hattempt : chatAttempt msg = some (target, messageId)) (hrelay : c.relayAvailable = true)
    (hquota : c.gateThroughFeature "core.chat.v1" target (byteEstimate msg.payload) = true) :
    c.gate msg = none := by
  obtain ⟨htype, htarget, -⟩ := chatAttempt_eq_some_iff.mp hattempt
  unfold ConnectionManager.gate
  dsimp only
  rw [if_neg (by simp [hattempt, hrelay]), if_neg (by simp [htype, htarget, featureGate, hquota])]

theorem gate_eq_none_quota {target messageId : String}
    (hattempt : chatAttempt msg = some (target, messageId)) (hgate : c.gate msg = none) :
    c.gateThroughFeature "core.chat.v1" target (byteEstimate msg.payload) = true := by
  obtain ⟨htype, htarget, -⟩ := chatAttempt_eq_some_iff.mp hattempt
  unfold ConnectionManager.gate at hgate
  dsimp only at hgate
  split at hgate
  · cases hgate
  · split at hgate
    · cases hgate
    · next hquota =>
      simpa [htype, htarget, featureGate] using hquota

theorem not_ordered_of_chat {target messageId : String}
    (hattempt : chatAttempt msg = some (target, messageId)) :
    isOrderedFilePayload msg.msgType = false ∧ isRelaySignalingType msg.msgType = false := by
  obtain ⟨htype, -⟩ := chatAttempt_eq_some_iff.mp hattempt
  rw [htype]
  exact ⟨rfl, rfl⟩

theorem dispatchOutbound_told {target : String} (ht : msg.target = some target) :
    Told (chatAttempt msg) (c.dispatchOutbound S now msg) ∨
      ((∃ drops, c.dispatchOutbound S now msg = .refused drops) ∧
        ((chatAttempt msg).isSome → c.SilentlyRefuses msg)) := by
  rcases Option.eq_none_or_eq_some (c.gate msg) with hgate | ⟨out, hgate⟩
  swap
  · rw [dispatchOutbound_of_gated now hgate]
    exact .inl (c.told_gate hgate)
  rw [dispatchOutbound_of_gate now ht hgate]
  -- a refusal of file data is no chat message's
  have hfile : isOrderedFilePayload msg.msgType = true →
      ((chatAttempt msg).isSome → c.SilentlyRefuses msg) := by
    intro hordered hsome
    obtain ⟨⟨t, id⟩, hattempt⟩ := Option.isSome_iff_exists.mp hsome
    rw [(not_ordered_of_chat hattempt).1] at hordered
    cases hordered
  rcases c.route_cases (chatAttempt msg) msg.msgType target (c.plainJson S msg) _ with
    ⟨out, hdirect, hout⟩ | ⟨hdirect, sn, hresolve, hout⟩ | ⟨-, -, hout⟩
  · rw [hout]
    rcases c.directRoute_cases hdirect with ⟨n, -, rfl⟩ | ⟨n, -, hordered, rfl⟩ | ⟨n, -, -, -, rfl⟩
    · exact .inl (told_deliveredBy _ (List.cons_ne_nil _ _) _)
    · exact .inr ⟨⟨0, rfl⟩, hfile hordered⟩
    · exact .inl (told_failed _ _ _)
  · rw [hout, ConnectionManager.supernodeRoute]
    rcases Option.eq_none_or_eq_some (c.relayRoute msg.msgType sn (c.plainJson S msg)) with
      hrelay | ⟨out, hrelay⟩
    · rw [hrelay, Option.getD_none]
      rcases c.wsRoute_cases (chatAttempt msg) sn (c.plainJson S msg) with
        ⟨s, -, -, -, hws⟩ | ⟨s, hs, hconnected, haccepts, hws⟩ | ⟨-, hws⟩
      · rw [hws]
        exact .inl (told_deliveredBy _ (List.cons_ne_nil _ _) _)
      · refine .inr ⟨⟨1, hws⟩, fun hsome => ?_⟩
        obtain ⟨⟨t, id⟩, hattempt⟩ := Option.isSome_iff_exists.mp hsome
        obtain ⟨-, htarget, -⟩ := chatAttempt_eq_some_iff.mp hattempt
        obtain rfl : t = target := Option.some.inj (htarget.symm.trans ht)
        refine ⟨t, id, sn, s, hattempt, gate_eq_none_quota hattempt hgate, ?_, hresolve, hs,
          hconnected, haccepts⟩
        intro n hn
        have := (c.directRoute_eq_none_iff.mp hdirect n true hn).1
        cases this
      · rw [hws]
        exact .inl (told_failed _ _ _)
    · rw [hrelay, Option.getD_some]
      obtain ⟨relay, -, -, -, ⟨-, rfl⟩ | ⟨-, -, hordered, rfl⟩⟩ := c.relayRoute_cases hrelay
      · exact .inl (told_deliveredBy _ (List.cons_ne_nil _ _) _)
      · exact .inr ⟨⟨0, rfl⟩, hfile hordered⟩
  · rw [hout]
    exact .inl c.told_fanOut

theorem dispatchOutbound_of_silentlyRefuses (h : c.SilentlyRefuses msg) :
    c.dispatchOutbound S now msg = .refused 1 := by
  obtain ⟨target, id, supernodeId, sn, hattempt, hquota, hdirect, hresolve, hsn, hconnected,
    haccepts⟩ := h
  obtain ⟨-, ht, -⟩ := chatAttempt_eq_some_iff.mp hattempt
  have havailable := relayAvailable_of_get? hsn hconnected
  obtain ⟨hordered, hrelayType⟩ := not_ordered_of_chat hattempt
  rw [dispatchOutbound_of_gate now ht (gate_eq_none_of_chat hattempt havailable hquota)]
  have hnone : c.directRoute (chatAttempt msg) msg.msgType target (c.plainJson S msg) = none := by
    refine c.directRoute_eq_none_iff.mpr fun n room hsession => ?_
    cases room with
    | true => exact absurd hsession (hdirect n)
    | false => exact ⟨rfl, hordered, havailable⟩
  simp [ConnectionManager.route, hnone, hresolve, ConnectionManager.supernodeRoute,
    c.relayRoute_of_not_relayType hrelayType, ConnectionManager.wsRoute, hsn, hconnected, haccepts]

theorem route_json {attempt : Option (String × String)} {msgType : Protocol.MessageType}
    {target json relayJson : String} {f : Sent}
    (hf : f ∈ (c.route attempt msgType (some target) json relayJson).sent) :
    (f.carrier.isSupernode = false ∧ f.json = json) ∨
      (f.carrier.isSupernode = true ∧
        f.json = if (c.resolveSupernodeWsTarget target).isSome then json else relayJson) := by
  rcases c.route_cases attempt msgType target json relayJson with
    ⟨out, hdirect, hout⟩ | ⟨-, sn, hresolve, hout⟩ | ⟨-, hresolve, hout⟩
  · rw [hout] at hf
    rcases c.directRoute_cases hdirect with ⟨n, -, rfl⟩ | ⟨n, -, -, rfl⟩ | ⟨n, -, -, -, rfl⟩
    · obtain rfl := List.mem_singleton.mp hf
      exact .inl ⟨rfl, rfl⟩
    · cases hf
    · cases hf
  · rw [hout, ConnectionManager.supernodeRoute] at hf
    rw [hresolve]
    rcases Option.eq_none_or_eq_some (c.relayRoute msgType sn json) with hrelay | ⟨out, hrelay⟩
    · rw [hrelay, Option.getD_none] at hf
      rcases c.wsRoute_cases attempt sn json with
        ⟨s, -, -, -, hws⟩ | ⟨s, -, -, -, hws⟩ | ⟨-, hws⟩
      · rw [hws] at hf
        obtain rfl := List.mem_singleton.mp hf
        exact .inr ⟨rfl, rfl⟩
      · rw [hws] at hf
        cases hf
      · rw [hws] at hf
        cases hf
    · rw [hrelay, Option.getD_some] at hf
      obtain ⟨relay, -, -, -, ⟨-, rfl⟩ | ⟨-, -, -, rfl⟩⟩ := c.relayRoute_cases hrelay
      · obtain rfl := List.mem_singleton.mp hf
        exact .inr ⟨rfl, rfl⟩
      · cases hf
  · rw [hout, ConnectionManager.fanOut] at hf
    rw [hresolve]
    split at hf
    · cases hf
    · obtain ⟨sn, -, rfl⟩ := List.mem_map.mp hf
      exact .inr ⟨rfl, rfl⟩

theorem dispatchOutbound_carries {target : String} (ht : msg.target = some target) {f : Sent}
    (hf : f ∈ (c.dispatchOutbound S now msg).sent) : f.Carries c S now msg := by
  rcases Option.eq_none_or_eq_some (c.gate msg) with hgate | ⟨out, hgate⟩
  · rw [dispatchOutbound_of_gate now ht hgate] at hf
    rcases route_json hf with ⟨-, hjson⟩ | ⟨-, hjson⟩
    · exact .inl hjson
    · split at hjson
      · exact .inl hjson
      · rcases Option.eq_none_or_eq_some
          (c.maybeWrapForRelay S now (c.signed S msg) (c.plainJson S msg)) with hw | ⟨text, hw⟩
        · rw [hw] at hjson
          exact .inl hjson
        · rw [hw] at hjson
          exact .inr (hw.trans (congrArg some hjson.symm))
  · rw [dispatchOutbound_of_gated now hgate, c.gate_sent hgate] at hf
    cases hf

variable (c S msg)

theorem not_reportedOnce_of_silentlyRefuses (hrefuses : c.SilentlyRefuses msg) :
    ¬ ReportedOnce c S now msg := by
  intro hreport
  have hout := dispatchOutbound_of_silentlyRefuses (S := S) now hrefuses
  obtain ⟨t, id, -, -, hattempt, -⟩ := hrefuses
  obtain ⟨reason, hevents⟩ := hreport.failed_once t id hattempt (by rw [hout]; rfl)
  rw [hout] at hevents
  cases hevents

end Report

/-! ## Full and open queues -/

/-- Keys that share a key with every identity. -/
def sampleIdentity : Identity where
  publicId := alice.text
  sign := fun bytes => bytes.take 64
  derivePairwiseRelayKey := fun identityPub =>
    if identityPub.length = 43 ∨ identityPub.length = 44 then some (utf8Bytes (bare identityPub))
    else none
  encryptBlob := fun key text => 1 :: (key ++ text).map (· ^^^ 0x5a)

/-- A client without peers, with one supernode. -/
def clientOf (supernodeId : String) (session : SupernodeSession) : ConnectionManager where
  identity := sampleIdentity
  peers := .empty
  supernodes := .single supernodeId session
  quicRelays := .empty
  clusterMembers := .empty
  peerStore := ⟨∅⟩
  peerOrder := []
  peerOrder_complete := by simp [PeerStore.get]
  gateThroughFeature := fun _ _ _ => true

def chatTo (target : String) : Protocol.SignalingMessage where
  msgType := .chatMessage
  sender := alice.text
  payload := [("message_id", .str "m1"), ("text", .str "hello")]
  timestamp := F64.zero.val
  target := some target
  signature := none
  protocolVersion := 2

end ConquerD.Client.Routing
