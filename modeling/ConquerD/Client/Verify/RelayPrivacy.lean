import ConquerD.Client.Verify.OutboundRouting

/-!
# Verify: what a supernode sees of a message it relays

A message for a peer reaches a supernode wrapped exactly when its target is no
name of a supernode session and the store has, under that very spelling, a
record whose identity gives a pairwise key.
-/

namespace ConquerD.Client.Routing

open Lib.Encoding Lib.JsonText Lib.Visit Wire

section Privacy

variable (c : ConnectionManager) (S : FloatSyntax FiniteF64) (now : F64)
  (msg : Protocol.SignalingMessage) (target : String)

/-! ## Statements -/

/-- The text of a signed envelope for the target. Only the ciphertext of the
message is in it, unless the message is an envelope already. -/
def IsEnvelope (text : String) : Prop :=
  ∃ e : Protocol.SignalingMessage, e.msgType = .encryptedSignal ∧ e.target = some target ∧
    c.signed S e = e ∧ text = e.toJson S ∧
    (msg.msgType ≠ .encryptedSignal → ∃ key, c.relayKey target = some key ∧
      e.payload = [("ciphertext", .str (b64UrlEncodePadded
        (c.identity.encryptBlob key (utf8Bytes (c.plainJson S msg)))))])

/-- Whatever a dispatch hands to a supernode is an envelope. -/
def OpaqueToSupernodes : Prop :=
  ∀ f ∈ (c.dispatchOutbound S now msg).sent, f.carrier.isSupernode = true →
    IsEnvelope c S msg target f.json

/-- A peer in the store that is no supernode and whose identity gives a key,
under its peer id or any padding of its identity. -/
def ConnectionManager.StoredPeer : Prop :=
  ∃ peerId record, c.peerStore.get peerId = some record ∧ record.isSupernode = false ∧
    record.identityPub ≠ "" ∧ (c.identity.derivePairwiseRelayKey record.identityPub).isSome ∧
    (target = peerId ∨ bare target = bare record.identityPub)

/-- The message is an envelope already, or there is a key for this spelling of
the target and no session of a supernode goes by it. -/
def ConnectionManager.Sealable : Prop :=
  msg.msgType = .encryptedSignal ∨
    (c.resolveSupernodeWsTarget target = none ∧ (c.relayKey target).isSome)

/-- The direct session does not end the dispatch. -/
def ConnectionManager.DirectPasses : Prop :=
  ∀ n room, c.directSession target = some (n, room) →
    room = false ∧ isOrderedFilePayload msg.msgType = false ∧ c.relayAvailable = true

def ConnectionManager.StreamTakes (supernodeId : String) : Prop :=
  isRelaySignalingType msg.msgType = true ∧
    ∃ relay, c.quicRelays.get? supernodeId = some relay ∧ relay.isAlive = true ∧
      relay.sendSignaling (c.plainJson S msg) = true

/-- The relay stream of a supernode is up and full, and the message waits for it. -/
def ConnectionManager.StreamHolds (supernodeId : String) : Prop :=
  isRelaySignalingType msg.msgType = true ∧ isOrderedFilePayload msg.msgType = true ∧
    ∃ relay, c.quicRelays.get? supernodeId = some relay ∧ relay.isAlive = true ∧
      relay.sendSignaling (c.plainJson S msg) = false ∧ relay.signalingUsable = true

/-- The WebSocket of a supernode is up and has room. -/
def ConnectionManager.SocketTakes (supernodeId : String) : Prop :=
  ∃ sn, c.supernodes.get? supernodeId = some sn ∧ sn.connected = true ∧ sn.accepts = true

/-- Past the gates and the direct session, a queue to a supernode has room. -/
def ConnectionManager.ReachesSupernode : Prop :=
  c.gate msg = none ∧ c.DirectPasses msg target ∧
    ((∃ sn, c.resolveSupernodeWsTarget target = some sn ∧
        (c.StreamTakes S msg sn ∨ ¬ c.StreamHolds S msg sn ∧ c.SocketTakes sn)) ∨
      (c.resolveSupernodeWsTarget target = none ∧
        ∃ sn ∈ c.connectedSupernodes, sn.accepts = true))

/-- What a supernode is handed of a message. -/
def ConnectionManager.relayedText : String :=
  if (c.resolveSupernodeWsTarget target).isSome then c.plainJson S msg
  else (c.maybeWrapForRelay S now (c.signed S msg) (c.plainJson S msg)).getD (c.plainJson S msg)

/-! ## Frames to supernodes -/

variable {c S msg target}

theorem relayRoute_eq_none_iff {supernodeId : String} :
    c.relayRoute msg.msgType supernodeId (c.plainJson S msg) = none ↔
      ¬ c.StreamTakes S msg supernodeId ∧ ¬ c.StreamHolds S msg supernodeId := by
  unfold ConnectionManager.relayRoute ConnectionManager.StreamTakes ConnectionManager.StreamHolds
  cases htype : isRelaySignalingType msg.msgType with
  | false => simp
  | true =>
    rcases Option.eq_none_or_eq_some (c.quicRelays.get? supernodeId) with hnone | ⟨relay, hsome⟩
    · simp [hnone]
    · rw [hsome]
      cases halive : relay.isAlive <;>
        cases hsends : relay.sendSignaling (c.plainJson S msg) <;>
        cases husable : relay.signalingUsable <;>
        cases hordered : isOrderedFilePayload msg.msgType <;>
        simp [halive, hsends, husable]

theorem exists_supernode_frame_iff (ht : msg.target = some target) :
    (∃ f ∈ (c.dispatchOutbound S now msg).sent, f.carrier.isSupernode = true) ↔
      c.ReachesSupernode S msg target := by
  unfold ConnectionManager.ReachesSupernode
  rcases Option.eq_none_or_eq_some (c.gate msg) with hgate | ⟨out, hgate⟩
  swap
  · rw [dispatchOutbound_of_gated now hgate]
    have hnil : out.sent = [] := c.gate_sent hgate
    simp [hnil, hgate]
  rw [dispatchOutbound_of_gate now ht hgate]
  rcases c.route_cases (chatAttempt msg) msg.msgType target (c.plainJson S msg) _ with
    ⟨out, hdirect, hout⟩ | ⟨hdirect, sn, hresolve, hout⟩ | ⟨hdirect, hresolve, hout⟩
  · -- the direct session settles it
    have hpass : ¬ c.DirectPasses msg target := by
      intro hpass
      rw [c.directRoute_eq_none_iff.mpr hpass] at hdirect
      cases hdirect
    rw [hout]
    constructor
    · rintro ⟨f, hf, hsupernode⟩
      rcases c.directRoute_cases hdirect with ⟨n, -, rfl⟩ | ⟨n, -, -, rfl⟩ | ⟨n, -, -, -, rfl⟩
      · obtain rfl := List.mem_singleton.mp hf
        cases hsupernode
      · cases hf
      · cases hf
    · rintro ⟨-, h, -⟩
      exact absurd h hpass
  · have hpass : c.DirectPasses msg target := c.directRoute_eq_none_iff.mp hdirect
    rw [hout, ConnectionManager.supernodeRoute]
    simp only [hgate, hpass, hresolve, true_and, Option.some.injEq, exists_eq_left', reduceCtorEq,
      false_and, or_false]
    rcases Option.eq_none_or_eq_some (c.relayRoute msg.msgType sn (c.plainJson S msg)) with
      hrelay | ⟨out, hrelay⟩
    · obtain ⟨htakes, hholds⟩ := relayRoute_eq_none_iff.mp hrelay
      rw [hrelay, Option.getD_none]
      simp only [htakes, hholds, not_false_eq_true, true_and, false_or]
      rcases c.wsRoute_cases (chatAttempt msg) sn (c.plainJson S msg) with
        ⟨s, hs, hconnected, haccepts, hws⟩ | ⟨s, hs, -, haccepts, hws⟩ | ⟨hoffline, hws⟩
      · rw [hws]
        exact ⟨fun _ => ⟨s, hs, hconnected, haccepts⟩,
          fun _ => ⟨_, List.mem_singleton.mpr rfl, rfl⟩⟩
      · rw [hws]
        constructor
        · rintro ⟨f, hf, -⟩
          cases hf
        · rintro ⟨s', hs', -, haccepts'⟩
          obtain rfl := Option.some.inj (hs.symm.trans hs')
          rw [haccepts] at haccepts'
          cases haccepts'
      · rw [hws]
        constructor
        · rintro ⟨f, hf, -⟩
          cases hf
        · rintro ⟨s', hs', hconnected, -⟩
          rw [hoffline s' hs'] at hconnected
          cases hconnected
    · obtain ⟨relay, htype, hget, halive, ⟨hsends, rfl⟩ | ⟨hsends, husable, hordered, rfl⟩⟩ :=
        c.relayRoute_cases hrelay
      · rw [hrelay, Option.getD_some]
        exact ⟨fun _ => .inl ⟨htype, relay, hget, halive, hsends⟩,
          fun _ => ⟨_, List.mem_singleton.mpr rfl, rfl⟩⟩
      · rw [hrelay, Option.getD_some]
        constructor
        · rintro ⟨f, hf, -⟩
          cases hf
        · rintro (⟨-, relay', hget', -, hsends'⟩ | ⟨hholds, -⟩)
          · obtain rfl := Option.some.inj (hget.symm.trans hget')
            rw [hsends] at hsends'
            cases hsends'
          · exact absurd ⟨htype, hordered, relay, hget, halive, hsends, husable⟩ hholds
  · have hpass : c.DirectPasses msg target := c.directRoute_eq_none_iff.mp hdirect
    rw [hout]
    simp only [hgate, hpass, hresolve, true_and, reduceCtorEq, false_and, exists_false, false_or]
    unfold ConnectionManager.fanOut
    dsimp only
    constructor
    · rintro ⟨f, hf, -⟩
      split at hf
      · cases hf
      · obtain ⟨sn, hsn, -⟩ := List.mem_map.mp hf
        exact ⟨sn, List.mem_filter.mp hsn⟩
    · rintro ⟨sn, hsn, haccepts⟩
      have hmem := List.mem_filter.mpr ⟨hsn, haccepts⟩
      rw [if_neg (by simpa using ⟨sn, hsn, haccepts⟩)]
      exact ⟨_, List.mem_map_of_mem hmem, rfl⟩

theorem json_of_supernode_frame (ht : msg.target = some target) {f : Sent}
    (hf : f ∈ (c.dispatchOutbound S now msg).sent) (hsupernode : f.carrier.isSupernode = true) :
    f.json = c.relayedText S now msg target := by
  rcases Option.eq_none_or_eq_some (c.gate msg) with hgate | ⟨out, hgate⟩
  · rw [dispatchOutbound_of_gate now ht hgate] at hf
    rcases route_json hf with ⟨hdirect, -⟩ | ⟨-, hjson⟩
    · rw [hdirect] at hsupernode
      cases hsupernode
    · exact hjson
  · rw [dispatchOutbound_of_gated now hgate, c.gate_sent hgate] at hf
    cases hf

/-! ## Envelopes -/

theorem toJson_msgType {m m' : Protocol.SignalingMessage} (h : m.toJson S = m'.toJson S) :
    m.msgType = m'.msgType := by
  have hfields := Value.obj.inj (docText_injective h)
  have hhead := congrArg List.head? hfields
  simp only [Protocol.SignalingMessage.jsonFields, List.cons_append, List.head?_cons,
    Option.some.injEq, Prod.mk.injEq, Value.str.injEq, true_and] at hhead
  exact Protocol.MessageType.asWireStr_injective hhead

/-- What a supernode is handed is an envelope exactly when the message is
sealable. -/
theorem isEnvelope_relayedText_iff (ht : msg.target = some target) :
    IsEnvelope c S msg target (c.relayedText S now msg target) ↔ c.Sealable msg target := by
  unfold ConnectionManager.Sealable
  by_cases htype : msg.msgType = .encryptedSignal
  · -- an envelope is signed and sent as it is
    refine ⟨fun _ => .inl htype,
      fun _ => ⟨c.signed S msg, htype, ht, rfl, ?_, fun h => absurd htype h⟩⟩
    have hnone : c.maybeWrapForRelay S now (c.signed S msg) (c.plainJson S msg) = none :=
      if_pos htype
    rw [ConnectionManager.relayedText, hnone, Option.getD_none, ite_self]
    rfl
  · have hplain : ¬ IsEnvelope c S msg target (c.plainJson S msg) := by
      rintro ⟨e, he, -, -, htext, -⟩
      exact htype ((toJson_msgType htext).trans he)
    have hwrap : c.maybeWrapForRelay S now (c.signed S msg) (c.plainJson S msg) =
        (c.relayKey target).map fun key =>
          (c.signed S (c.envelope now key target (c.plainJson S msg))).toJson S := by
      rw [ConnectionManager.maybeWrapForRelay,
        if_neg (show (c.signed S msg).msgType ≠ _ from htype)]
      simp only [ConnectionManager.signed, ht, Option.bind_some]
    rw [ConnectionManager.relayedText, hwrap]
    rcases Option.eq_none_or_eq_some (c.resolveSupernodeWsTarget target) with hr | ⟨sn, hr⟩
    · rcases Option.eq_none_or_eq_some (c.relayKey target) with hkey | ⟨key, hkey⟩
      · simp [hr, hkey, htype, hplain]
      · simp only [hr, hkey, htype, Option.isSome_none, Bool.false_eq_true, if_false,
          Option.map_some, Option.getD_some, Option.isSome_some, and_self, or_true, iff_true]
        exact ⟨c.signed S (c.envelope now key target (c.plainJson S msg)), rfl, rfl, rfl, rfl,
          fun _ => ⟨key, hkey, rfl⟩⟩
    · simp [hr, htype, hplain]

variable (c S msg)

theorem not_opaqueToSupernodes (ht : msg.target = some target)
    (hreach : c.ReachesSupernode S msg target) (hplain : ¬ c.Sealable msg target) :
    ¬ OpaqueToSupernodes c S now msg target := by
  intro hopaque
  obtain ⟨f, hf, hsupernode⟩ := (exists_supernode_frame_iff now ht).mpr hreach
  have henvelope := hopaque f hf hsupernode
  rw [json_of_supernode_frame now ht hf hsupernode] at henvelope
  exact hplain ((isEnvelope_relayedText_iff now ht).mp henvelope)

/-- What a supernode is handed of a message for a target is wrapped, exactly when
the message is sealable or reaches no supernode. -/
theorem opaqueToSupernodes_iff (ht : msg.target = some target) :
    OpaqueToSupernodes c S now msg target ↔
      c.Sealable msg target ∨ ¬ c.ReachesSupernode S msg target := by
  constructor
  · intro hopaque
    by_cases hreach : c.ReachesSupernode S msg target
    · by_contra hplain
      exact not_opaqueToSupernodes c S now msg ht hreach (fun h => hplain (.inl h)) hopaque
    · exact .inr hreach
  · rintro (hsealable | hreach) f hf hsupernode
    · rw [json_of_supernode_frame now ht hf hsupernode]
      exact (isEnvelope_relayedText_iff now ht).mpr hsealable
    · exact absurd ((exists_supernode_frame_iff now ht).mp ⟨f, hf, hsupernode⟩) hreach

end Privacy

/-! ## Two spellings of a target -/

def bobRecord : PeerRecord :=
  { PeerRecord.default with peerId := "b0b", identityPub := bob.text }

/-- A client that knows one peer, and is connected to one supernode. -/
def pairedClient : ConnectionManager :=
  { clientOf alice.text ⟨1, true, true⟩ with
    peerStore := PeerStore.upsert ⟨∅⟩ bobRecord
    peerOrder := ["b0b"]
    peerOrder_complete := by
      intro peerId
      by_cases hid : peerId = "b0b"
      · simp [PeerStore.get, PeerStore.upsert, bobRecord, hid]
      · have hne : ¬ "b0b" = peerId := fun h => hid h.symm
        simp [PeerStore.get, PeerStore.upsert, bobRecord, hid, hne] }

theorem pairedClient_get : pairedClient.peerStore.get "b0b" = some bobRecord := by
  simp [pairedClient, PeerStore.get, PeerStore.upsert, bobRecord]

/-- The identity as the store has it. -/
theorem padded_target_is_wrapped :
    OpaqueToSupernodes pairedClient FloatSyntax.sample F64.zero.val (chatTo bob.text) bob.text := by
  refine (opaqueToSupernodes_iff _ _ _ _ rfl).mpr (.inl (.inr ⟨?_, ?_⟩))
  · decide +kernel
  · decide +kernel

/-- The same identity without its padding goes out in plaintext. -/
theorem unpadded_target_is_plain :
    pairedClient.StoredPeer (bare bob.text) ∧
      ¬ OpaqueToSupernodes pairedClient FloatSyntax.sample F64.zero.val (chatTo (bare bob.text))
        (bare bob.text) := by
  constructor
  · exact ⟨"b0b", bobRecord, pairedClient_get, rfl, by decide, by decide, .inr (by decide)⟩
  · refine not_opaqueToSupernodes _ _ _ _ rfl
      ⟨by decide +kernel, nofun, .inr ⟨by decide +kernel, ?_⟩⟩ ?_
    · refine ⟨⟨1, true, true⟩, ?_, rfl⟩
      simp [ConnectionManager.connectedSupernodes, pairedClient, clientOf, VisitMap.values,
        VisitMap.single]
    · rintro (htype | ⟨-, hkey⟩)
      · cases htype
      · revert hkey
        decide +kernel

end ConquerD.Client.Routing
