import ConquerD.Client.Verify.OutboundRouting
import ConquerD.Lib.Run

/-!
# Verify: the order of bulk file data

A frame of file data goes to exactly the sessions on its route that have room.
While no session joins these, what ends a transfer goes only where every chunk
before it went; a session that opens in the middle breaks that.
-/

namespace ConquerD.Client.Routing

open Lib.Encoding Lib.JsonText Lib.Visit Lib.Run Wire

/-! ## The sessions with room -/

namespace ConnectionManager

variable (c : ConnectionManager)

/-- The relay session of a supernode with a stream that is up. -/
def usableRelay (inRoom : Bool) (supernodeId : String) : Option RelaySession :=
  if inRoom then (c.quicRelays.get? supernodeId).filter RelaySession.signalingUsable else none

/-- The sessions on the route of file data for a target that have room: the
direct session where there is one, else the relay stream of the supernode, else
its WebSocket; the WebSockets of all supernodes for a target that is none. -/
def takers (inRoom : Bool) (target : String) : List Carrier :=
  match c.directSession target with
  | some session => if session.2 then [.direct session.1] else []
  | none =>
    match c.resolveSupernodeWsTarget target with
    | some supernodeId =>
      match c.usableRelay inRoom supernodeId with
      | some relay => if relay.signalTx.getD false then [.relay relay.connection] else []
      | none =>
        ((c.supernodes.get? supernodeId).filter fun sn => sn.connected && sn.accepts).toList.map
          fun sn => .ws sn.connection
    | none => (c.connectedSupernodes.filter (·.accepts)).map fun sn => .ws sn.connection

end ConnectionManager

/-- File data of a room, or between two peers. -/
def IsBulk (inRoom : Bool) (msgType : Protocol.MessageType) : Prop :=
  isOrderedFilePayload msgType = true ∧ isRelaySignalingType msgType = inRoom ∧
    msgType ≠ .chatMessage

theorem isBulk_of_mem_frames {b : BulkTransfer}
    {frame : Protocol.MessageType × List (String × SerdeValue)} (h : frame ∈ b.frames) : IsBulk b.inRoom frame.1 := by
  unfold IsBulk
  unfold BulkTransfer.frames at h
  rcases List.mem_append.mp h with hchunk | hcomplete
  · obtain ⟨payload, -, rfl⟩ := List.mem_map.mp hchunk
    unfold BulkTransfer.chunkType
    cases b.inRoom <;> exact ⟨rfl, rfl, nofun⟩
  · obtain rfl := List.mem_singleton.mp hcomplete
    unfold BulkTransfer.completeType
    cases b.inRoom <;> exact ⟨rfl, rfl, nofun⟩

section Takers

variable {c : ConnectionManager} {S : FloatSyntax FiniteF64} {msg : Protocol.SignalingMessage}
  {target json relayJson : String} {attempt : Option (String × String)}
  {msgType : Protocol.MessageType} {inRoom : Bool}

theorem RelaySession.of_sendSignaling {relay : RelaySession}
    (h : relay.sendSignaling json = true) :
    relay.signalingUsable = true ∧ relay.signalTx = some true := by
  unfold RelaySession.sendSignaling at h
  unfold RelaySession.signalingUsable
  obtain ⟨n, portalOnly, isAlive, signalLive, signalTx⟩ := relay
  rcases signalTx with _ | _ | _ <;> cases portalOnly <;> cases isAlive <;> cases signalLive <;>
    simp_all

theorem directSession_of_none (hordered : isOrderedFilePayload msgType = true)
    (h : c.directRoute attempt msgType target json = none) : c.directSession target = none := by
  rcases Option.eq_none_or_eq_some (c.directSession target) with hnone | ⟨⟨n, room⟩, hsome⟩
  · exact hnone
  · have hfalse := (c.directRoute_eq_none_iff.mp h n room hsome).2.1
    rw [hordered] at hfalse
    cases hfalse

/-- The WebSocket is left to file data only without a relay stream that is up. -/
theorem usableRelay_of_none {supernodeId : String} (hordered : isOrderedFilePayload msgType = true)
    (hrelayType : isRelaySignalingType msgType = inRoom)
    (h : c.relayRoute msgType supernodeId json = none) :
    c.usableRelay inRoom supernodeId = none := by
  unfold ConnectionManager.usableRelay
  unfold ConnectionManager.relayRoute at h
  rw [hrelayType] at h
  cases inRoom with
  | false => rfl
  | true =>
    rw [if_pos rfl] at h ⊢
    rcases Option.eq_none_or_eq_some (c.quicRelays.get? supernodeId) with hnone | ⟨relay, hsome⟩
    · rw [hnone]
      rfl
    · rw [hsome, Option.bind_some] at h
      rw [hsome, Option.filter_some]
      split at h
      · next hdead =>
        have hnot : relay.signalingUsable = false := by
          unfold RelaySession.signalingUsable
          simp_all
        rw [hnot]
        rfl
      · split at h
        · cases h
        · split at h
          · cases h
          · next hnot =>
            rw [hordered, Bool.and_true] at hnot
            rw [if_neg hnot]

/-- File data is handed to exactly the sessions on its route that have room. -/
theorem route_carriers (hbulk : IsBulk inRoom msgType)
    (h : (c.route attempt msgType (some target) json relayJson).delivered = true) :
    (c.route attempt msgType (some target) json relayJson).sent.map Sent.carrier =
      c.takers inRoom target := by
  obtain ⟨hordered, hrelayType, -⟩ := hbulk
  unfold ConnectionManager.takers
  rcases c.route_cases attempt msgType target json relayJson with
    ⟨out, hdirect, hout⟩ | ⟨hdirect, sn, hresolve, hout⟩ | ⟨hdirect, hresolve, hout⟩
  · rw [hout] at h ⊢
    rcases c.directRoute_cases hdirect with ⟨n, hsession, rfl⟩ | ⟨n, -, -, rfl⟩ | ⟨n, -, -, -, rfl⟩
    · rw [hsession]
      rfl
    · cases h
    · cases h
  · have hsession := directSession_of_none hordered hdirect
    rw [hout, ConnectionManager.supernodeRoute] at h ⊢
    rw [hsession, hresolve]
    dsimp only
    rcases Option.eq_none_or_eq_some (c.relayRoute msgType sn json) with hrelay | ⟨out, hrelay⟩
    · have husable := usableRelay_of_none hordered hrelayType hrelay
      rw [hrelay, Option.getD_none] at h ⊢
      rw [husable]
      rcases c.wsRoute_cases attempt sn json with
        ⟨s, hs, hconnected, haccepts, hws⟩ | ⟨s, -, -, -, hws⟩ | ⟨-, hws⟩
      · rw [hws, hs]
        simp [Outcome.deliveredBy, Sent.carrier, Option.filter_some, hconnected, haccepts]
      · rw [hws] at h
        cases h
      · rw [hws] at h
        cases h
    · obtain ⟨relay, htype, hget, -, ⟨hsends, rfl⟩ | ⟨-, -, -, rfl⟩⟩ := c.relayRoute_cases hrelay
      · obtain ⟨husable, hroom⟩ := RelaySession.of_sendSignaling hsends
        have hin : inRoom = true := hrelayType.symm.trans htype
        rw [hrelay, ConnectionManager.usableRelay, hin, if_pos rfl, hget]
        simp [husable, hroom, Outcome.deliveredBy, Sent.carrier, Option.filter_some]
      · rw [hrelay] at h
        cases h
  · have hsession := directSession_of_none hordered hdirect
    rw [hout] at h ⊢
    rw [hsession, hresolve]
    unfold ConnectionManager.fanOut at h ⊢
    dsimp only at h ⊢
    split at h
    · cases h
    · next hsome =>
      rw [if_neg hsome]
      simp [Outcome.deliveredBy, Sent.carrier, Function.comp_def]

end Takers

/-! ## A transfer -/

section Transfer

variable (S : FloatSyntax FiniteF64) (b : BulkTransfer)

/-- What ends the transfer goes to no session that did not take every chunk. -/
def EndsInOrder
    (handed : List ((Protocol.MessageType × List (String × SerdeValue)) × List Carrier)) : Prop :=
  ∀ before last after, handed = before ++ last :: after → last.1.1 = b.completeType →
    before.map Prod.fst = b.chunks.map (fun payload => (b.chunkType, payload)) ∧
      ∀ earlier ∈ before, ∀ k ∈ last.2, k ∈ earlier.2

/-- No session joins those that have room for the transfer. -/
def NoneJoins (turns : List Turn) : Prop :=
  turns.Pairwise fun t u => t.client.takers b.inRoom b.target ≠ [] →
    ∀ k ∈ u.client.takers b.inRoom b.target, k ∈ t.client.takers b.inRoom b.target

/-- The frames handed over and those to come are all the frames, and no session
that has room now or later was left out before. -/
structure Stream.InOrder (turns : List Turn) (s : Stream) : Prop where
  frames : s.handed.map Prod.fst ++ s.pending = b.frames
  handed : s.handed.Pairwise fun earlier later => ∀ k ∈ later.2, k ∈ earlier.2
  upcoming : ∀ earlier ∈ s.handed, ∀ t ∈ turns, ∀ k ∈ t.client.takers b.inRoom b.target,
    k ∈ earlier.2

variable {S b}

theorem dispatchOutbound_carriers {c : ConnectionManager} {now : F64}
    {msg : Protocol.SignalingMessage} {inRoom : Bool} {target : String} (ht : msg.target = some target)
    (hbulk : IsBulk inRoom msg.msgType) (h : (c.dispatchOutbound S now msg).delivered = true) :
    (c.dispatchOutbound S now msg).sent.map Sent.carrier = c.takers inRoom target ∧
      c.takers inRoom target ≠ [] := by
  have hsent : (c.dispatchOutbound S now msg).sent ≠ [] :=
    (Outcome.Told.delivered_iff ((dispatchOutbound_told now ht).imp id And.left)).mp h
  have hcarriers : (c.dispatchOutbound S now msg).sent.map Sent.carrier =
      c.takers inRoom target := by
    rcases Option.eq_none_or_eq_some (c.gate msg) with hgate | ⟨out, hgate⟩
    · rw [dispatchOutbound_of_gate now ht hgate] at h ⊢
      exact route_carriers hbulk h
    · rw [dispatchOutbound_of_gated now hgate] at hsent
      exact absurd (c.gate_sent hgate) hsent
  refine ⟨hcarriers, fun hnil => hsent ?_⟩
  rw [hnil] at hcarriers
  exact List.map_eq_nil_iff.mp hcarriers

theorem Stream.InOrder.dispatchNext {t : Turn} {turns : List Turn} {s : Stream}
    (hs : s.InOrder b (t :: turns)) (hnone : NoneJoins b (t :: turns)) :
    (s.dispatchNext S b t).InOrder b turns := by
  obtain ⟨hfirst, -⟩ := List.pairwise_cons.mp hnone
  have hidle : s.InOrder b turns :=
    ⟨hs.frames, hs.handed, fun e he u hu => hs.upcoming e he u (List.mem_cons_of_mem _ hu)⟩
  obtain ⟨pending, handed⟩ := s
  unfold Stream.dispatchNext
  cases pending with
  | nil => exact hidle
  | cons frame rest =>
    dsimp only
    split
    · next hdelivered =>
      have hmem : frame ∈ b.frames := by
        rw [← hs.frames]
        exact List.mem_append_right _ List.mem_cons_self
      obtain ⟨hcarriers, hroom⟩ := dispatchOutbound_carriers rfl
        (isBulk_of_mem_frames hmem) hdelivered
      rw [hcarriers]
      refine ⟨?_, ?_, ?_⟩
      · rw [← hs.frames]
        simp
      · refine List.pairwise_append.mpr ⟨hs.handed, List.pairwise_singleton _ _, ?_⟩
        intro earlier he later hl k hk
        obtain rfl := List.mem_singleton.mp hl
        exact hs.upcoming earlier he t List.mem_cons_self k hk
      · intro earlier he u hu k hk
        rcases List.mem_append.mp he with hold | hnew
        · exact hidle.upcoming earlier hold u hu k hk
        · obtain rfl := List.mem_singleton.mp hnew
          exact hfirst u hu hroom k hk
    · exact hidle

theorem Stream.InOrder.run {turns : List Turn} {s : Stream} (hs : s.InOrder b turns)
    (hnone : NoneJoins b turns) : (run (Stream.dispatchNext S b) s turns).InOrder b [] := by
  induction turns generalizing s with
  | nil => exact hs
  | cons t turns ih => exact ih (hs.dispatchNext hnone) (List.pairwise_cons.mp hnone).2

theorem chunkType_ne_completeType : b.chunkType ≠ b.completeType := by
  unfold BulkTransfer.chunkType BulkTransfer.completeType
  cases b.inRoom <;> exact nofun

theorem frames_before_complete
    {before after : List (Protocol.MessageType × List (String × SerdeValue))}
    {last : Protocol.MessageType × List (String × SerdeValue)} (h : before ++ last :: after = b.frames)
    (hlast : last.1 = b.completeType) :
    before = b.chunks.map fun payload => (b.chunkType, payload) := by
  unfold BulkTransfer.frames at h
  rcases List.append_eq_append_iff.mp h with ⟨mid, hchunks, hrest⟩ | ⟨mid, hbefore, hrest⟩
  · cases mid with
    | nil => simpa using hchunks.symm
    | cons first mid =>
      -- the last frame would be a chunk
      obtain ⟨rfl, -⟩ := List.cons.inj hrest
      have hmem : last ∈ b.chunks.map fun payload => (b.chunkType, payload) := by
        rw [hchunks]
        exact List.mem_append_right _ List.mem_cons_self
      obtain ⟨payload, -, rfl⟩ := List.mem_map.mp hmem
      exact absurd hlast chunkType_ne_completeType
  · cases mid with
    | nil => simpa using hbefore
    | cons first mid =>
      have hlen := congrArg List.length hrest
      simp at hlen

theorem Stream.InOrder.endsInOrder {turns : List Turn} {s : Stream} (hs : s.InOrder b turns) :
    EndsInOrder b s.handed := by
  intro before last after hsplit hlast
  have hframes := hs.frames
  have hpairs := hs.handed
  rw [hsplit] at hframes hpairs
  constructor
  · have hall : before.map Prod.fst ++ last.1 :: (after.map Prod.fst ++ s.pending) = b.frames := by
      rw [← hframes]
      simp
    exact frames_before_complete hall hlast
  · intro earlier he k hk
    exact (List.pairwise_append.mp hpairs).2.2 earlier he last List.mem_cons_self k hk

variable (S b)

/-- While no session joins those with room, what ends a transfer goes only where
all of its chunks went. -/
theorem run_endsInOrder (turns : List Turn) (hnone : NoneJoins b turns) :
    EndsInOrder b (run (Stream.dispatchNext S b) b.start turns).handed := by
  have hstart : b.start.InOrder b turns := ⟨rfl, List.Pairwise.nil, nofun⟩
  exact (hstart.run hnone).endsInOrder

end Transfer

/-! ## A session that opens in the middle -/

/-- A file of one chunk for a peer. -/
def fileToBob : BulkTransfer where
  sender := alice.text
  target := bob.text
  inRoom := false
  chunks := [[("data", .str "AAAA"), ("transfer_id", .str "t1")]]
  complete := [("transfer_id", .str "t1")]

/-- Only the WebSocket of a supernode is up. -/
def relayedTurn : Turn := ⟨clientOf alice.text ⟨1, true, true⟩, F64.zero.val, id⟩

/-- A direct session is up as well. -/
def directTurn : Turn :=
  ⟨{ clientOf alice.text ⟨1, true, true⟩ with peers := .single bob.text ⟨2, true, some true⟩ },
    F64.zero.val, id⟩

/-- While only the WebSocket is up, all goes there. -/
theorem relayed_file_endsInOrder :
    EndsInOrder fileToBob
      (run (Stream.dispatchNext FloatSyntax.sample fileToBob) fileToBob.start
        [relayedTurn, relayedTurn]).handed := by
  refine run_endsInOrder _ _ _ ?_
  refine List.pairwise_cons.mpr ⟨fun u hu _ k hk => ?_, List.pairwise_singleton _ _⟩
  obtain rfl := List.mem_singleton.mp hu
  exact hk

/-- The chunk is on its way through the supernode when what ends the transfer is
handed to the direct session. -/
theorem opened_session_overtakes :
    ¬ EndsInOrder fileToBob
      (run (Stream.dispatchNext FloatSyntax.sample fileToBob) fileToBob.start
        [relayedTurn, directTurn]).handed := by
  have hhanded : (run (Stream.dispatchNext FloatSyntax.sample fileToBob) fileToBob.start
      [relayedTurn, directTurn]).handed =
        [((.fileTransferChunk, [("data", .str "AAAA"), ("transfer_id", .str "t1")]), [.ws 1]),
          ((.fileTransferComplete, [("transfer_id", .str "t1")]), [.direct 2])] := rfl
  rw [hhanded]
  intro h
  obtain ⟨-, hsame⟩ := h [_] _ [] rfl rfl
  have hmem := hsame _ List.mem_cons_self (.direct 2) List.mem_cons_self
  revert hmem
  decide

end ConquerD.Client.Routing
