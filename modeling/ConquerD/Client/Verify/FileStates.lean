import ConquerD.Client.Verify.FileOwnership

/-!
# Transfers that are over

Through any calls a manager may get, an inbound transfer that ended keeps its
end and tells it once, and an outbound transfer that was stopped sends nothing
more. Four calls break this, since they write the state of a record without
asking for it; the condition under which a run is free of them is exact.
-/

namespace ConquerD.Client

open Std (ExtTreeMap)
open Lib.Run Lib.Encoding Wire

/-! ## What a call does to inbound transfers -/

/-- Inbound transfers that are over stay as they ended, unless they are offered
again; and every end that is told is that of a transfer that was not over, and is
now. -/
structure InboundStep (admitted : Option String) (ends : List String)
    (m m' : FileTransferManager) : Prop where
  nodup : ends.Nodup
  keeps : ∀ (t : String) (x' : InboundTransfer), m'.inbound[t]? = some x' → admitted = some t ∨
    ∃ x, m.inbound[t]? = some x ∧ (x'.state = x.state ∨ isTerminal x.state = false)
  ended : ∀ t ∈ ends, (∃ x, m.inbound[t]? = some x ∧ isTerminal x.state = false) ∧
    ∀ x', m'.inbound[t]? = some x' → isTerminal x'.state = true

namespace InboundStep

variable {admitted : Option String} {m m' : FileTransferManager} {t : String}
  {x x' : InboundTransfer}

theorem same (h : m'.inbound = m.inbound) : InboundStep admitted [] m m' := by
  refine ⟨.nil, fun t x' hx' => .inr ⟨x', ?_, .inl rfl⟩, nofun⟩
  rw [← h, hx']

theorem put (hx : m.inbound[t]? = some x) (hx' : m'.inbound[t]? = some x')
    (helse : ∀ u ≠ t, m'.inbound[u]? = m.inbound[u]?)
    (hstate : x'.state = x.state ∨ isTerminal x.state = false) : InboundStep admitted [] m m' := by
  refine ⟨.nil, fun u y hy => .inr ?_, nofun⟩
  by_cases hu : u = t
  · subst hu
    obtain rfl : x' = y := Option.some.inj (hx'.symm.trans hy)
    exact ⟨x, hx, hstate⟩
  · exact ⟨y, (helse u hu) ▸ hy, .inl rfl⟩

theorem finish (hx : m.inbound[t]? = some x) (hx' : m'.inbound[t]? = some x')
    (helse : ∀ u ≠ t, m'.inbound[u]? = m.inbound[u]?) (hopen : isTerminal x.state = false)
    (hover : isTerminal x'.state = true) : InboundStep admitted [t] m m' := by
  refine ⟨List.nodup_singleton t, (put hx hx' helse (.inr hopen)).keeps,
    fun u hu => ?_⟩
  obtain rfl : u = t := List.mem_singleton.mp hu
  refine ⟨⟨x, hx, hopen⟩, fun y hy => ?_⟩
  obtain rfl : x' = y := Option.some.inj (hx'.symm.trans hy)
  exact hover

theorem set (hx : m.inbound[t]? = some x)
    (hstate : x'.state = x.state ∨ isTerminal x.state = false) :
    InboundStep admitted [] m (m.setInbound t x') :=
  put hx (getElem?_setInbound _ _ _) (fun _ hu => getElem?_setInbound_of_ne m x' hu) hstate

theorem setOver (hx : m.inbound[t]? = some x) (hopen : isTerminal x.state = false)
    (hover : isTerminal x'.state = true) : InboundStep admitted [t] m (m.setInbound t x') :=
  finish hx (getElem?_setInbound _ _ _) (fun _ hu => getElem?_setInbound_of_ne m x' hu) hopen hover

end InboundStep

section Inbound

variable {P : Platform} {Z : Zlib} {env : FileEnv} {disk : Disk} {m : FileTransferManager}
  {admitted : Option String} {t : String} {x : InboundTransfer}

theorem failInbound_step (reason : String)
    (hopen : ∀ x, m.inbound[t]? = some x → isTerminal x.state = false) :
    InboundStep admitted (endsTold (m.failInbound env disk t reason).2.2) m
      (m.failInbound env disk t reason).1 := by
  cases hx : m.inbound[t]? with
  | none =>
    simp only [FileTransferManager.failInbound, hx]
    exact .same rfl
  | some x =>
    obtain ⟨hset, htold⟩ := failInbound_of_some env disk reason hx
    rw [hset, htold]
    exact .setOver hx (hopen x hx) rfl

/-- A transfer that is being finished; its record may have been written to just
before. -/
theorem finishInbound_step (P : Platform) (Z : Zlib) (env : FileEnv) (disk : Disk)
    (hx : m.inbound[t]? = some x) (hopen : isTerminal x.state = false)
    {y : InboundTransfer} (hstate : y.state = .transferring)
    (hwhole : y.chunksReceived = y.totalChunks) :
    InboundStep admitted
      (endsTold ((m.setInbound t y).finishInbound P Z env disk t).2.2) m
      ((m.setInbound t y).finishInbound P Z env disk t).1 := by
  rcases finishInbound_cases P Z env disk (getElem?_setInbound m t y) hstate hwhole with
    ⟨-, hidle⟩ | ⟨-, ⟨z, w, hset, -, hover⟩, htold⟩
  · rw [hidle]
    exact .set hx (.inr hopen)
  · rw [hset, htold]
    refine .finish hx (getElem?_setInbound _ _ _) (fun u hu => ?_) hopen hover
    rw [getElem?_setInbound_of_ne _ _ hu, getElem?_setInbound_of_ne _ _ hu,
      getElem?_setInbound_of_ne _ _ hu]

theorem onChunkBytesReceived_step (index : Nat) (chunk : Bytes) :
    InboundStep admitted (endsTold (m.onChunkBytesReceived P Z env disk t index chunk).2.2) m
      (m.onChunkBytesReceived P Z env disk t index chunk).1 := by
  unfold FileTransferManager.onChunkBytesReceived
  split
  · exact .same rfl
  · next x hx =>
    split
    · exact .same rfl
    · next hstate =>
      rw [not_not] at hstate
      have hopen : isTerminal x.state = false := by
        rw [hstate]
        rfl
      split
      · refine failInbound_step _ fun y hy => ?_
        rw [← Option.some.inj (hx.symm.trans hy)]
        exact hopen
      · next hindex =>
        rcases storeChunk_cases disk hindex chunk with
          ⟨-, hfalse⟩ | ⟨-, sink, disk', hstore, -⟩
        · generalize x.storeChunk env disk index chunk = r at hfalse
          obtain ⟨y, d, stored⟩ := r
          simp only at hfalse
          subst hfalse
          exact .same rfl
        · rw [hstore]
          simp only
          split
          · next hwhole =>
            rw [Bool.and_eq_true, beq_iff_eq] at hwhole
            exact finishInbound_step P Z env disk' hx hopen hstate hwhole.2
          · split
            · exact .set hx (.inl rfl)
            · exact .set hx (.inl rfl)

theorem onChunkReceived_step (index : Nat) (data : String)
    (hguard : P.decodeB64Std data = none →
      ∀ x, m.inbound[t]? = some x → isTerminal x.state = false) :
    InboundStep admitted (endsTold (m.onChunkReceived P Z env disk t index data).2.2) m
      (m.onChunkReceived P Z env disk t index data).1 := by
  unfold FileTransferManager.onChunkReceived
  split
  · exact onChunkBytesReceived_step _ _
  · next hdecode => exact failInbound_step _ (hguard hdecode)

theorem onCompleteReceived_step :
    InboundStep admitted (endsTold (m.onCompleteReceived P Z env disk t).2.2) m
      (m.onCompleteReceived P Z env disk t).1 := by
  unfold FileTransferManager.onCompleteReceived
  split
  · exact .same rfl
  · next x hx =>
    split
    · exact .same rfl
    · next hstate =>
      rw [not_not] at hstate
      split
      · exact .set hx (.inl rfl)
      · next hwhole =>
        rw [not_not] at hwhole
        have hopen : isTerminal x.state = false := by
          rw [hstate]
          rfl
        rcases finishInbound_cases P Z env disk hx hstate hwhole with
          ⟨-, hidle⟩ | ⟨-, ⟨z, w, hset, -, hover⟩, htold⟩
        · rw [hidle]
          exact .same rfl
        · rw [hset, htold]
          refine .finish hx (getElem?_setInbound _ _ _) (fun u hu => ?_) hopen hover
          rw [getElem?_setInbound_of_ne _ _ hu, getElem?_setInbound_of_ne _ _ hu]

theorem rejectTransfer_step (reason : String)
    (hguard : ∀ x, m.inbound[t]? = some x → isTerminal x.state = true → x.state = .rejected) :
    InboundStep admitted [] m (m.rejectTransfer t reason).1 := by
  unfold FileTransferManager.rejectTransfer
  split
  · exact .same rfl
  · next x hx =>
    refine .set hx ?_
    cases hover : isTerminal x.state with
    | false => exact .inr rfl
    | true => exact .inl (hguard x hx hover).symm

theorem inbound_cancelOutbound (t : String) : (m.cancelOutbound t).1.inbound = m.inbound := by
  unfold FileTransferManager.cancelOutbound
  split
  · rfl
  · split
    · rfl
    · rfl

theorem cancelTransfer_outbound
    (hidle : ∀ x, m.inbound[t]? = some x → x.state ≠ .pending ∧ x.state ≠ .transferring) :
    m.cancelTransfer t = m.cancelOutbound t := by
  unfold FileTransferManager.cancelTransfer
  split
  · rfl
  · next x hx =>
    obtain ⟨hpending, htransferring⟩ := hidle x hx
    split
    · next hstate => exact absurd hstate hpending
    · next hstate => exact absurd hstate htransferring
    · rfl

theorem cancelTransfer_step :
    InboundStep admitted
      (if (FileOp.cancelTransfer t).endsInbound m then endsTold (m.cancelTransfer t).2 else []) m
      (m.cancelTransfer t).1 := by
  have hother : (∀ x, m.inbound[t]? = some x → x.state ≠ .pending ∧ x.state ≠ .transferring) →
      InboundStep admitted
        (if (FileOp.cancelTransfer t).endsInbound m then endsTold (m.cancelTransfer t).2 else []) m
        (m.cancelTransfer t).1 := by
    intro hidle
    have hno : (FileOp.cancelTransfer t).endsInbound m = false := by
      rw [FileOp.endsInbound, beq_eq_false_iff_ne]
      intro heq
      obtain ⟨x, hx, hstate⟩ := Option.map_eq_some_iff.mp heq
      exact (hidle x hx).2 hstate
    rw [hno, cancelTransfer_outbound hidle]
    exact .same (inbound_cancelOutbound t)
  have hends : ∀ x, m.inbound[t]? = some x →
      (FileOp.cancelTransfer t).endsInbound m = (some x.state == some TransferState.transferring) := by
    intro x hx
    rw [FileOp.endsInbound, hx, Option.map_some]
  rcases Option.eq_none_or_eq_some m.inbound[t]? with hx | ⟨x, hx⟩
  · refine hother fun x hx' => ?_
    rw [hx] at hx'
    cases hx'
  · by_cases hpending : x.state = .pending
    · have hreject : m.cancelTransfer t = m.rejectTransfer t "cancelled" := by
        simp only [FileTransferManager.cancelTransfer, hx, hpending]
      rw [hends x hx, hpending, hreject]
      refine rejectTransfer_step _ fun y hy hover => ?_
      rw [← Option.some.inj (hx.symm.trans hy), hpending] at hover
      cases hover
    · by_cases htransferring : x.state = .transferring
      · rw [hends x hx, htransferring]
        simp only [FileTransferManager.cancelTransfer, hx, htransferring]
        refine InboundStep.setOver hx ?_ ?_
        · rw [htransferring]
          rfl
        · rfl
      · refine hother fun y hy => ?_
        rw [← Option.some.inj (hx.symm.trans hy)]
        exact ⟨hpending, htransferring⟩

theorem acceptTransfer_step : InboundStep admitted [] m (m.acceptTransfer t).1 := by
  unfold FileTransferManager.acceptTransfer
  split
  · exact .same rfl
  · next x hx =>
    split
    · exact .same rfl
    · next hstate =>
      rw [not_not] at hstate
      refine .set hx (.inr ?_)
      rw [hstate]
      rfl

theorem acceptTransferLocally_step : InboundStep admitted [] m (m.acceptTransferLocally t).1 := by
  unfold FileTransferManager.acceptTransferLocally
  split
  · exact .same rfl
  · next x hx =>
    split
    · exact .same rfl
    · next hstate =>
      rw [not_not] at hstate
      refine .set hx (.inr ?_)
      rw [hstate]
      rfl

theorem gc_step (env : FileEnv) (disk : Disk) : InboundStep admitted [] m (m.gc env disk).1 := by
  refine ⟨.nil, fun t x' hx' => .inr ?_, nofun⟩
  simp only [FileTransferManager.gc, ExtTreeMap.getElem?_filter', ExtTreeMap.getElem?_map] at hx'
  obtain ⟨x, hx, rfl⟩ := Option.map_eq_some_iff.mp (Option.filter_eq_some_iff.mp hx').1
  exact ⟨x, hx, .inl rfl⟩

end Inbound

/-! ## What a call does to outbound transfers -/

/-- The transfer may still send. -/
def OutboundTransfer.Running (x : OutboundTransfer) : Prop :=
  x.state = .pending ∨ x.state = .transferring

/-- The record is of the same file under the same id. -/
structure SameFile (x' x : OutboundTransfer) : Prop where
  transferId : x'.transferId = x.transferId
  source : x'.source = x.source
  totalChunks : x'.totalChunks = x.totalChunks

/-- Outbound transfers that are not running do not start again, and send
nothing, unless they are offered anew or revived. -/
structure OutboundStep (offered revived : Option String) (sent : List String)
    (m m' : FileTransferManager) : Prop where
  keeps : ∀ (t : String) (x' : OutboundTransfer), m'.outbound[t]? = some x' →
    (offered = some t ∧ x'.transferId = t) ∨ ∃ x, m.outbound[t]? = some x ∧
      SameFile x' x ∧ (x'.Running → x.Running ∨ revived = some t)
  sent : ∀ t ∈ sent, offered = some t ∨
    ∃ x, m.outbound[t]? = some x ∧ (x.Running ∨ revived = some t)

namespace OutboundStep

variable {offered revived : Option String} {sent : List String} {m m' : FileTransferManager}
  {t : String} {x x' : OutboundTransfer}

theorem kept (h : ∀ (u : String) (y : OutboundTransfer), m'.outbound[u]? = some y →
    ∃ x, m.outbound[u]? = some x ∧ SameFile y x ∧ y.state = x.state) :
    OutboundStep offered revived [] m m' := by
  refine ⟨fun u y hy => .inr ?_, nofun⟩
  obtain ⟨x, hx, hid, hstate⟩ := h u y hy
  refine ⟨x, hx, hid, fun hrun => .inl ?_⟩
  rw [OutboundTransfer.Running, ← hstate]
  exact hrun

theorem same (h : m'.outbound = m.outbound) : OutboundStep offered revived [] m m' := by
  refine kept fun u y hy => ⟨y, ?_, ⟨rfl, rfl, rfl⟩, rfl⟩
  rw [← h, hy]

theorem set (hx : m.outbound[t]? = some x) (hid : SameFile x' x)
    (hrun : x'.Running → x.Running ∨ revived = some t)
    (hsent : ∀ u ∈ sent, u = t ∧ (x.Running ∨ revived = some t)) :
    OutboundStep offered revived sent m (m.setOutbound t x') := by
  refine ⟨fun u y hy => .inr ?_, fun u hu => .inr ?_⟩
  · by_cases hut : u = t
    · subst hut
      rw [getElem?_setOutbound] at hy
      obtain rfl := Option.some.inj hy
      exact ⟨x, hx, hid, hrun⟩
    · rw [getElem?_setOutbound_of_ne m x' hut] at hy
      exact ⟨y, hy, ⟨rfl, rfl, rfl⟩, .inl⟩
  · obtain ⟨rfl, hactive⟩ := hsent u hu
    exact ⟨x, hx, hactive⟩

theorem rest (hx : m.outbound[t]? = some x) (hid : SameFile x' x)
    (hrest : ¬ x'.Running) : OutboundStep offered revived [] m (m.setOutbound t x') :=
  set hx hid (fun hrun => absurd hrun hrest) nofun

end OutboundStep

section Outbound

variable {P : Platform} {Z : Zlib} {env : FileEnv} {disk : Disk} {m : FileTransferManager}
  {offered revived : Option String} {t : String} {x : OutboundTransfer}

theorem fileDataSent_eq (evs : List TransferEvent) :
    fileDataSent evs = (fileFrames evs).map frameId := by
  rw [fileFrames, List.map_filterMap, fileDataSent]
  congr 1
  funext e
  cases e with
  | sendMessage peerId f =>
    cases f with
    | _ => rfl
  | _ => rfl

theorem fileDataSent_eq_nil {evs : List TransferEvent} (h : NoFileData evs) :
    fileDataSent evs = [] := by
  rw [List.eq_nil_iff_forall_not_mem]
  intro u hu
  obtain ⟨e, he, hsent⟩ := List.mem_filterMap.mp hu
  cases e with
  | sendMessage peerId f =>
    have hf := h f (List.mem_filterMap.mpr ⟨_, he, rfl⟩)
    cases f with
    | chunk => cases hf
    | complete => cases hf
    | _ => cases hsent
  | _ => cases hsent

theorem mem_fileDataSent_nextChunkEvents {budget : Nat} {u : String}
    (hu : u ∈ fileDataSent (nextChunkEvents P env disk budget x).2.1) : u = x.transferId := by
  rw [fileDataSent_eq] at hu
  obtain ⟨f, hf, rfl⟩ := List.mem_map.mp hu
  exact (nextChunkEvents_transferId P env disk budget x).2 f hf

theorem emitChunks_sameFile (P : Platform) (env : FileEnv) (disk : Disk) (budget : Nat)
    {y : OutboundTransfer} (h : SameFile x y) : SameFile (emitChunks P env disk budget x).1 y := by
  induction budget generalizing x with
  | zero => exact h
  | succ budget ih =>
    unfold emitChunks
    split
    · split
      · exact ⟨h.transferId, h.source, h.totalChunks⟩
      · exact ih ⟨h.transferId, h.source, h.totalChunks⟩
    · exact h

theorem nextChunkEvents_sameFile (P : Platform) (env : FileEnv) (disk : Disk) (budget : Nat)
    {y : OutboundTransfer} (h : SameFile x y) :
    SameFile (nextChunkEvents P env disk budget x).1 y := by
  have hemit := emitChunks_sameFile P env disk budget h
  unfold nextChunkEvents
  generalize emitChunks P env disk budget x = r at hemit
  obtain ⟨x', evs, read⟩ := r
  cases read with
  | false => exact hemit
  | true =>
    simp only
    split
    · exact hemit
    · exact hemit

theorem startStreamFor_step (hkeyed : m.Keyed) (requester : String) (budget : Nat) :
    OutboundStep offered (some t) (fileDataSent (m.startStreamFor P env disk t requester budget).2)
      m (m.startStreamFor P env disk t requester budget).1 := by
  unfold FileTransferManager.startStreamFor
  split
  · exact .same rfl
  · next x hx =>
    refine .set hx (nextChunkEvents_sameFile _ _ _ _ ⟨rfl, rfl, rfl⟩) (fun _ => .inr rfl) fun u hu => ?_
    exact ⟨(mem_fileDataSent_nextChunkEvents hu).trans (hkeyed t x hx), .inr rfl⟩

theorem pumpStream_step (hkeyed : m.Keyed) (budget : Nat) :
    OutboundStep offered revived (fileDataSent (m.pumpStream P env disk t budget).2.1) m
      (m.pumpStream P env disk t budget).1 := by
  unfold FileTransferManager.pumpStream
  split
  · exact .same rfl
  · next x hx =>
    split
    · exact .same rfl
    · next hstate =>
      rw [not_not] at hstate
      refine .set hx (nextChunkEvents_sameFile _ _ _ _ ⟨rfl, rfl, rfl⟩) (fun _ => .inl (.inr hstate))
        fun u hu => ?_
      exact ⟨(mem_fileDataSent_nextChunkEvents hu).trans (hkeyed t x hx), .inl (.inr hstate)⟩

theorem onTransferAccepted_step (hkeyed : m.Keyed) :
    OutboundStep offered revived (fileDataSent (m.onTransferAccepted P env disk t).2) m
      (m.onTransferAccepted P env disk t).1 := by
  rcases Option.eq_none_or_eq_some m.outbound[t]? with hx | ⟨x, hx⟩
  · simp only [FileTransferManager.onTransferAccepted, hx]
    exact .same rfl
  · by_cases hpending : x.state = .pending
    · obtain ⟨budget, haccept⟩ := onTransferAccepted_cases P env disk hx hpending
      rw [haccept]
      refine .set hx (nextChunkEvents_sameFile _ _ _ _ ⟨rfl, rfl, rfl⟩) (fun _ => .inl (.inl hpending))
        fun u hu => ?_
      exact ⟨(mem_fileDataSent_nextChunkEvents hu).trans (hkeyed t x hx), .inl (.inl hpending)⟩
    · simp only [FileTransferManager.onTransferAccepted, hx, ne_eq, hpending, not_false_eq_true,
        if_true]
      exact .same rfl

theorem noteSendStalled_step : OutboundStep offered revived [] m (m.noteSendStalled env t).1 := by
  unfold FileTransferManager.noteSendStalled
  split
  · exact .same rfl
  · next x hx =>
    simp only
    split
    · exact .rest hx ⟨rfl, rfl, rfl⟩ nofun
    · exact .set hx ⟨rfl, rfl, rfl⟩ .inl nofun

theorem noteSendProgress_step : OutboundStep offered revived [] m (m.noteSendProgress t) := by
  unfold FileTransferManager.noteSendProgress
  split
  · exact .same rfl
  · next x hx => exact .set hx ⟨rfl, rfl, rfl⟩ .inl nofun

theorem markOutboundComplete_step :
    OutboundStep offered revived [] m (m.markOutboundComplete env t) := by
  unfold FileTransferManager.markOutboundComplete
  split
  · exact .same rfl
  · next x hx => exact .rest hx ⟨rfl, rfl, rfl⟩ nofun

/-- The outbound transfer a call may start again although it was over. -/
def FileOp.revives (m : FileTransferManager) : FileOp → Option String
  | startStreamFor t _ _ => some t
  | unsendChunks t _ =>
    if (m.outbound[t]?.map OutboundTransfer.state) = some .complete then some t else none
  | _ => none

theorem unsendChunks_step (n : Nat) :
    OutboundStep offered ((FileOp.unsendChunks t n).revives m) [] m (m.unsendChunks t n) := by
  unfold FileTransferManager.unsendChunks
  split
  · exact .same rfl
  · next x hx =>
    refine .set hx ?_ (fun hrun => ?_) nofun
    · split
      · exact ⟨rfl, rfl, rfl⟩
      · exact ⟨rfl, rfl, rfl⟩
    · by_cases hcomplete : x.state = .complete
      · refine .inr ?_
        rw [FileOp.revives, hx, Option.map_some, hcomplete, if_pos rfl]
      · simp only [if_neg hcomplete] at hrun
        exact .inl hrun

theorem cancelOutbound_step : OutboundStep offered revived [] m (m.cancelOutbound t).1 := by
  unfold FileTransferManager.cancelOutbound
  split
  · exact .same rfl
  · next x hx =>
    split
    · exact .rest hx ⟨rfl, rfl, rfl⟩ nofun
    · exact .same rfl

theorem outbound_rejectTransfer (m : FileTransferManager) (t reason : String) :
    (m.rejectTransfer t reason).1.outbound = m.outbound ∧
      fileDataSent (m.rejectTransfer t reason).2 = [] := by
  unfold FileTransferManager.rejectTransfer
  split
  · exact ⟨rfl, rfl⟩
  · exact ⟨rfl, rfl⟩

theorem fileDataSent_cancelOutbound : fileDataSent (m.cancelOutbound t).2 = [] := by
  unfold FileTransferManager.cancelOutbound
  split
  · rfl
  · split
    · rfl
    · rfl

theorem cancelTransfer_outboundStep :
    OutboundStep offered revived (fileDataSent (m.cancelTransfer t).2) m
      (m.cancelTransfer t).1 := by
  unfold FileTransferManager.cancelTransfer
  split
  · rw [fileDataSent_cancelOutbound]
    exact cancelOutbound_step
  · split
    · obtain ⟨hsame, hquiet⟩ := outbound_rejectTransfer m t "cancelled"
      rw [hquiet]
      exact .same hsame
    · exact .same rfl
    · rw [fileDataSent_cancelOutbound]
      exact cancelOutbound_step

theorem onTransferRejected_step :
    OutboundStep offered revived (fileDataSent (m.onTransferRejected t).2) m
      (m.onTransferRejected t).1 := by
  unfold FileTransferManager.onTransferRejected
  split
  · exact .same rfl
  · next x hx => exact .rest hx ⟨rfl, rfl, rfl⟩ nofun

theorem onTransferAck_step :
    OutboundStep offered revived (fileDataSent (m.onTransferAck env t).2) m
      (m.onTransferAck env t).1 := by
  unfold FileTransferManager.onTransferAck
  split
  · exact .same rfl
  · next x hx => exact .rest hx ⟨rfl, rfl, rfl⟩ nofun

theorem onTransferError_step (reason : String) :
    OutboundStep offered revived (fileDataSent (m.onTransferError t reason).2) m
      (m.onTransferError t reason).1 := by
  unfold FileTransferManager.onTransferError
  split
  · exact .same rfl
  · next x hx => exact .rest hx ⟨rfl, rfl, rfl⟩ nofun

theorem outbound_gc (env : FileEnv) (disk : Disk) {u : String} {y : OutboundTransfer}
    (h : (m.gc env disk).1.outbound[u]? = some y) :
    ∃ x, m.outbound[u]? = some x ∧
      y = { x with finishedAt := FileTransferManager.stamped env x.state x.finishedAt } := by
  simp only [FileTransferManager.gc, ExtTreeMap.getElem?_filter', ExtTreeMap.getElem?_map] at h
  obtain ⟨x, hx, rfl⟩ := Option.map_eq_some_iff.mp (Option.filter_eq_some_iff.mp h).1
  exact ⟨x, hx, rfl⟩

theorem outbound_revokeOutbound {u : String} {y : OutboundTransfer}
    (h : (m.revokeOutbound t).1.outbound[u]? = some y) : m.outbound[u]? = some y := by
  simp only [FileTransferManager.revokeOutbound, ExtTreeMap.getElem?_erase] at h
  split at h
  · cases h
  · exact h

theorem gc_outboundStep (env : FileEnv) (disk : Disk) :
    OutboundStep offered revived [] m (m.gc env disk).1 := by
  refine .kept fun u y hy => ?_
  obtain ⟨x, hx, rfl⟩ := outbound_gc env disk hy
  exact ⟨x, hx, ⟨rfl, rfl, rfl⟩, rfl⟩

theorem revokeOutbound_step : OutboundStep offered revived [] m (m.revokeOutbound t).1 :=
  .kept fun _ y hy => ⟨y, outbound_revokeOutbound hy, ⟨rfl, rfl, rfl⟩, rfl⟩

theorem OutboundStep.offer {sent : List String} (hid : x.transferId = t)
    (hsent : ∀ u ∈ sent, u = t) :
    OutboundStep (some t) revived sent m (m.setOutbound t x) := by
  refine ⟨fun u y hy => ?_, fun u hu => .inl (congrArg some (hsent u hu).symm)⟩
  by_cases hu : u = t
  · subst hu
    rw [getElem?_setOutbound] at hy
    cases hy
    exact .inl ⟨rfl, hid⟩
  · rw [getElem?_setOutbound_of_ne m x hu] at hy
    exact .inr ⟨y, hy, ⟨rfl, rfl, rfl⟩, .inl⟩

theorem OutboundStep.push (peerId : String) (f : FileMessage) (hf : f.isFileData = false)
    (hid : x.transferId = t) :
    OutboundStep (some t) revived
      (fileDataSent (.sendMessage peerId f :: (buildChunkEvents P env disk x).2)) m
      (m.setOutbound t (buildChunkEvents P env disk x).1) := by
  refine .offer ((nextChunkEvents_transferId P env disk _ x).1.trans hid) fun u hu => ?_
  have hquiet : fileDataSent (.sendMessage peerId f :: (buildChunkEvents P env disk x).2) =
      fileDataSent (buildChunkEvents P env disk x).2 := by
    cases f with
    | chunk => cases hf
    | complete => cases hf
    | _ => rfl
  rw [hquiet] at hu
  exact (mem_fileDataSent_nextChunkEvents hu).trans hid

/-- An offer of ours: its record is put in under its id, and all it sends is its
own. -/
theorem insertOffer_step (peerId relPath : String) (source : TransferSource) (info : OfferMeta)
    (autoPush : Bool) {tid : String} (htid : info.transferId = tid) :
    OutboundStep (some tid) revived
        (fileDataSent (m.insertOffer P env disk peerId relPath source info autoPush).2.2) m
        (m.insertOffer P env disk peerId relPath source info autoPush).1 ∧
      (m.insertOffer P env disk peerId relPath source info autoPush).1.inbound = m.inbound := by
  subst htid
  unfold FileTransferManager.insertOffer
  cases autoPush with
  | false => exact ⟨.offer rfl nofun, rfl⟩
  | true => exact ⟨.push _ _ rfl rfl, rfl⟩

theorem offerFile_step (revived : Option String) (peerId relPath : String) (data : Bytes)
    (purpose : String) (oldData : Option Bytes) (autoPush : Bool) (tid : Option String) :
    OutboundStep ((FileOp.offerFile peerId relPath data purpose oldData autoPush tid).offers env disk)
        revived (fileDataSent ((FileOp.offerFile peerId relPath data purpose oldData autoPush
          tid).apply P Z env disk m).2.2) m
        ((FileOp.offerFile peerId relPath data purpose oldData autoPush tid).apply P Z env disk m).1 ∧
      ((FileOp.offerFile peerId relPath data purpose oldData autoPush tid).apply P Z env disk
        m).1.inbound = m.inbound := by
  simp only [FileOp.offers, FileOp.apply, FileTransferManager.offerFileWithId]
  by_cases hlarge : data.length > inlineMax
  · simp only [if_pos hlarge]
    exact ⟨.same rfl, rfl⟩
  · simp only [if_neg hlarge, FileOp.offered]
    exact insertOffer_step _ _ _ _ _ rfl

theorem offerFileFromPath_step (revived : Option String) (peerId relPath path purpose : String)
    (autoPush : Bool) (tid : Option String) :
    OutboundStep ((FileOp.offerFileFromPath peerId relPath path purpose autoPush tid).offers env disk)
        revived (fileDataSent ((FileOp.offerFileFromPath peerId relPath path purpose autoPush
          tid).apply P Z env disk m).2.2) m
        ((FileOp.offerFileFromPath peerId relPath path purpose autoPush tid).apply P Z env disk m).1 ∧
      ((FileOp.offerFileFromPath peerId relPath path purpose autoPush tid).apply P Z env disk
        m).1.inbound = m.inbound := by
  simp only [FileOp.offers, FileOp.apply, FileTransferManager.offerFileFromPathWithId]
  rcases Option.eq_none_or_eq_some disk[path]? with hpath | ⟨content, hpath⟩
  · simp only [hpath]
    exact ⟨.same rfl, rfl⟩
  · simp only [hpath]
    by_cases hlarge : content.length > maxTransferSize
    · simp only [if_pos hlarge]
      exact ⟨.same rfl, rfl⟩
    · simp only [if_neg hlarge, FileOp.offered]
      exact insertOffer_step _ _ _ _ _ rfl

end Outbound

/-! ## Every call -/

/-- The call does not write over the end of a transfer, and revives none that was
stopped: nothing that is over is rejected, no chunk that cannot be decoded
arrives for it, no stream of a stopped transfer is asked for, and no chunks of
one are taken back when it counts as complete. -/
def FileLog.Guarded (P : Platform) (L : FileLog) (s : FileEnv × FileOp) : Prop :=
  match s.2 with
  | .rejectTransfer t _ => ∀ x, L.manager.inbound[t]? = some x → isTerminal x.state = true →
      x.state = .rejected
  | .onChunkReceived t _ data => P.decodeB64Std data = none →
      ∀ x, L.manager.inbound[t]? = some x → isTerminal x.state = false
  | .startStreamFor t _ _ => t ∈ L.stopped → L.manager.outbound[t]? = none
  | .unsendChunks t _ => t ∈ L.stopped →
      ∀ x, L.manager.outbound[t]? = some x → x.state ≠ .complete
  | _ => True

section Calls

variable {P : Platform} {Z : Zlib} {L : FileLog} {env : FileEnv}

/-- The call is no matter of inbound transfers. -/
def FileOp.outward : FileOp → Bool
  | gc | discardInbound _ | onOfferReceived .. | acceptTransfer _ | acceptTransferLocally _
  | rejectTransfer .. | cancelTransfer _ | onChunkReceived .. | onChunkBytesReceived ..
  | onCompleteReceived _ => false
  | _ => true

theorem inbound_apply (P : Platform) (Z : Zlib) (env : FileEnv) (disk : Disk)
    (m : FileTransferManager) {op : FileOp} (h : op.outward = true) :
    (op.apply P Z env disk m).1.inbound = m.inbound := by
  cases op with
  | startStreamFor t requester budget =>
    simp only [FileOp.apply, FileTransferManager.startStreamFor]
    split
    · rfl
    · rfl
  | pumpStream t budget =>
    simp only [FileOp.apply, FileTransferManager.pumpStream]
    split
    · rfl
    · split
      · rfl
      · rfl
  | noteSendStalled t =>
    simp only [FileOp.apply, FileTransferManager.noteSendStalled]
    split
    · rfl
    · split
      · rfl
      · rfl
  | noteSendProgress t =>
    simp only [FileOp.apply, FileTransferManager.noteSendProgress]
    split
    · rfl
    · rfl
  | unsendChunks t n =>
    simp only [FileOp.apply, FileTransferManager.unsendChunks]
    split
    · rfl
    · rfl
  | markOutboundComplete t =>
    simp only [FileOp.apply, FileTransferManager.markOutboundComplete]
    split
    · rfl
    · rfl
  | offerFile => exact (offerFile_step none _ _ _ _ _ _ _).2
  | offerFileFromPath => exact (offerFileFromPath_step none _ _ _ _ _ _).2
  | onTransferAccepted t =>
    simp only [FileOp.apply, FileTransferManager.onTransferAccepted]
    split
    · rfl
    · split
      · rfl
      · rfl
  | onTransferRejected t => exact (onTransferRejected_effect m t).inbound
  | onTransferAck t => exact (onTransferAck_effect env m t).inbound
  | onTransferError t reason => exact (onTransferError_effect m t reason).inbound
  | setOldFileData => rfl
  | revokeOutbound => rfl
  | touchDisk => rfl
  | _ => cases h

theorem endsInbound_outward {m : FileTransferManager} {op : FileOp} (h : op.outward = true) :
    op.endsInbound m = false := by
  cases op with
  | cancelTransfer => cases h
  | onChunkReceived => cases h
  | onChunkBytesReceived => cases h
  | onCompleteReceived => cases h
  | _ => rfl

theorem apply_inboundStep (Z : Zlib) (op : FileOp) (hguard : L.Guarded P (env, op)) :
    InboundStep (op.admits env L.disk)
      (if op.endsInbound L.manager then endsTold (op.apply P Z env L.disk L.manager).2.2 else [])
      L.manager (op.apply P Z env L.disk L.manager).1 := by
  cases houtward : op.outward with
  | true =>
    rw [endsInbound_outward houtward]
    exact .same (inbound_apply P Z env L.disk L.manager houtward)
  | false =>
    cases op with
    | gc => exact gc_step env L.disk
    | discardInbound t =>
      refine ⟨.nil, fun u y hy => .inr ?_, fun u hu => by cases hu⟩
      simp only [FileOp.apply, FileTransferManager.discardInbound, ExtTreeMap.getElem?_erase] at hy
      split at hy
      · cases hy
      · exact ⟨y, hy, .inl rfl⟩
    | onOfferReceived peerId roomId supernodeId o =>
      simp only [FileOp.admits, FileOp.apply, FileTransferManager.onOfferReceivedWithRoom]
      cases hsink : FileTransferManager.offerSink env L.disk o with
      | error reason => exact .same rfl
      | ok r =>
        refine ⟨.nil, fun u y hy => ?_, fun u hu => by cases hu⟩
        by_cases hu : u = o.transferId
        · exact .inl (congrArg some hu.symm)
        · rw [getElem?_setInbound_of_ne _ _ hu] at hy
          exact .inr ⟨y, hy, .inl rfl⟩
    | acceptTransfer t => exact acceptTransfer_step
    | acceptTransferLocally t => exact acceptTransferLocally_step
    | rejectTransfer t reason => exact rejectTransfer_step reason hguard
    | cancelTransfer t => exact cancelTransfer_step
    | onChunkReceived t i data => exact onChunkReceived_step i data hguard
    | onChunkBytesReceived t i chunk => exact onChunkBytesReceived_step i chunk
    | onCompleteReceived t => exact onCompleteReceived_step
    | _ => cases houtward

/-- The call is no matter of outbound transfers. -/
def FileOp.inward : FileOp → Bool
  | setOldFileData .. | discardInbound _ | onOfferReceived .. | acceptTransfer _
  | acceptTransferLocally _ | rejectTransfer .. | onChunkReceived .. | onChunkBytesReceived ..
  | onCompleteReceived _ | touchDisk _ => true
  | _ => false

theorem outbound_apply (P : Platform) (Z : Zlib) (env : FileEnv) (disk : Disk)
    (m : FileTransferManager) {op : FileOp} (h : op.inward = true) :
    (op.apply P Z env disk m).1.outbound = m.outbound ∧
      fileDataSent (op.apply P Z env disk m).2.2 = [] := by
  cases op with
  | setOldFileData => exact ⟨rfl, rfl⟩
  | discardInbound t => exact ⟨rfl, rfl⟩
  | onOfferReceived peerId roomId supernodeId o =>
    refine ⟨?_, fileDataSent_eq_nil (noFileData_onOfferReceivedWithRoom _ _ _ _)⟩
    simp only [FileOp.apply, FileTransferManager.onOfferReceivedWithRoom]
    split
    · rfl
    · rfl
  | acceptTransfer t =>
    simp only [FileOp.apply, FileTransferManager.acceptTransfer]
    split
    · exact ⟨rfl, rfl⟩
    · split
      · exact ⟨rfl, rfl⟩
      · exact ⟨rfl, rfl⟩
  | acceptTransferLocally t =>
    simp only [FileOp.apply, FileTransferManager.acceptTransferLocally]
    split
    · exact ⟨rfl, rfl⟩
    · split
      · exact ⟨rfl, rfl⟩
      · exact ⟨rfl, rfl⟩
  | rejectTransfer t reason => exact outbound_rejectTransfer m t reason
  | onChunkReceived t i data =>
    refine ⟨?_, fileDataSent_eq_nil (noFileData_onChunkReceived _ _)⟩
    simp only [FileOp.apply, FileTransferManager.onChunkReceived]
    split
    · exact (onChunkBytesReceived_effect _ _).outbound
    · exact (failInbound_effect _ _ _ _ _).outbound
  | onChunkBytesReceived t i chunk =>
    exact ⟨(onChunkBytesReceived_effect _ _).outbound,
      fileDataSent_eq_nil (noFileData_onChunkBytesReceived _ _)⟩
  | onCompleteReceived t =>
    exact ⟨onCompleteReceived_effect.outbound, fileDataSent_eq_nil noFileData_onCompleteReceived⟩
  | touchDisk disk => exact ⟨rfl, rfl⟩
  | _ => cases h

theorem apply_outboundStep (P : Platform) (Z : Zlib) (env : FileEnv) (op : FileOp)
    (hkeyed : L.manager.Keyed) :
    OutboundStep (op.offers env L.disk) (op.revives L.manager)
      (fileDataSent (op.apply P Z env L.disk L.manager).2.2) L.manager
      (op.apply P Z env L.disk L.manager).1 := by
  cases hinward : op.inward with
  | true =>
    obtain ⟨hsame, hquiet⟩ := outbound_apply P Z env L.disk L.manager hinward
    rw [hquiet]
    exact .same hsame
  | false =>
    cases op with
    | gc => exact gc_outboundStep env L.disk
    | startStreamFor t requester budget => exact startStreamFor_step hkeyed requester budget
    | pumpStream t budget => exact pumpStream_step hkeyed budget
    | revokeOutbound t => exact revokeOutbound_step
    | noteSendStalled t => exact noteSendStalled_step
    | noteSendProgress t => exact noteSendProgress_step
    | unsendChunks t n => exact unsendChunks_step n
    | markOutboundComplete t => exact markOutboundComplete_step
    | offerFile => exact (offerFile_step _ _ _ _ _ _ _ _).1
    | offerFileFromPath => exact (offerFileFromPath_step _ _ _ _ _ _ _).1
    | onTransferAccepted t => exact onTransferAccepted_step hkeyed
    | onTransferRejected t => exact onTransferRejected_step
    | onTransferAck t => exact onTransferAck_step
    | onTransferError t reason => exact onTransferError_step reason
    | cancelTransfer t => exact cancelTransfer_outboundStep
    | _ => cases hinward

theorem not_running_of_stops (op : FileOp) {t : String} (h : op.stops L.manager = some t)
    {x : OutboundTransfer}
    (hx : (op.apply P Z env L.disk L.manager).1.outbound[t]? = some x) : ¬ x.Running := by
  cases op with
  | revokeOutbound u =>
    simp only [FileOp.stops] at h
    split at h
    · cases h
      simp [FileOp.apply, FileTransferManager.revokeOutbound] at hx
    · cases h
  | onTransferRejected u =>
    simp only [FileOp.stops] at h
    split at h
    · cases h
      obtain ⟨y, hy⟩ : ∃ y, L.manager.outbound[t]? = some y := by
        rw [← Option.isSome_iff_exists, ← ExtTreeMap.contains_eq_isSome_getElem?]
        assumption
      simp only [FileOp.apply, FileTransferManager.onTransferRejected, hy,
        getElem?_setOutbound] at hx
      cases hx
      rintro (hstate | hstate)
      · cases hstate
      · cases hstate
    · cases h
  | cancelTransfer u =>
    simp only [FileOp.stops] at h
    split at h
    · next hcancelled =>
      cases h
      simp only [FileOp.apply] at hx
      rw [hx, Option.map_some, Option.some.injEq] at hcancelled
      rw [OutboundTransfer.Running, hcancelled]
      rintro (hstate | hstate)
      · cases hstate
      · cases hstate
    · cases h
  | _ => cases h

theorem not_stopped_of_revives (op : FileOp) (hguard : L.Guarded P (env, op)) {t : String}
    (h : op.revives L.manager = some t) {x : OutboundTransfer}
    (hx : L.manager.outbound[t]? = some x) : t ∉ L.stopped := by
  intro hstopped
  cases op with
  | startStreamFor u _ _ =>
    cases h
    rw [hguard hstopped] at hx
    cases hx
  | unsendChunks u _ =>
    simp only [FileOp.revives] at h
    split at h
    · next hcomplete =>
      cases h
      rw [hx, Option.map_some, Option.some.injEq] at hcomplete
      exact hguard hstopped x hx hcomplete
    · cases h
  | _ => cases h

end Calls

/-! ## Every run -/

theorem mem_forget {t : Option String} {names : List String} {name : String} :
    name ∈ FileLog.forget t names ↔ name ∈ names ∧ t ≠ some name := by
  simp [FileLog.forget]

/-- What a guarded run keeps. -/
structure EndsInv (L : FileLog) : Prop where
  /-- An end is told once. -/
  once : L.ended.Nodup
  /-- A transfer whose end was told is over. -/
  past : ∀ t ∈ L.ended, ∀ x, L.manager.inbound[t]? = some x → isTerminal x.state = true
  keyed : L.manager.Keyed
  rests : ∀ t ∈ L.stopped, ∀ x, L.manager.outbound[t]? = some x → ¬ x.Running
  strays : L.strays = []

section Run

variable {P : Platform} {Z : Zlib} {L : FileLog} {s : FileEnv × FileOp}

theorem keyed_step (h : L.manager.Keyed) : (L.step P Z s).manager.Keyed := by
  intro t x' hx'
  rcases (apply_outboundStep P Z s.1 s.2 h).keeps t x' hx' with ⟨-, hid⟩ | ⟨x, hx, hid, -⟩
  · exact hid
  · exact hid.transferId.trans (h t x hx)

theorem keyed_start (disk : Disk) : (FileLog.start disk).manager.Keyed := by
  intro t x hx
  simp [FileLog.start, FileTransferManager.new] at hx

theorem keyed_run (P : Platform) (Z : Zlib) (disk : Disk) (steps : List (FileEnv × FileOp)) :
    (run (FileLog.step P Z) (.start disk) steps).manager.Keyed :=
  run_inv (fun L : FileLog => L.manager.Keyed) (keyed_start disk) fun _ _ hL => keyed_step hL

theorem EndsInv.step (h : EndsInv L) (hguard : L.Guarded P s) : EndsInv (L.step P Z s) := by
  obtain ⟨env, op⟩ := s
  have hin := apply_inboundStep Z op hguard
  have hout := apply_outboundStep P Z env op h.keyed
  refine ⟨?_, ?_, ?_, ?_, ?_⟩
  · refine List.nodup_append'.mpr ⟨hin.nodup, h.once.filter _, fun t hnew hold => ?_⟩
    obtain ⟨⟨x, hx, hopen⟩, -⟩ := hin.ended t hnew
    rw [h.past t (mem_forget.mp hold).1 x hx] at hopen
    cases hopen
  · intro t ht x' hx'
    rcases List.mem_append.mp ht with hnew | hold
    · exact (hin.ended t hnew).2 x' hx'
    · obtain ⟨hended, hadmitted⟩ := mem_forget.mp hold
      rcases hin.keeps t x' hx' with hagain | ⟨x, hx, hstate | hopen⟩
      · exact absurd hagain hadmitted
      · rw [hstate]
        exact h.past t hended x hx
      · rw [h.past t hended x hx] at hopen
        cases hopen
  · exact keyed_step h.keyed
  · intro t ht x' hx'
    rcases List.mem_append.mp ht with hnew | hold
    · exact not_running_of_stops op (Option.mem_toList.mp hnew) hx'
    · obtain ⟨hstopped, hoffered⟩ := mem_forget.mp hold
      intro hrun
      rcases hout.keeps t x' hx' with ⟨hagain, -⟩ | ⟨x, hx, -, hkeeps⟩
      · exact hoffered hagain
      · rcases hkeeps hrun with hran | hrevived
        · exact h.rests t hstopped x hx hran
        · exact not_stopped_of_revives op hguard hrevived hx hstopped
  · have hnone : ∀ t ∈ fileDataSent (op.apply P Z env L.disk L.manager).2.2,
        t ∉ FileLog.forget (op.offers env L.disk) L.stopped := by
      intro t ht hold
      obtain ⟨hstopped, hoffered⟩ := mem_forget.mp hold
      rcases hout.sent t ht with hagain | ⟨x, hx, hran | hrevived⟩
      · exact hoffered hagain
      · exact h.rests t hstopped x hx hran
      · exact not_stopped_of_revives op hguard hrevived hx hstopped
    simp only [FileLog.step, h.strays, List.nil_append]
    rw [List.filter_eq_nil_iff]
    intro t ht
    simpa using hnone t ht

theorem EndsInv.start (disk : Disk) : EndsInv (.start disk) :=
  ⟨.nil, nofun, keyed_start disk, nofun, rfl⟩

/-- A transfer that is over keeps its end through a run that does not offer it
again. -/
theorem end_kept {steps : List (FileEnv × FileOp)}
    (hguard : Along (FileLog.step P Z) (FileLog.Guarded P) L steps) {t : String}
    {x : InboundTransfer} (hover : isTerminal x.state = true)
    (hrecord : ∀ y, L.manager.inbound[t]? = some y → y.state = x.state)
    (hagain : Along (FileLog.step P Z) (fun L s => s.2.admits s.1 L.disk ≠ some t) L steps) :
    ∀ y, (run (FileLog.step P Z) L steps).manager.inbound[t]? = some y → y.state = x.state := by
  refine (hguard.and hagain).run_inv
    (fun L => ∀ y, L.manager.inbound[t]? = some y → y.state = x.state) hrecord ?_
  rintro L ⟨env, op⟩ hL ⟨hstep, hnot⟩ y' hy'
  rcases (apply_inboundStep Z op hstep).keeps t y' hy' with hadmits | ⟨y, hy, hsame | hopen⟩
  · exact absurd hadmits hnot
  · exact hsame.trans (hL y hy)
  · rw [hL y hy, hover] at hopen
    cases hopen

/-- In every run without such a call, an inbound transfer that is over keeps its
state until it is dropped or offered again, its end is told at most once, and an
outbound transfer that was cancelled, rejected or revoked sends no chunk and no
COMPLETE any more. -/
theorem ends_are_final (P : Platform) (Z : Zlib) (disk : Disk)
    (steps : List (FileEnv × FileOp))
    (hguard : Along (FileLog.step P Z) (FileLog.Guarded P) (.start disk) steps) :
    (run (FileLog.step P Z) (.start disk) steps).ended.Nodup ∧
    (run (FileLog.step P Z) (.start disk) steps).strays = [] ∧
    ∀ before after, steps = before ++ after → ∀ t x,
      (run (FileLog.step P Z) (.start disk) before).manager.inbound[t]? = some x →
      isTerminal x.state = true →
      Along (FileLog.step P Z) (fun L s => s.2.admits s.1 L.disk ≠ some t)
        (run (FileLog.step P Z) (.start disk) before) after →
      ∀ y, (run (FileLog.step P Z) (.start disk) steps).manager.inbound[t]? = some y →
        y.state = x.state := by
  have hinv := hguard.run_inv EndsInv (.start disk) fun L s hL hs => hL.step hs
  refine ⟨hinv.once, hinv.strays, ?_⟩
  rintro before after rfl t x hx hover hagain y hy
  rw [run_append] at hy
  refine end_kept (along_append.mp hguard).2 hover (fun z hz => ?_) hagain y hy
  rw [Option.some.inj (hz.symm.trans hx)]

end Run

/-! ## Ends that are written over -/

/-- `hi` as a peer offers it. -/
def hiOffer (purpose sha256 : String) : FileTransferManager.OfferFields where
  transferId := "u"
  relPath := "hi.txt"
  sha256 := sha256
  size := 2
  totalChunks := 1
  purpose := purpose
  compressed := false
  isDelta := false
  baseSha256 := ""

/-- Base64 of `hi` decodes, and no other text. -/
def pickyPlatform : Platform :=
  { hiPlatform with decodeB64Std := fun s => if s = "aGk=" then some hiBytes else none }

/-- A chunk that cannot be decoded arrives for an offer, and again. -/
def badChunks : List (FileEnv × FileOp) :=
  [(hiEnv, .onOfferReceived "bob" "" "" (hiOffer "file" "00")), (hiEnv, .onChunkReceived "u" 0 "!"),
    (hiEnv, .onChunkReceived "u" 0 "!")]

/-- The user declines an offer that has failed. -/
def declinedLate : List (FileEnv × FileOp) :=
  badChunks.take 2 ++ [(hiEnv, .rejectTransfer "u" "declined")]

/-- The user cancels a file on offer, and a member of the room asks for it. -/
def askedLate : List (FileEnv × FileOp) :=
  [(hiEnv, .offerFile "room" "hi.txt" hiBytes "room_file" none false (some "t")),
    (hiEnv, .cancelTransfer "t"), (hiEnv, .startStreamFor "t" "alice" roomFileChunkBudget)]

/-- The user cancels a file while it is being sent, and the pump turns once more. -/
def cancelledHalfWay : List (FileEnv × FileOp) :=
  [(hiEnv, .offerFile "room" "hi.txt" hiBytes "room_file" none false (some "t")),
    (hiEnv, .startStreamFor "t" "alice" 0), (hiEnv, .cancelTransfer "t"),
    (hiEnv, .pumpStream "t" roomFileChunkBudget)]

/-- The state of an inbound transfer after some calls. -/
def inboundState (t : String) (steps : List (FileEnv × FileOp)) : Option TransferState :=
  (run (FileLog.step pickyPlatform storeZlib) (.start ∅) steps).manager.inbound[t]?.map
    InboundTransfer.state

/-- The failed transfer becomes a rejected one, a failure is told twice, and the
cancelled file is sent. -/
theorem ends_written_over :
    inboundState "u" (badChunks.take 2) = some .failed ∧
    inboundState "u" declinedLate = some .rejected ∧
    ¬ (run (FileLog.step pickyPlatform storeZlib) (.start ∅) badChunks).ended.Nodup ∧
    (run (FileLog.step pickyPlatform storeZlib) (.start ∅) askedLate).strays ≠ [] := by
  decide +kernel

/-- The first bad chunk ends the offer, and the transfer stays failed; a file that is
cancelled half-way is not sent on. -/
theorem badChunk_is_final :
    (run (FileLog.step pickyPlatform storeZlib) (.start ∅)
      (badChunks.take 2 ++ [(hiEnv, .onCompleteReceived "u")])).ended.Nodup ∧
    inboundState "u" (badChunks.take 2 ++ [(hiEnv, .onCompleteReceived "u")]) = some .failed ∧
    (run (FileLog.step pickyPlatform storeZlib) (.start ∅) cancelledHalfWay).strays = [] := by
  have hpending : inboundState "u" (badChunks.take 1) = some .pending ∧
      inboundState "u" (badChunks.take 2) = some .failed ∧
      (run (FileLog.step pickyPlatform storeZlib) (.start ∅)
        (badChunks.take 2 ++ [(hiEnv, .onCompleteReceived "u")])).manager.inbound.contains "u" := by
    decide +kernel
  obtain ⟨hbefore, hfailed, hthere⟩ := hpending
  have hguard : Along (FileLog.step pickyPlatform storeZlib) (FileLog.Guarded pickyPlatform) (.start ∅)
      (badChunks.take 2 ++ [(hiEnv, .onCompleteReceived "u")]) := by
    refine ⟨trivial, fun _ x hx => ?_, trivial, trivial⟩
    have hstate : some x.state = some TransferState.pending :=
      (congrArg (Option.map InboundTransfer.state) hx).symm.trans hbefore
    rw [Option.some.inj hstate]
    rfl
  obtain ⟨honce, -, hkept⟩ := ends_are_final pickyPlatform storeZlib ∅ _ hguard
  have hcancelled : Along (FileLog.step pickyPlatform storeZlib) (FileLog.Guarded pickyPlatform)
      (.start ∅) cancelledHalfWay :=
    ⟨trivial, fun hstopped => absurd hstopped (by decide +kernel), trivial, trivial, trivial⟩
  refine ⟨honce, ?_, (ends_are_final pickyPlatform storeZlib ∅ _ hcancelled).2.1⟩
  obtain ⟨x, hx, hstate⟩ := Option.map_eq_some_iff.mp hfailed
  rw [ExtTreeMap.contains_eq_isSome_getElem?] at hthere
  obtain ⟨y, hy⟩ := Option.isSome_iff_exists.mp hthere
  have hsame := hkept (badChunks.take 2) _ rfl "u" x hx (by rw [hstate]; rfl) ⟨nofun, trivial⟩ y hy
  rw [inboundState, hy, Option.map_some, hsame, hstate]

end ConquerD.Client
