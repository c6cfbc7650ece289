import ConquerD.Client.FileOps
import ConquerD.Client.Verify.FileServing

/-!
# Whose transfer a message may change

Transfers are found by an id that others may know, and of the handlers only that
of a revocation compares the sender. What a message does to a transfer of
somebody else is said exactly, for each type of message and each state of the
transfer.
-/

namespace ConquerD.Client

open Std (ExtTreeMap)
open Lib.Encoding Wire

/-! ## Messages that carry no file data -/

def FileMessage.isFileData : FileMessage → Bool
  | .chunk .. | .complete .. => true
  | _ => false

/-- What happened has no file data to send. -/
def NoFileData (evs : List TransferEvent) : Prop :=
  ∀ f ∈ messagesOf evs, f.isFileData = false

section NoFileData

variable {P : Platform} {Z : Zlib} {env : FileEnv} {disk : Disk} {m : FileTransferManager}
  {ready sends : FileMessage → Bool} {tid : String}

theorem dispatchBatch_quiet {fs : List FileMessage} (h : ∀ f ∈ fs, f.isFileData = false) :
    (dispatchBatch env ready sends m fs).1 = m := by
  have hfold : ∀ b : Batch, b.unsentChunks = [] → b.stalled = [] → b.progressed = [] →
      (fs.foldl (Batch.dispatch env ready sends) b).finish env = b.manager := by
    induction fs with
    | nil =>
      intro b hunsent hstalled hprogressed
      simp only [List.foldl_nil, Batch.finish, hunsent, hstalled, hprogressed, List.filter_nil]
    | cons f fs ih =>
      intro b hunsent hstalled hprogressed
      have hrest := ih fun g hg => h g (List.mem_cons_of_mem _ hg)
      have hf := h f List.mem_cons_self
      have hstep : (b.dispatch env ready sends f).manager = b.manager ∧
          (b.dispatch env ready sends f).unsentChunks = [] ∧
          (b.dispatch env ready sends f).stalled = [] ∧
          (b.dispatch env ready sends f).progressed = [] := by
        cases f with
        | chunk => cases hf
        | complete => cases hf
        | _ =>
          simp only [Batch.dispatch]
          split
          · exact ⟨rfl, hunsent, hstalled, hprogressed⟩
          · exact ⟨rfl, hunsent, hstalled, hprogressed⟩
      obtain ⟨hmanager, hunsent', hstalled', hprogressed'⟩ := hstep
      rw [List.foldl_cons, hrest _ hunsent' hstalled' hprogressed', hmanager]
  exact hfold (.new m) rfl rfl rfl

theorem NoFileData.dispatchTransferEvents {evs : List TransferEvent} {net : Transport}
    (h : NoFileData evs) : (dispatchTransferEvents env net m evs).1 = m :=
  dispatchBatch_quiet h

theorem NoFileData.dispatchRoomTransferEvents {evs : List TransferEvent} {net : Transport}
    (h : NoFileData evs) : (dispatchRoomTransferEvents P env net m evs).1 = m :=
  dispatchBatch_quiet fun f hf => h f (List.mem_of_mem_filter hf)

theorem noFileData_nil : NoFileData [] := by
  intro f hf
  cases hf

theorem noFileData_failInbound (reason : String) : NoFileData (m.failInbound env disk tid reason).2.2 := by
  unfold FileTransferManager.failInbound
  split
  · exact noFileData_nil
  · intro f hf
    obtain rfl : f = .error tid reason := List.mem_singleton.mp hf
    rfl

theorem noFileData_completeEvents (x : InboundTransfer) (content : TransferPayload) :
    NoFileData (FileTransferManager.completeEvents tid x content) := by
  intro f hf
  obtain rfl : f = .ack tid := List.mem_singleton.mp hf
  rfl

theorem noFileData_finishStreaming : NoFileData (m.finishStreaming P env disk tid).2.2 := by
  unfold FileTransferManager.finishStreaming
  split
  · exact noFileData_nil
  · split
    · exact noFileData_nil
    · split
      · exact noFileData_nil
      · simp only
        split
        · exact noFileData_failInbound _
        · split
          · exact noFileData_failInbound _
          · exact noFileData_completeEvents _ _

theorem noFileData_finishInbound : NoFileData (m.finishInbound P Z env disk tid).2.2 := by
  unfold FileTransferManager.finishInbound
  split
  · exact noFileData_nil
  · split
    · exact noFileData_nil
    · split
      · exact noFileData_finishStreaming
      · simp only
        split
        · exact noFileData_failInbound _
        · exact noFileData_completeEvents _ _

theorem noFileData_onChunkBytesReceived (index : Nat) (chunk : Bytes) :
    NoFileData (m.onChunkBytesReceived P Z env disk tid index chunk).2.2 := by
  unfold FileTransferManager.onChunkBytesReceived
  split
  · exact noFileData_nil
  · split
    · exact noFileData_nil
    · split
      · exact noFileData_failInbound _
      · split
        · exact noFileData_nil
        · simp only
          split
          · exact noFileData_finishInbound
          · split
            · intro f hf
              cases hf
            · exact noFileData_nil

theorem noFileData_onChunkReceived (index : Nat) (data : String) :
    NoFileData (m.onChunkReceived P Z env disk tid index data).2.2 := by
  unfold FileTransferManager.onChunkReceived
  split
  · exact noFileData_onChunkBytesReceived _ _
  · exact noFileData_failInbound _

theorem noFileData_onCompleteReceived : NoFileData (m.onCompleteReceived P Z env disk tid).2.2 := by
  unfold FileTransferManager.onCompleteReceived
  split
  · exact noFileData_nil
  · split
    · exact noFileData_nil
    · split
      · exact noFileData_nil
      · exact noFileData_finishInbound

theorem noFileData_onOfferReceivedWithRoom (peerId roomId supernodeId : String)
    (o : FileTransferManager.OfferFields) :
    NoFileData (m.onOfferReceivedWithRoom env disk peerId roomId supernodeId o).2.2 := by
  unfold FileTransferManager.onOfferReceivedWithRoom
  split
  · intro f hf
    obtain rfl : f = .reject o.transferId _ := List.mem_singleton.mp hf
    rfl
  · simp only
    split
    · intro f hf
      obtain rfl : f = .accept o.transferId := List.mem_singleton.mp hf
      rfl
    · intro f hf
      cases hf

end NoFileData

/-! ## What an operation does to one record -/

/-- An operation on one inbound transfer: it changes the record exactly when it
acts, and nothing else of the manager. -/
structure InboundEffect (tid : String) (acts : InboundTransfer → Prop)
    (m m' : FileTransferManager) : Prop where
  outbound : m'.outbound = m.outbound
  elsewhere : ∀ t ≠ tid, m'.inbound[t]? = m.inbound[t]?
  absent : m.inbound[tid]? = none → m'.inbound[tid]? = none
  record : ∀ x, m.inbound[tid]? = some x → ∃ x', m'.inbound[tid]? = some x' ∧
    x'.peerId = x.peerId ∧ (x' = x ↔ ¬ acts x)

/-- The same of an outbound transfer. -/
structure OutboundEffect (tid : String) (acts : OutboundTransfer → Prop)
    (m m' : FileTransferManager) : Prop where
  inbound : m'.inbound = m.inbound
  elsewhere : ∀ t ≠ tid, m'.outbound[t]? = m.outbound[t]?
  absent : m.outbound[tid]? = none → m'.outbound[tid]? = none
  record : ∀ x, m.outbound[tid]? = some x → ∃ x', m'.outbound[tid]? = some x' ∧
    (x' = x ↔ ¬ acts x)

section Effect

variable {P : Platform} {Z : Zlib} {env : FileEnv} {disk : Disk} {m : FileTransferManager}
  {tid : String} {x : InboundTransfer}

theorem getElem?_setInbound (m : FileTransferManager) (t : String) (x : InboundTransfer) :
    (m.setInbound t x).inbound[t]? = some x :=
  ExtTreeMap.getElem?_insert_self

theorem getElem?_setInbound_of_ne (m : FileTransferManager) {t u : String} (x : InboundTransfer)
    (h : u ≠ t) : (m.setInbound t x).inbound[u]? = m.inbound[u]? := by
  simp only [FileTransferManager.setInbound]
  rw [ExtTreeMap.getElem?_insert, if_neg (by simpa using h.symm)]

theorem getElem?_setOutbound_of_ne (m : FileTransferManager) {t u : String} (x : OutboundTransfer)
    (h : u ≠ t) : (m.setOutbound t x).outbound[u]? = m.outbound[u]? := by
  simp only [FileTransferManager.setOutbound]
  rw [ExtTreeMap.getElem?_insert, if_neg (by simpa using h.symm)]

/-- The manager is left as it is, which is right when the operation does not
act. -/
theorem InboundEffect.idle {acts : InboundTransfer → Prop}
    (h : ∀ x, m.inbound[tid]? = some x → ¬ acts x) : InboundEffect tid acts m m :=
  ⟨rfl, fun _ _ => rfl, id, fun x hx => ⟨x, hx, rfl, fun _ => h x hx, fun _ => rfl⟩⟩

theorem InboundEffect.set {acts : InboundTransfer → Prop} (hx : m.inbound[tid]? = some x)
    {x' : InboundTransfer} (hpeer : x'.peerId = x.peerId) (hacts : x' = x ↔ ¬ acts x) :
    InboundEffect tid acts m (m.setInbound tid x') := by
  refine ⟨rfl, fun t ht => getElem?_setInbound_of_ne m x' ht, fun hnone => ?_, fun y hy => ?_⟩
  · rw [hx] at hnone
    cases hnone
  · obtain rfl : x = y := Option.some.inj (hx.symm.trans hy)
    exact ⟨x', getElem?_setInbound _ _ _, hpeer, hacts⟩

theorem InboundEffect.after_set {acts acts' : InboundTransfer → Prop}
    (hx : m.inbound[tid]? = some x) {y : InboundTransfer} {m' : FileTransferManager}
    (h : InboundEffect tid acts (m.setInbound tid y) m') (hpeer : y.peerId = x.peerId)
    (hchanged : acts' x) (hends : ∀ z, m'.inbound[tid]? = some z → z ≠ x) :
    InboundEffect tid acts' m m' := by
  obtain ⟨z, hz, hpeer', -⟩ := h.record y (getElem?_setInbound _ _ _)
  refine ⟨h.outbound, fun t ht => (h.elsewhere t ht).trans (getElem?_setInbound_of_ne m y ht),
    fun hnone => ?_, fun w hw => ?_⟩
  · rw [hx] at hnone
    cases hnone
  · obtain rfl : x = w := Option.some.inj (hx.symm.trans hw)
    exact ⟨z, hz, hpeer'.trans hpeer,
      ⟨fun heq => absurd heq (hends z hz), fun hno => absurd hchanged hno⟩⟩

/-- A failed transfer is not told again only if nothing of its record changes. -/
theorem failInbound_effect (env : FileEnv) (disk : Disk) (m : FileTransferManager)
    (tid reason : String) :
    InboundEffect tid (fun x => FileTransferManager.failedInbound env x ≠ x) m
      (m.failInbound env disk tid reason).1 := by
  unfold FileTransferManager.failInbound
  split
  · next hnone =>
    refine .idle fun x hx => ?_
    rw [hnone] at hx
    cases hx
  · next x hx => exact .set hx rfl not_not.symm

theorem failedInbound_state (env : FileEnv) (x : InboundTransfer) :
    (FileTransferManager.failedInbound env x).state = .failed := rfl

/-- The sink can still be finished: it is in memory, or its file is open. -/
def Finishable (x : InboundTransfer) : Prop :=
  ∀ isOpen path received count, x.sink = .partFile isOpen path received count → isOpen = true

theorem getElem?_failInbound (reason : String) (hx : m.inbound[tid]? = some x) :
    (m.failInbound env disk tid reason).1.inbound[tid]? =
      some (FileTransferManager.failedInbound env x) := by
  simp only [FileTransferManager.failInbound, hx]
  exact getElem?_setInbound _ _ _

theorem failInbound_of_some (env : FileEnv) (disk : Disk) (reason : String)
    (hx : m.inbound[tid]? = some x) :
    (m.failInbound env disk tid reason).1 =
        m.setInbound tid (FileTransferManager.failedInbound env x) ∧
      endsTold (m.failInbound env disk tid reason).2.2 = [tid] := by
  simp only [FileTransferManager.failInbound, hx, true_and]
  rfl

/-- What finishing leaves of a transfer that is whole: it is over, and that is
told once. -/
structure Finished (tid : String) (x : InboundTransfer) (m : FileTransferManager)
    (out : FileOutcome) : Prop where
  record : ∃ y z, out.1 = (m.setInbound tid y).setInbound tid z ∧ z.peerId = x.peerId ∧
    isTerminal z.state = true
  told : endsTold out.2.2 = [tid]

theorem Finished.fails {y : InboundTransfer} (disk : Disk) (reason : String)
    (hpeer : y.peerId = x.peerId) :
    Finished tid x m ((m.setInbound tid y).failInbound env disk tid reason) := by
  obtain ⟨hset, htold⟩ := failInbound_of_some env disk reason (getElem?_setInbound m tid y)
  exact ⟨⟨y, _, hset, hpeer, rfl⟩, htold⟩

theorem finishInbound_cases (P : Platform) (Z : Zlib) (env : FileEnv) (disk : Disk)
    (hx : m.inbound[tid]? = some x) (hstate : x.state = .transferring)
    (hwhole : x.chunksReceived = x.totalChunks) :
    (¬ Finishable x ∧ m.finishInbound P Z env disk tid = (m, disk, [])) ∨
      (Finishable x ∧ Finished tid x m (m.finishInbound P Z env disk tid)) := by
  unfold FileTransferManager.finishInbound
  simp only [hx, hstate, hwhole, ne_eq, not_true_eq_false, or_self, if_false]
  cases hsink : x.sink with
  | memory chunks =>
    have hmemory : x.isStreaming = false := by
      simp only [InboundTransfer.isStreaming, hsink]
    simp only [hmemory, Bool.false_eq_true, if_false]
    refine .inr ⟨fun _ _ _ _ hpart => ?_, ?_⟩
    · rw [hsink] at hpart
      cases hpart
    · split
      · refine .fails _ _ ?_
        rfl
      · exact ⟨⟨_, _, rfl, rfl, rfl⟩, rfl⟩
  | partFile isOpen path received count =>
    have hpart : x.isStreaming = true := by
      simp only [InboundTransfer.isStreaming, hsink]
    simp only [hpart, if_true, FileTransferManager.finishStreaming, hx, hsink]
    cases isOpen with
    | false =>
      refine .inl ⟨fun hopen => ?_, rfl⟩
      cases hopen _ _ _ _ hsink
    | true =>
      simp only [Bool.not_true, Bool.false_eq_true, if_false]
      refine .inr ⟨fun o p r n heq => ?_, ?_⟩
      · rw [hsink] at heq
        cases heq
        rfl
      · split
        · refine .fails _ _ ?_
          rfl
        · split
          · refine .fails _ _ ?_
            rfl
          · exact ⟨⟨_, _, rfl, rfl, rfl⟩, rfl⟩

theorem ne_transferring_of_isTerminal {state : TransferState} (h : isTerminal state = true) :
    state ≠ .transferring := by
  rintro rfl
  cases h

theorem finishInbound_effect (P : Platform) (Z : Zlib) (env : FileEnv) (disk : Disk)
    (hx : m.inbound[tid]? = some x) (hstate : x.state = .transferring)
    (hwhole : x.chunksReceived = x.totalChunks) :
    InboundEffect tid Finishable m (m.finishInbound P Z env disk tid).1 := by
  rcases finishInbound_cases P Z env disk hx hstate hwhole with
    ⟨hclosed, hsame⟩ | ⟨hopen, ⟨y, z, hset, hpeer, hended⟩, -⟩
  · rw [hsame]
    refine .idle fun w hw => ?_
    rw [Option.some.inj (hw.symm.trans hx)]
    exact hclosed
  · rw [hset]
    refine ⟨rfl, fun t ht => ?_, fun hnone => ?_, fun w hw => ?_⟩
    · rw [getElem?_setInbound_of_ne _ _ ht, getElem?_setInbound_of_ne _ _ ht]
    · rw [hx] at hnone
      cases hnone
    · obtain rfl : x = w := Option.some.inj (hx.symm.trans hw)
      refine ⟨z, getElem?_setInbound _ _ _, hpeer, fun heq => ?_, fun hno => absurd hopen hno⟩
      rw [heq] at hended
      exact absurd hstate (ne_transferring_of_isTerminal hended)

/-- A chunk that arrives is stored. -/
def Storable (env : FileEnv) (index : Nat) (x : InboundTransfer) : Prop :=
  match x.sink with
  | .memory chunks => chunks.contains index = false
  | .partFile isOpen _ received _ =>
    received.getD index true = false ∧ isOpen = true ∧ env.canWrite = true

/-- A chunk that arrives is told: it is out of range, or stored. -/
def ChunkActs (env : FileEnv) (index : Nat) (x : InboundTransfer) : Prop :=
  x.state = .transferring ∧ (index ≥ x.totalChunks ∨ Storable env index x)

/-- COMPLETE is told: it is the first one with chunks missing, or it finds all
chunks in and the transfer can be finished. -/
def CompleteActs (x : InboundTransfer) : Prop :=
  x.state = .transferring ∧
    ((x.chunksReceived ≠ x.totalChunks ∧ x.completeRequested = false) ∨
      (x.chunksReceived = x.totalChunks ∧ Finishable x))

theorem storeChunk_cases (disk : Disk) {index : Nat} (hindex : ¬ index ≥ x.totalChunks)
    (data : Bytes) :
    (¬ Storable env index x ∧ (x.storeChunk env disk index data).2.2 = false) ∨
      (Storable env index x ∧ ∃ sink disk', x.storeChunk env disk index data =
          ({ x with sink := sink }, disk', true) ∧ sink ≠ x.sink) := by
  unfold InboundTransfer.storeChunk Storable
  rw [if_neg hindex]
  cases hsink : x.sink with
  | memory chunks =>
    simp only
    cases hin : chunks.contains index with
    | true => exact .inl ⟨Bool.noConfusion, rfl⟩
    | false =>
      refine .inr ⟨rfl, _, _, rfl, fun heq => ?_⟩
      have hcontains := congrArg (fun c : ExtTreeMap Nat Bytes => c.contains index)
        (TransferSink.memory.inj heq)
      simp only [ExtTreeMap.contains_insert_self, hin] at hcontains
      cases hcontains
  | partFile isOpen path received count =>
    simp only
    cases hin : received.getD index true with
    | true => exact .inl ⟨fun h => Bool.noConfusion h.1, rfl⟩
    | false =>
      cases isOpen with
      | false => exact .inl ⟨fun h => Bool.noConfusion h.2.1, rfl⟩
      | true =>
        cases hwrite : env.canWrite with
        | false => exact .inl ⟨fun h => Bool.noConfusion h.2.2, rfl⟩
        | true =>
          refine .inr ⟨⟨rfl, rfl, rfl⟩, _, _, rfl, fun heq => ?_⟩
          have hcount := congrArg TransferSink.receivedCount heq
          simp only [TransferSink.receivedCount] at hcount
          omega

theorem onChunkBytesReceived_effect (index : Nat) (data : Bytes) :
    InboundEffect tid (ChunkActs env index) m
      (m.onChunkBytesReceived P Z env disk tid index data).1 := by
  unfold FileTransferManager.onChunkBytesReceived
  split
  · next hnone =>
    refine .idle fun x hx => ?_
    rw [hnone] at hx
    cases hx
  · next x hx =>
    split
    · next hstate =>
      refine .idle fun y hy hacts => ?_
      rw [Option.some.inj (hy.symm.trans hx)] at hacts
      exact hstate hacts.1
    · next hstate =>
      rw [not_not] at hstate
      split
      · next hrange =>
        have hfail := failInbound_effect env disk m tid
          ("chunk_index " ++ toString index ++ " out of range")
        refine ⟨hfail.outbound, hfail.elsewhere, hfail.absent, fun y hy => ?_⟩
        obtain rfl : x = y := Option.some.inj (hx.symm.trans hy)
        refine ⟨_, getElem?_failInbound _ hx, rfl, fun heq => ?_, fun hno => ?_⟩
        · have hsame := congrArg InboundTransfer.state heq
          rw [failedInbound_state, hstate] at hsame
          cases hsame
        · exact absurd ⟨hstate, .inl hrange⟩ hno
      · next hindex =>
        rcases storeChunk_cases disk hindex data with ⟨hnot, hfalse⟩ | ⟨hyes, sink, disk', hstore, hne⟩
        · have hidle : InboundEffect tid (ChunkActs env index) m m := by
            refine .idle fun y hy hacts => ?_
            rw [Option.some.inj (hy.symm.trans hx)] at hacts
            rcases hacts.2 with hrange | hstorable
            · exact hindex hrange
            · exact hnot hstorable
          generalize x.storeChunk env disk index data = r at hfalse
          obtain ⟨y, d, stored⟩ := r
          simp only at hfalse
          subst hfalse
          exact hidle
        · rw [hstore]
          have hacts : ChunkActs env index x := ⟨hstate, .inr hyes⟩
          have hchanged : ({ x with sink := sink } : InboundTransfer) ≠ x :=
            fun heq => hne (congrArg InboundTransfer.sink heq)
          have hset : InboundEffect tid (ChunkActs env index) m
              (m.setInbound tid { x with sink := sink }) :=
            .set hx rfl ⟨fun heq => absurd heq hchanged, fun hno => absurd hacts hno⟩
          simp only
          split
          · next hwhole =>
            rw [Bool.and_eq_true, beq_iff_eq] at hwhole
            have hfinish := finishInbound_effect P Z env disk'
              (getElem?_setInbound m tid { x with sink := sink }) hstate hwhole.2
            refine .after_set hx hfinish rfl hacts fun z hz heq => ?_
            rcases finishInbound_cases P Z env disk'
              (getElem?_setInbound m tid { x with sink := sink }) hstate hwhole.2 with
              ⟨-, hsame⟩ | ⟨-, ⟨y, w, hset', -, hended⟩, -⟩
            · rw [hsame, getElem?_setInbound] at hz
              cases hz
              exact hchanged heq
            · rw [hset', getElem?_setInbound] at hz
              cases hz
              rw [heq] at hended
              exact ne_transferring_of_isTerminal hended hstate
          · split
            · exact hset
            · exact hset

theorem onCompleteReceived_effect :
    InboundEffect tid CompleteActs m (m.onCompleteReceived P Z env disk tid).1 := by
  unfold FileTransferManager.onCompleteReceived
  split
  · next hnone =>
    refine .idle fun x hx => ?_
    rw [hnone] at hx
    cases hx
  · next x hx =>
    split
    · next hstate =>
      refine .idle fun y hy hacts => ?_
      rw [Option.some.inj (hy.symm.trans hx)] at hacts
      exact hstate hacts.1
    · next hstate =>
      rw [not_not] at hstate
      split
      · next hmissing =>
        refine .set hx rfl ⟨fun heq hacts => ?_, fun hno => ?_⟩
        · have hrequested := congrArg InboundTransfer.completeRequested heq
          simp only at hrequested
          rcases hacts.2 with ⟨-, hfirst⟩ | ⟨hwhole, -⟩
          · rw [hfirst] at hrequested
            cases hrequested
          · exact hmissing hwhole
        · have hrequested : x.completeRequested = true := by
            by_contra hfirst
            exact hno ⟨hstate, .inl ⟨hmissing, Bool.eq_false_iff.mpr hfirst⟩⟩
          rw [← hrequested]
      · next hwhole =>
        rw [not_not] at hwhole
        have hfinish := finishInbound_effect P Z env disk hx hstate hwhole
        refine ⟨hfinish.outbound, hfinish.elsewhere, hfinish.absent, fun y hy => ?_⟩
        obtain rfl : x = y := Option.some.inj (hx.symm.trans hy)
        obtain ⟨z, hz, hpeer, hiff⟩ := hfinish.record x hx
        refine ⟨z, hz, hpeer, hiff.trans (not_congr ⟨fun hopen => ?_, fun hacts => ?_⟩)⟩
        · exact ⟨hstate, .inr ⟨hwhole, hopen⟩⟩
        · rcases hacts.2 with ⟨hmissing, -⟩ | ⟨-, hopen⟩
          · exact absurd hwhole hmissing
          · exact hopen

end Effect

/-! ## What an answer does to an outbound transfer -/

section Answer

variable {P : Platform} {Z : Zlib} {env : FileEnv} {disk : Disk} {m : FileTransferManager}
  {ready sends : FileMessage → Bool} {tid : String} {x : OutboundTransfer}

theorem dispatchBatch_keeps {motive : FileTransferManager → Prop}
    (hmark : ∀ m t, motive m → motive (m.markOutboundComplete env t))
    (hunsend : ∀ m t n, motive m → motive (m.unsendChunks t n))
    (hprogress : ∀ m t, motive m → motive (m.noteSendProgress t))
    (hstalled : ∀ m t, motive m → motive (m.noteSendStalled env t).1)
    (fs : List FileMessage) (h : motive m) :
    motive (dispatchBatch env ready sends m fs).1 := by
  have hdispatch : ∀ b : Batch, motive b.manager →
      motive (fs.foldl (Batch.dispatch env ready sends) b).manager := by
    intro b hb
    refine List.foldlRecOn (motive := fun b : Batch => motive b.manager) fs _ hb fun b hb f _ => ?_
    have hmiss : ∀ t isChunk, (b.miss t isChunk).manager = b.manager := by
      intro t isChunk
      unfold Batch.miss
      split
      · rfl
      · rfl
    unfold Batch.dispatch
    split
    · split
      · rw [hmiss]
        exact hb
      · split
        · exact hb
        · rw [hmiss]
          exact hb
    · split
      · rw [hmiss]
        exact hb
      · split
        · exact hmark _ _ hb
        · rw [hmiss]
          exact hb
    · split
      · exact hb
      · exact hb
  unfold dispatchBatch Batch.finish
  refine List.foldlRecOn _ _ (List.foldlRecOn _ _ (List.foldlRecOn _ _ (hdispatch _ h) ?_) ?_) ?_
  · exact fun m hm p _ => hunsend m p.1 p.2 hm
  · exact fun m hm t _ => hprogress m t hm
  · exact fun m hm t _ => hstalled m t hm

theorem inbound_dispatchBatch (fs : List FileMessage) :
    (dispatchBatch env ready sends m fs).1.inbound = m.inbound := by
  refine dispatchBatch_keeps (motive := fun m' => m'.inbound = m.inbound) ?_ ?_ ?_ ?_ fs rfl
  · intro m' t h
    unfold FileTransferManager.markOutboundComplete
    split
    · exact h
    · exact h
  · intro m' t n h
    unfold FileTransferManager.unsendChunks
    split
    · exact h
    · exact h
  · intro m' t h
    unfold FileTransferManager.noteSendProgress
    split
    · exact h
    · exact h
  · intro m' t h
    unfold FileTransferManager.noteSendStalled
    split
    · exact h
    · simp only
      split
      · exact h
      · exact h

/-- The transfer was accepted at some time. -/
def Started (tid : String) (m : FileTransferManager) : Prop :=
  ∃ x, m.outbound[tid]? = some x ∧ x.state ≠ .pending

theorem Started.set {x' : OutboundTransfer} {t : String} (h : Started tid m)
    (hx : m.outbound[t]? = some x) (hstate : x.state ≠ .pending → x'.state ≠ .pending) :
    Started tid (m.setOutbound t x') := by
  obtain ⟨y, hy, hstarted⟩ := h
  by_cases ht : tid = t
  · subst ht
    obtain rfl : x = y := Option.some.inj (hx.symm.trans hy)
    exact ⟨x', getElem?_setOutbound _ _ _, hstate hstarted⟩
  · exact ⟨y, (getElem?_setOutbound_of_ne m x' ht).trans hy, hstarted⟩

theorem started_dispatchBatch (env : FileEnv) (ready sends : FileMessage → Bool)
    (fs : List FileMessage) (h : Started tid m) :
    Started tid (dispatchBatch env ready sends m fs).1 := by
  refine dispatchBatch_keeps ?_ ?_ ?_ ?_ fs h
  · intro m' t h
    unfold FileTransferManager.markOutboundComplete
    split
    · exact h
    · next hx => exact h.set hx fun _ => nofun
  · intro m' t n h
    unfold FileTransferManager.unsendChunks
    split
    · exact h
    · next hx =>
      refine h.set hx fun hstate => ?_
      split
      · nofun
      · exact hstate
  · intro m' t h
    unfold FileTransferManager.noteSendProgress
    split
    · exact h
    · next hx => exact h.set hx id
  · intro m' t h
    unfold FileTransferManager.noteSendStalled
    split
    · exact h
    · next hx =>
      simp only
      split
      · exact h.set hx fun _ => nofun
      · exact h.set hx id

theorem OutboundEffect.idle {acts : OutboundTransfer → Prop}
    (h : ∀ x, m.outbound[tid]? = some x → ¬ acts x) : OutboundEffect tid acts m m :=
  ⟨rfl, fun _ _ => rfl, id, fun x hx => ⟨x, hx, fun _ => h x hx, fun _ => rfl⟩⟩

theorem OutboundEffect.set {acts : OutboundTransfer → Prop} (hx : m.outbound[tid]? = some x)
    {x' : OutboundTransfer} (hacts : x' = x ↔ ¬ acts x) :
    OutboundEffect tid acts m (m.setOutbound tid x') := by
  refine ⟨rfl, fun t ht => getElem?_setOutbound_of_ne m x' ht, fun hnone => ?_, fun y hy => ?_⟩
  · rw [hx] at hnone
    cases hnone
  · obtain rfl : x = y := Option.some.inj (hx.symm.trans hy)
    exact ⟨x', getElem?_setOutbound _ _ _, hacts⟩

theorem emitChunks_started (P : Platform) (env : FileEnv) (disk : Disk) (budget : Nat)
    (h : x.state ≠ .pending) : (emitChunks P env disk budget x).1.state ≠ .pending := by
  induction budget generalizing x with
  | zero => exact h
  | succ budget ih =>
    unfold emitChunks
    split
    · split
      · exact nofun
      · exact ih h
    · exact h

theorem nextChunkEvents_started (P : Platform) (env : FileEnv) (disk : Disk) (budget : Nat)
    (h : x.state ≠ .pending) : (nextChunkEvents P env disk budget x).1.state ≠ .pending := by
  have hemit := emitChunks_started P env disk budget h
  unfold nextChunkEvents
  generalize emitChunks P env disk budget x = r at hemit
  obtain ⟨x', evs, read⟩ := r
  cases read with
  | false => exact hemit
  | true =>
    simp only
    split
    · exact hemit
    · exact hemit

theorem onTransferAccepted_cases (P : Platform) (env : FileEnv) (disk : Disk)
    (hx : m.outbound[tid]? = some x) (hpending : x.state = .pending) :
    ∃ budget, m.onTransferAccepted P env disk tid =
      (m.setOutbound tid
          (nextChunkEvents P env disk budget { x with state := .transferring }).1,
        .stateChanged tid .transferring ::
          (nextChunkEvents P env disk budget { x with state := .transferring }).2.1) := by
  unfold FileTransferManager.onTransferAccepted
  simp only [hx, hpending, ne_eq, not_true_eq_false, if_false]
  split
  · exact ⟨_, rfl⟩
  · exact ⟨_, rfl⟩

theorem onTransferAccepted_effect (net : Transport) (hkeyed : m.Keyed) :
    OutboundEffect tid (fun x => x.state = .pending) m
      (dispatchTransferEvents env net (m.onTransferAccepted P env disk tid).1
        (m.onTransferAccepted P env disk tid).2).1 := by
  cases hx : m.outbound[tid]? with
  | none =>
    have hidle : m.onTransferAccepted P env disk tid = (m, []) := by
      simp only [FileTransferManager.onTransferAccepted, hx]
    rw [hidle, noFileData_nil.dispatchTransferEvents]
    refine .idle fun x hx' => ?_
    rw [hx] at hx'
    cases hx'
  | some x =>
    by_cases hpending : x.state = .pending
    · obtain ⟨budget, haccept⟩ := onTransferAccepted_cases P env disk hx hpending
      have hid : x.transferId = tid := hkeyed tid x hx
      obtain ⟨hid', hframes⟩ := nextChunkEvents_transferId P env disk budget
        { x with state := .transferring }
      have hstarted := nextChunkEvents_started P env disk budget
        (show ({ x with state := .transferring } : OutboundTransfer).state ≠ .pending from
          fun heq => by cases heq)
      have hmessages := messagesOf_nextChunkEvents P env disk budget
        { x with state := .transferring }
      rw [haccept]
      generalize nextChunkEvents P env disk budget { x with state := .transferring } = r at *
      obtain ⟨x', evs, done⟩ := r
      have htouches : Touches tid m (dispatchTransferEvents env net (m.setOutbound tid x')
          (.stateChanged tid .transferring :: evs)).1 := by
        refine (Touches.set hx hid').trans (touches_dispatchBatch fun f hf => ?_)
        exact (hframes f (hmessages ▸ hf)).trans hid
      refine ⟨inbound_dispatchBatch _, htouches.elsewhere, fun hnone => ?_, fun y hy => ?_⟩
      · rw [hx] at hnone
        cases hnone
      · obtain rfl : x = y := Option.some.inj (hx.symm.trans hy)
        obtain ⟨z, hz, hzstate⟩ := started_dispatchBatch env (fun _ => true) net.sends
          (messagesOf (.stateChanged tid .transferring :: evs))
          ⟨x', getElem?_setOutbound m tid x', hstarted⟩
        refine ⟨z, hz, fun heq => ?_, fun hno => absurd hpending hno⟩
        rw [heq] at hzstate
        exact hzstate
    · have hidle : m.onTransferAccepted P env disk tid = (m, []) := by
        simp only [FileTransferManager.onTransferAccepted, hx, ne_eq, hpending, not_false_eq_true,
          if_true]
      rw [hidle, noFileData_nil.dispatchTransferEvents]
      refine .idle fun y hy => ?_
      rw [← Option.some.inj (hx.symm.trans hy)]
      exact hpending

/-- Another answer to an offer puts a record in place of the one that is
there. -/
theorem OutboundEffect.answer {m' : FileTransferManager} {acts : OutboundTransfer → Prop}
    (put : OutboundTransfer → OutboundTransfer) (hput : ∀ x, put x = x ↔ ¬ acts x)
    (hnone : m.outbound[tid]? = none → m' = m)
    (hsome : ∀ x, m.outbound[tid]? = some x → m' = m.setOutbound tid (put x)) :
    OutboundEffect tid acts m m' := by
  cases hx : m.outbound[tid]? with
  | none =>
    rw [hnone hx]
    refine .idle fun x hx' => ?_
    rw [hx] at hx'
    cases hx'
  | some x =>
    rw [hsome x hx]
    exact .set hx (hput x)

theorem OutboundEffect.ends {m' : FileTransferManager} (state : TransferState)
    (hnone : m.outbound[tid]? = none → m' = m)
    (hsome : ∀ x, m.outbound[tid]? = some x → m' = m.setOutbound tid { x with state := state }) :
    OutboundEffect tid (fun x => x.state ≠ state) m m' := by
  refine .answer (fun x => { x with state := state }) (fun x => ⟨fun heq => ?_, fun hno => ?_⟩)
    hnone hsome
  · rw [← heq, not_not]
  · rw [not_not] at hno
    rw [← hno]

theorem onTransferRejected_effect (m : FileTransferManager) (tid : String) :
    OutboundEffect tid (fun x => x.state ≠ .rejected) m (m.onTransferRejected tid).1 := by
  refine .ends .rejected (fun hx => ?_) fun x hx => ?_
  · simp only [FileTransferManager.onTransferRejected, hx]
  · simp only [FileTransferManager.onTransferRejected, hx]

theorem onTransferError_effect (m : FileTransferManager) (tid reason : String) :
    OutboundEffect tid (fun x => x.state ≠ .failed) m (m.onTransferError tid reason).1 := by
  refine .ends .failed (fun hx => ?_) fun x hx => ?_
  · simp only [FileTransferManager.onTransferError, hx]
  · simp only [FileTransferManager.onTransferError, hx]

theorem onTransferAck_effect (env : FileEnv) (m : FileTransferManager) (tid : String) :
    OutboundEffect tid (fun x => x.state ≠ .complete ∨ x.finishedAt ≠ some env.now) m
      (m.onTransferAck env tid).1 := by
  refine .answer (fun x => { x with state := .complete, finishedAt := some env.now })
    (fun x => ⟨fun heq => ?_, fun hno => ?_⟩) (fun hx => ?_) fun x hx => ?_
  · rw [← heq, not_or, not_not, not_not]
    exact ⟨rfl, rfl⟩
  · rw [not_or, not_not, not_not] at hno
    rw [← hno.1, ← hno.2]
  · simp only [FileTransferManager.onTransferAck, hx]
  · simp only [FileTransferManager.onTransferAck, hx]

theorem noFileData_onTransferRejected (m : FileTransferManager) (tid : String) :
    NoFileData (m.onTransferRejected tid).2 := by
  unfold FileTransferManager.onTransferRejected
  split
  · exact noFileData_nil
  · exact nofun

theorem noFileData_onTransferError (m : FileTransferManager) (tid reason : String) :
    NoFileData (m.onTransferError tid reason).2 := by
  unfold FileTransferManager.onTransferError
  split
  · exact noFileData_nil
  · exact nofun

theorem noFileData_onTransferAck (env : FileEnv) (m : FileTransferManager) (tid : String) :
    NoFileData (m.onTransferAck env tid).2 := by
  unfold FileTransferManager.onTransferAck
  split
  · exact noFileData_nil
  · exact nofun

end Answer

/-! ## Counterparts -/

/-- The peer is somebody else than the one who signed. -/
def Foreign (signer : PublicId) (peerId : String) : Prop :=
  samePad peerId signer.text = false

/-- Inbound transfers of others are as they were. -/
def KeepsInbound (signer : PublicId) (m m' : FileTransferManager) : Prop :=
  ∀ (t : String) (x : InboundTransfer), m.inbound[t]? = some x → Foreign signer x.peerId →
    m'.inbound[t]? = some x

/-- Outbound transfers to others are as they were. -/
def KeepsOutbound (signer : PublicId) (m m' : FileTransferManager) : Prop :=
  ∀ (t : String) (x : OutboundTransfer), m.outbound[t]? = some x → Foreign signer x.peerId →
    m'.outbound[t]? = some x

/-- The offer a message makes, if it is one. -/
def offerIn (msg : FileSignal) : FileMessageType → Option FileTransferManager.OfferFields
  | .fileTransferOffer => offerFields msg "" "file"
  | .sfuFileOffer => offerFields msg "file" "room_file"
  | _ => none

/-- The message makes an offer that passes the quota and is not rejected. -/
def Admits (env : FileInboundEnv) (disk : Disk) (msg : FileSignal) (kind : FileMessageType)
    (o : FileTransferManager.OfferFields) : Prop :=
  env.gateThroughFeature = true ∧ offerIn msg kind = some o ∧
    ∃ r, FileTransferManager.offerSink env.file disk o = .ok r

/-- The inbound transfers an offer of a kind goes to. -/
def FileState.inboundOf (s : FileState) : FileMessageType → ExtTreeMap String InboundTransfer
  | .sfuFileOffer => s.roomFileMgr.inbound
  | _ => s.fileMgr.inbound

/-- Transfers belong to their counterpart: a message leaves those of others as
they are, and an offer is recorded for the peer who signed it. A room's file on
offer is nobody's in particular; a request starts it for whoever asks. -/
structure Belongs (env : FileInboundEnv) (msg : FileSignal) (kind : FileMessageType)
    (s s' : FileState) : Prop where
  inbound : KeepsInbound msg.sender s.fileMgr s'.fileMgr
  outbound : KeepsOutbound msg.sender s.fileMgr s'.fileMgr
  roomInbound : KeepsInbound msg.sender s.roomFileMgr s'.roomFileMgr
  roomOutbound : kind ≠ .sfuFileRequest → s'.roomFileMgr.outbound = s.roomFileMgr.outbound
  originator : ∀ o x, Admits env s.disk msg kind o → (s'.inboundOf kind)[o.transferId]? = some x →
    ¬ Foreign msg.sender x.peerId

/-- The message reaches a transfer of somebody else in a state in which its
handler acts, or it offers a file in the name of somebody else. -/
def Trespasses (P : Platform) (env : FileInboundEnv) (s : FileState) (msg : FileSignal) :
    FileMessageType → Prop
  | .fileTransferOffer => ∃ o, Admits env s.disk msg .fileTransferOffer o ∧
      ∃ x, s.fileMgr.inbound[o.transferId]? = some x ∧ Foreign msg.sender x.peerId
  | .fileTransferAccept => ∃ x, s.fileMgr.outbound[transferIdOf msg]? = some x ∧
      Foreign msg.sender x.peerId ∧ x.state = .pending
  | .fileTransferReject => ∃ x, s.fileMgr.outbound[transferIdOf msg]? = some x ∧
      Foreign msg.sender x.peerId ∧ x.state ≠ .rejected
  | .fileTransferChunk => ∃ x, s.fileMgr.inbound[transferIdOf msg]? = some x ∧
      Foreign msg.sender x.peerId ∧
      if (P.decodeB64Std ((msg.payload.str? "data").getD "")).isSome then
        ChunkActs env.file (chunkIndexOf msg) x
      else FileTransferManager.failedInbound env.file x ≠ x
  | .fileTransferComplete => ∃ x, s.fileMgr.inbound[transferIdOf msg]? = some x ∧
      Foreign msg.sender x.peerId ∧ CompleteActs x
  | .fileTransferAck => ∃ x, s.fileMgr.outbound[transferIdOf msg]? = some x ∧
      Foreign msg.sender x.peerId ∧ (x.state ≠ .complete ∨ x.finishedAt ≠ some env.file.now)
  | .fileTransferError => ∃ x, s.fileMgr.outbound[transferIdOf msg]? = some x ∧
      Foreign msg.sender x.peerId ∧ x.state ≠ .failed
  | .sfuFileOffer => ∃ o, Admits env s.disk msg .sfuFileOffer o ∧
      (Foreign msg.sender (originOf msg) ∨
        ∃ x, s.roomFileMgr.inbound[o.transferId]? = some x ∧ Foreign msg.sender x.peerId)
  | .sfuFileRequest => False
  | .sfuFileRevoke => False
  | .sfuFileChunk => (openedChunk P env msg).isSome ∧
      ∃ x, s.roomFileMgr.inbound[transferIdOf msg]? = some x ∧ Foreign msg.sender x.peerId ∧
        ChunkActs env.file (chunkIndexOf msg) x
  | .sfuFileComplete => ∃ x, s.roomFileMgr.inbound[transferIdOf msg]? = some x ∧
      Foreign msg.sender x.peerId ∧ CompleteActs x

section Counterpart

variable {P : Platform} {Z : Zlib} {env : FileInboundEnv} {me : String} {s s' : FileState}
  {msg : FileSignal} {m m' : FileTransferManager} {tid : String}

theorem InboundEffect.keeps_iff {acts : InboundTransfer → Prop} (h : InboundEffect tid acts m m')
    (signer : PublicId) : KeepsInbound signer m m' ↔
      ¬ ∃ x, m.inbound[tid]? = some x ∧ Foreign signer x.peerId ∧ acts x := by
  refine ⟨fun hkeeps ⟨x, hx, hforeign, hacts⟩ => ?_, fun hnone t x hx hforeign => ?_⟩
  · obtain ⟨x', hx', -, hiff⟩ := h.record x hx
    have hsame : x' = x := Option.some.inj (hx'.symm.trans (hkeeps tid x hx hforeign))
    exact hiff.mp hsame hacts
  · by_cases ht : t = tid
    · subst ht
      obtain ⟨x', hx', -, hiff⟩ := h.record x hx
      rw [hx', hiff.mpr fun hacts => hnone ⟨x, hx, hforeign, hacts⟩]
    · rw [h.elsewhere t ht, hx]

theorem OutboundEffect.keeps_iff {acts : OutboundTransfer → Prop}
    (h : OutboundEffect tid acts m m') (signer : PublicId) : KeepsOutbound signer m m' ↔
      ¬ ∃ x, m.outbound[tid]? = some x ∧ Foreign signer x.peerId ∧ acts x := by
  refine ⟨fun hkeeps ⟨x, hx, hforeign, hacts⟩ => ?_, fun hnone t x hx hforeign => ?_⟩
  · obtain ⟨x', hx', hiff⟩ := h.record x hx
    have hsame : x' = x := Option.some.inj (hx'.symm.trans (hkeeps tid x hx hforeign))
    exact hiff.mp hsame hacts
  · by_cases ht : t = tid
    · subst ht
      obtain ⟨x', hx', hiff⟩ := h.record x hx
      rw [hx', hiff.mpr fun hacts => hnone ⟨x, hx, hforeign, hacts⟩]
    · rw [h.elsewhere t ht, hx]

theorem keepsInbound_of_eq {signer : PublicId} (h : m'.inbound = m.inbound) :
    KeepsInbound signer m m' := by
  intro t x hx _
  rw [h, hx]

theorem keepsOutbound_of_eq {signer : PublicId} (h : m'.outbound = m.outbound) :
    KeepsOutbound signer m m' := by
  intro t x hx _
  rw [h, hx]

theorem not_admits {kind : FileMessageType} (hkind : offerIn msg kind = none)
    (o : FileTransferManager.OfferFields) : ¬ Admits env s.disk msg kind o := by
  intro h
  have hoffer := h.2.1
  rw [hkind] at hoffer
  cases hoffer

theorem belongs_iff_outbound {kind : FileMessageType} {acts : OutboundTransfer → Prop}
    (hkind : offerIn msg kind = none) (hroom : s'.roomFileMgr = s.roomFileMgr)
    (h : OutboundEffect tid acts s.fileMgr s'.fileMgr) :
    Belongs env msg kind s s' ↔
      ¬ ∃ x, s.fileMgr.outbound[tid]? = some x ∧ Foreign msg.sender x.peerId ∧ acts x := by
  rw [← h.keeps_iff msg.sender]
  refine ⟨Belongs.outbound, fun hkeeps => ⟨keepsInbound_of_eq h.inbound, hkeeps,
    keepsInbound_of_eq (by rw [hroom]), fun _ => by rw [hroom], fun o _ hadmits => ?_⟩⟩
  exact absurd hadmits (not_admits hkind o)

theorem belongs_iff_inbound {kind : FileMessageType} {acts : InboundTransfer → Prop}
    (hkind : offerIn msg kind = none) (hroom : s'.roomFileMgr = s.roomFileMgr)
    (h : InboundEffect tid acts s.fileMgr s'.fileMgr) :
    Belongs env msg kind s s' ↔
      ¬ ∃ x, s.fileMgr.inbound[tid]? = some x ∧ Foreign msg.sender x.peerId ∧ acts x := by
  rw [← h.keeps_iff msg.sender]
  refine ⟨Belongs.inbound, fun hkeeps => ⟨hkeeps, keepsOutbound_of_eq h.outbound,
    keepsInbound_of_eq (by rw [hroom]), fun _ => by rw [hroom], fun o _ hadmits => ?_⟩⟩
  exact absurd hadmits (not_admits hkind o)

theorem belongs_iff_roomInbound {kind : FileMessageType} {acts : InboundTransfer → Prop}
    (hkind : offerIn msg kind = none) (hdirect : s'.fileMgr = s.fileMgr)
    (h : InboundEffect tid acts s.roomFileMgr s'.roomFileMgr) :
    Belongs env msg kind s s' ↔
      ¬ ∃ x, s.roomFileMgr.inbound[tid]? = some x ∧ Foreign msg.sender x.peerId ∧ acts x := by
  rw [← h.keeps_iff msg.sender]
  refine ⟨Belongs.roomInbound, fun hkeeps => ⟨keepsInbound_of_eq (by rw [hdirect]),
    keepsOutbound_of_eq (by rw [hdirect]), hkeeps, fun _ => h.outbound, fun o _ hadmits => ?_⟩⟩
  exact absurd hadmits (not_admits hkind o)

theorem belongs_refl {kind : FileMessageType} (h : ∀ o, ¬ Admits env s.disk msg kind o) :
    Belongs env msg kind s s :=
  ⟨keepsInbound_of_eq rfl, keepsOutbound_of_eq rfl, keepsInbound_of_eq rfl, fun _ => rfl,
    fun o _ hadmits => absurd hadmits (h o)⟩

theorem not_foreign_self (signer : PublicId) : ¬ Foreign signer signer.text := by
  simp [Foreign, samePad]

/-- What an offer does to a manager: nothing when it is not admitted, else its
record is put in, in the name of the originator. -/
def Offered (env : FileInboundEnv) (disk : Disk) (msg : FileSignal) (kind : FileMessageType)
    (origin : String) (m m' : FileTransferManager) : Prop :=
  ((∀ o, ¬ Admits env disk msg kind o) ∧ m' = m) ∨
    ∃ o x, Admits env disk msg kind o ∧ x.peerId = origin ∧ m' = m.setInbound o.transferId x

theorem Admits.unique {disk : Disk} {kind : FileMessageType}
    {o o' : FileTransferManager.OfferFields} (h : Admits env disk msg kind o)
    (h' : Admits env disk msg kind o') : o = o' :=
  Option.some.inj (h.2.1.symm.trans h'.2.1)

theorem Offered.outbound {disk : Disk} {kind : FileMessageType} {origin : String}
    (h : Offered env disk msg kind origin m m') : m'.outbound = m.outbound := by
  rcases h with ⟨-, rfl⟩ | ⟨o, x, -, -, rfl⟩
  · rfl
  · rfl

theorem Offered.keeps_iff {disk : Disk} {kind : FileMessageType} {origin : String}
    (h : Offered env disk msg kind origin m m') :
    (KeepsInbound msg.sender m m' ∧ ∀ o x, Admits env disk msg kind o →
        m'.inbound[o.transferId]? = some x → ¬ Foreign msg.sender x.peerId) ↔
      ¬ ∃ o, Admits env disk msg kind o ∧ (Foreign msg.sender origin ∨
        ∃ x, m.inbound[o.transferId]? = some x ∧ Foreign msg.sender x.peerId) := by
  rcases h with ⟨hnone, rfl⟩ | ⟨o, x', hadmits, rfl, rfl⟩
  · refine ⟨fun _ ⟨o, hadmits, _⟩ => hnone o hadmits, fun _ => ⟨keepsInbound_of_eq rfl, ?_⟩⟩
    exact fun o _ hadmits => absurd hadmits (hnone o)
  constructor
  · rintro ⟨hkeeps, horigin⟩ ⟨o', hadmits', hforeign | ⟨x, hx, hforeign⟩⟩
    · exact horigin o x' hadmits (getElem?_setInbound _ _ _) hforeign
    · obtain rfl := hadmits.unique hadmits'
      have hsame := hkeeps _ x hx hforeign
      rw [getElem?_setInbound] at hsame
      rw [← Option.some.inj hsame] at hforeign
      exact horigin o x' hadmits (getElem?_setInbound _ _ _) hforeign
  · intro hnone
    refine ⟨fun t x hx hforeign => ?_, fun o' x hadmits' hx hforeign => ?_⟩
    · have ht : t ≠ o.transferId := by
        rintro rfl
        exact hnone ⟨o, hadmits, .inr ⟨x, hx, hforeign⟩⟩
      rw [getElem?_setInbound_of_ne m x' ht, hx]
    · obtain rfl := hadmits.unique hadmits'
      rw [getElem?_setInbound] at hx
      rw [← Option.some.inj hx] at hforeign
      exact hnone ⟨o, hadmits, .inl hforeign⟩

theorem offered_onOfferReceivedWithRoom (kind : FileMessageType) {disk : Disk}
    {o : FileTransferManager.OfferFields} (hgate : env.gateThroughFeature = true)
    (hfields : offerIn msg kind = some o) (origin roomId supernodeId : String) :
    Offered env disk msg kind origin m
      (m.onOfferReceivedWithRoom env.file disk origin roomId supernodeId o).1 := by
  unfold FileTransferManager.onOfferReceivedWithRoom
  cases hsink : FileTransferManager.offerSink env.file disk o with
  | error reason =>
    refine .inl ⟨fun o' ⟨_, hfields', r, hr⟩ => ?_, rfl⟩
    obtain rfl : o = o' := Option.some.inj (hfields.symm.trans hfields')
    rw [hsink] at hr
    cases hr
  | ok r => exact .inr ⟨o, _, ⟨hgate, hfields, r, hsink⟩, rfl, rfl⟩

theorem not_admits_of_gate {kind : FileMessageType} {disk : Disk}
    (hgate : (!env.gateThroughFeature) = true) (o : FileTransferManager.OfferFields) :
    ¬ Admits env disk msg kind o := by
  intro hadmits
  rw [hadmits.1] at hgate
  cases hgate

theorem offered_handleFileTransferOffer (env : FileInboundEnv) (s : FileState)
    (msg : FileSignal) :
    Offered env s.disk msg .fileTransferOffer msg.sender.text s.fileMgr
      (handleFileTransferOffer env s msg).fileMgr := by
  unfold handleFileTransferOffer
  split
  · next hgate => exact .inl ⟨not_admits_of_gate hgate, rfl⟩
  · next hgate =>
    rw [Bool.not_eq_true', Bool.not_eq_false] at hgate
    split
    · next hfields => exact .inl ⟨not_admits hfields, rfl⟩
    · next o hfields =>
      simp only [FileState.direct, FileTransferManager.onOfferReceived]
      rw [(noFileData_onOfferReceivedWithRoom _ _ _ _).dispatchTransferEvents]
      exact offered_onOfferReceivedWithRoom .fileTransferOffer hgate hfields _ _ _

theorem offered_handleSfuFileOffer (P : Platform) (env : FileInboundEnv) (s : FileState)
    (msg : FileSignal) (supernodeId : String) :
    Offered env s.disk msg .sfuFileOffer (originOf msg) s.roomFileMgr
      (handleSfuFileOffer P env s msg supernodeId).roomFileMgr := by
  unfold handleSfuFileOffer
  split
  · next hgate => exact .inl ⟨not_admits_of_gate hgate, rfl⟩
  · next hgate =>
    rw [Bool.not_eq_true', Bool.not_eq_false] at hgate
    split
    · next hfields => exact .inl ⟨not_admits hfields, rfl⟩
    · next o hfields =>
      simp only [FileState.room]
      rw [(noFileData_onOfferReceivedWithRoom _ _ _ _).dispatchRoomTransferEvents]
      exact offered_onOfferReceivedWithRoom .sfuFileOffer hgate hfields _ _ _

theorem roomFileMgr_handleFileTransferOffer (env : FileInboundEnv) (s : FileState)
    (msg : FileSignal) :
    (handleFileTransferOffer env s msg).roomFileMgr = s.roomFileMgr := by
  unfold handleFileTransferOffer
  split
  · rfl
  · split
    · rfl
    · rfl

theorem fileMgr_handleSfuFileOffer (P : Platform) (env : FileInboundEnv) (s : FileState)
    (msg : FileSignal) (supernodeId : String) :
    (handleSfuFileOffer P env s msg supernodeId).fileMgr = s.fileMgr := by
  unfold handleSfuFileOffer
  split
  · rfl
  · split
    · rfl
    · rfl

theorem belongs_fileTransferOffer :
    Belongs env msg .fileTransferOffer s (handleFileTransferOffer env s msg) ↔
      ¬ Trespasses P env s msg .fileTransferOffer := by
  have hoffered := offered_handleFileTransferOffer env s msg
  have hroom := roomFileMgr_handleFileTransferOffer env s msg
  refine Iff.trans ⟨fun h => ⟨h.inbound, h.originator⟩, fun h => ?_⟩
    (hoffered.keeps_iff.trans (not_congr ⟨?_, ?_⟩))
  · exact ⟨h.1, keepsOutbound_of_eq hoffered.outbound, keepsInbound_of_eq (by rw [hroom]),
      fun _ => by rw [hroom], h.2⟩
  · rintro ⟨o, hadmits, hforeign | htaken⟩
    · exact absurd hforeign (not_foreign_self msg.sender)
    · exact ⟨o, hadmits, htaken⟩
  · rintro ⟨o, hadmits, htaken⟩
    exact ⟨o, hadmits, .inr htaken⟩

theorem belongs_sfuFileOffer (supernodeId : String) :
    Belongs env msg .sfuFileOffer s (handleSfuFileOffer P env s msg supernodeId) ↔
      ¬ Trespasses P env s msg .sfuFileOffer := by
  have hoffered := offered_handleSfuFileOffer P env s msg supernodeId
  have hdirect := fileMgr_handleSfuFileOffer P env s msg supernodeId
  refine Iff.trans ⟨fun h => ⟨h.roomInbound, h.originator⟩, fun h => ?_⟩ hoffered.keeps_iff
  exact ⟨keepsInbound_of_eq (by rw [hdirect]), keepsOutbound_of_eq (by rw [hdirect]), h.1,
    fun _ => hoffered.outbound, h.2⟩

theorem belongs_fileTransferChunk :
    Belongs env msg .fileTransferChunk s (handleFileTransferChunk P Z env s msg) ↔
      ¬ Trespasses P env s msg .fileTransferChunk := by
  simp only [Trespasses]
  unfold handleFileTransferChunk
  simp only
  split
  · next hunknown =>
    -- an unknown transfer whose chunk the quota refuses
    have hnone : s.fileMgr.inbound[transferIdOf msg]? = none := by
      rw [Bool.and_eq_true, Bool.not_eq_true'] at hunknown
      exact ExtTreeMap.getElem?_eq_none_of_contains_eq_false hunknown.1
    refine ⟨fun _ ⟨x, hx, _⟩ => ?_, fun _ => belongs_refl (not_admits rfl)⟩
    rw [hnone] at hx
    cases hx
  · refine belongs_iff_inbound rfl rfl ?_
    simp only [FileState.direct]
    rw [(noFileData_onChunkReceived _ _).dispatchTransferEvents]
    unfold FileTransferManager.onChunkReceived
    cases P.decodeB64Std ((msg.payload.str? "data").getD "") with
    | none => exact failInbound_effect _ _ _ _ _
    | some data => exact onChunkBytesReceived_effect _ _

theorem belongs_sfuFileChunk :
    Belongs env msg .sfuFileChunk s (handleSfuFileChunk P Z env s msg) ↔
      ¬ Trespasses P env s msg .sfuFileChunk := by
  simp only [Trespasses]
  unfold handleSfuFileChunk
  simp only
  split
  · next hunknown =>
    have hnone : s.roomFileMgr.inbound[transferIdOf msg]? = none := by
      rw [Bool.and_eq_true, Bool.not_eq_true'] at hunknown
      exact ExtTreeMap.getElem?_eq_none_of_contains_eq_false hunknown.1
    refine ⟨fun _ ⟨_, x, hx, _⟩ => ?_, fun _ => belongs_refl (not_admits rfl)⟩
    rw [hnone] at hx
    cases hx
  · split
    · next hsealed =>
      rw [hsealed]
      exact ⟨fun _ h => Bool.noConfusion h.1, fun _ => belongs_refl (not_admits rfl)⟩
    · next plain hopened =>
      simp only [hopened, Option.isSome_some, true_and]
      refine belongs_iff_roomInbound rfl rfl ?_
      simp only [FileState.room]
      rw [(noFileData_onChunkBytesReceived _ _).dispatchRoomTransferEvents]
      exact onChunkBytesReceived_effect _ _

theorem belongs_sfuFileRevoke : Belongs env msg .sfuFileRevoke s (handleSfuFileRevoke s msg) := by
  have hidle : Belongs env msg .sfuFileRevoke s s := belongs_refl (not_admits rfl)
  unfold handleSfuFileRevoke
  simp only
  split
  · exact hidle
  · split
    · exact hidle
    · next origin _ _ hroute =>
      split
      · next horigin =>
        refine ⟨keepsInbound_of_eq rfl, keepsOutbound_of_eq rfl, fun t x hx hforeign => ?_,
          fun _ => rfl, fun o _ hadmits => absurd hadmits (not_admits rfl o)⟩
        have ht : t ≠ transferIdOf msg := by
          rintro rfl
          simp only [FileTransferManager.inboundRoute, hx, Option.map_some, Option.some.injEq,
            Prod.mk.injEq] at hroute
          rw [hroute.1, horigin] at hforeign
          exact not_foreign_self _ hforeign
        simp only [FileTransferManager.discardInbound]
        rw [ExtTreeMap.getElem?_erase, if_neg (by simpa using ht.symm), hx]
      · exact hidle

theorem belongs_sfuFileRequest (supernodeId : String) :
    Belongs env msg .sfuFileRequest s
      (handleFileMessage P Z env me s msg supernodeId .sfuFileRequest) := by
  have hidle : Belongs env msg .sfuFileRequest s s := belongs_refl (not_admits rfl)
  simp only [handleFileMessage]
  rcases handleSfuFileRequest_cases P env.file s.disk env.net me s.roomFileMgr msg with
    ⟨t, x, -, -, -, hstream⟩ | hnone
  · rw [hstream]
    refine ⟨keepsInbound_of_eq rfl, keepsOutbound_of_eq rfl, keepsInbound_of_eq ?_,
      fun hkind => absurd rfl hkind, fun o _ hadmits => absurd hadmits (not_admits rfl o)⟩
    exact inbound_dispatchBatch _
  · split
    · next t requester m sent hstream => exact absurd hstream (hnone _ _ _ _)
    · exact hidle

/-- Every message leaves the transfers of others alone, and records an offer for
its signer, exactly unless it reaches a transfer of somebody else that its
handler acts on or declares another originator. -/
theorem transfers_belong_iff (P : Platform) (Z : Zlib) (env : FileInboundEnv) (me : String)
    (s : FileState) (hkeyed : s.fileMgr.Keyed) (msg : FileSignal) (supernodeId : String)
    (kind : FileMessageType) :
    Belongs env msg kind s (handleFileMessage P Z env me s msg supernodeId kind) ↔
      ¬ Trespasses P env s msg kind := by
  cases kind with
  | fileTransferOffer => exact belongs_fileTransferOffer
  | fileTransferAccept =>
    simp only [handleFileMessage, Trespasses]
    unfold handleFileTransferAccept
    simp only
    split
    · next hgone =>
      have hnone : s.fileMgr.outbound[transferIdOf msg]? = none := by
        rw [Bool.not_eq_true'] at hgone
        exact ExtTreeMap.getElem?_eq_none_of_contains_eq_false hgone
      refine ⟨fun _ htrespass => ?_, fun _ => belongs_refl (not_admits rfl)⟩
      obtain ⟨x, hx, -⟩ := htrespass
      rw [hnone] at hx
      cases hx
    · exact belongs_iff_outbound rfl rfl (onTransferAccepted_effect env.net hkeyed)
  | fileTransferReject =>
    refine belongs_iff_outbound rfl rfl ?_
    simp only [handleFileMessage, handleFileTransferReject, FileState.direct]
    rw [(noFileData_onTransferRejected _ _).dispatchTransferEvents]
    exact onTransferRejected_effect _ _
  | fileTransferChunk => exact belongs_fileTransferChunk
  | fileTransferComplete =>
    refine belongs_iff_inbound rfl rfl ?_
    simp only [handleFileMessage, handleFileTransferComplete, FileState.direct]
    rw [noFileData_onCompleteReceived.dispatchTransferEvents]
    exact onCompleteReceived_effect
  | fileTransferAck =>
    refine belongs_iff_outbound rfl rfl ?_
    simp only [handleFileMessage, handleFileTransferAck, FileState.direct]
    rw [(noFileData_onTransferAck _ _ _).dispatchTransferEvents]
    exact onTransferAck_effect _ _ _
  | fileTransferError =>
    refine belongs_iff_outbound rfl rfl ?_
    simp only [handleFileMessage, handleFileTransferError, FileState.direct]
    rw [(noFileData_onTransferError _ _ _).dispatchTransferEvents]
    exact onTransferError_effect _ _ _
  | sfuFileOffer => exact belongs_sfuFileOffer supernodeId
  | sfuFileRequest => exact ⟨fun _ h => h, fun _ => belongs_sfuFileRequest supernodeId⟩
  | sfuFileRevoke => exact ⟨fun _ h => h, fun _ => belongs_sfuFileRevoke⟩
  | sfuFileChunk => exact belongs_sfuFileChunk
  | sfuFileComplete =>
    refine belongs_iff_roomInbound rfl rfl ?_
    simp only [handleFileMessage, handleSfuFileComplete, FileState.room]
    rw [noFileData_onCompleteReceived.dispatchRoomTransferEvents]
    exact onCompleteReceived_effect

end Counterpart

/-! ## Somebody else answers -/

/-- `hi` on offer to Alice. -/
def hiToAlice : OutboundTransfer :=
  { hiShared with peerId := alice.text, purpose := "file" }

def hiOffered : FileState where
  fileMgr := FileTransferManager.new.setOutbound "t" hiToAlice
  roomFileMgr := .new
  disk := ∅

def hiInboundEnv : FileInboundEnv where
  file := hiEnv
  net := allOrNone true
  gateThroughFeature := true
  openFileChunk _ _ _ _ _ _ := none

/-- An offer of two bytes to a room, in Alice's name. -/
def forgedOffer : FileSignal where
  sender := bob
  payload := .obj [("transfer_id", .str "u"), ("sha256", .str "00"), ("size", .int 2),
    ("origin_id", .str alice.text)]

theorem hiToAlice_foreign_bob : Foreign bob hiToAlice.peerId :=
  show samePad alice.text bob.text = false by decide +kernel

/-- Bob declines what was offered to Alice, and Alice's transfer is rejected; and
what Bob offers in Alice's name is recorded as Alice's. -/
theorem bob_speaks_for_alice :
    ¬ Belongs hiInboundEnv (hiRequest bob) .fileTransferReject hiOffered
      (handleFileMessage hiPlatform storeZlib hiInboundEnv "me" hiOffered (hiRequest bob) "sn"
        .fileTransferReject) ∧
    ¬ Belongs hiInboundEnv forgedOffer .sfuFileOffer hiOffered
      (handleFileMessage hiPlatform storeZlib hiInboundEnv "me" hiOffered forgedOffer "sn"
        .sfuFileOffer) := by
  constructor
  · intro h
    have hkept := h.outbound "t" hiToAlice (getElem?_setOutbound _ _ _) hiToAlice_foreign_bob
    have hstate : ((handleFileMessage hiPlatform storeZlib hiInboundEnv "me" hiOffered
        (hiRequest bob) "sn" .fileTransferReject).fileMgr.outbound["t"]?.map
          OutboundTransfer.state) = some .rejected := by
      decide +kernel
    rw [hkept] at hstate
    cases hstate
  · intro h
    have hrecord : ((handleFileMessage hiPlatform storeZlib hiInboundEnv "me" hiOffered
        forgedOffer "sn" .sfuFileOffer).roomFileMgr.inbound["u"]?.map
          InboundTransfer.peerId) = some alice.text := by
      decide +kernel
    cases hx : (handleFileMessage hiPlatform storeZlib hiInboundEnv "me" hiOffered
        forgedOffer "sn" .sfuFileOffer).roomFileMgr.inbound["u"]? with
    | none =>
      rw [hx] at hrecord
      cases hrecord
    | some x =>
      rw [hx, Option.map_some, Option.some.injEq] at hrecord
      refine h.originator ⟨"u", "file", "00", 2, 1, "room_file", false, false, ""⟩ x
        ⟨rfl, by decide +kernel, _, rfl⟩ hx ?_
      rw [hrecord]
      exact hiToAlice_foreign_bob

theorem hiOffered_keyed : hiOffered.fileMgr.Keyed := by
  intro t x hx
  simp only [hiOffered, FileTransferManager.setOutbound, ExtTreeMap.getElem?_insert] at hx
  split at hx
  · next heq =>
    cases hx
    have hid : "t" = t := by simpa using heq
    exact hid
  · simp [FileTransferManager.new] at hx

/-- Alice declines for herself. -/
theorem alice_declines :
    Belongs hiInboundEnv (hiRequest alice) .fileTransferReject hiOffered
      (handleFileMessage hiPlatform storeZlib hiInboundEnv "me" hiOffered (hiRequest alice) "sn"
        .fileTransferReject) := by
  refine (transfers_belong_iff _ _ _ _ _ hiOffered_keyed _ _ _).mpr ?_
  rintro ⟨x, hx, hforeign, -⟩
  have hrecord : hiOffered.fileMgr.outbound[transferIdOf (hiRequest alice)]? = some hiToAlice :=
    getElem?_setOutbound _ _ _
  rw [hrecord] at hx
  cases hx
  exact not_foreign_self alice hforeign

end ConquerD.Client
