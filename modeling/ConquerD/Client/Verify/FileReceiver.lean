import ConquerD.Client.Verify.FileSender
import Mathlib.Data.Finset.Card
import Mathlib.Data.Finset.Range

/-!
# What a receiver makes of chunks and COMPLETE

The chunks of a payload and COMPLETE arrive in any order and any number of
times. The sink holds exactly the chunks that arrived; the step at which the
last of them and COMPLETE are both in verifies the content and hands it over,
and nothing after it changes anything.
-/

namespace ConquerD.Client

open Std (ExtTreeMap)
open Lib.Run (run)
open Lib.Chunks Lib.Encoding Wire

theorem chunkSize_pos : 0 < chunkSize := by decide

/-! ## The sink -/

inductive Holds (payload : Bytes) (total : Nat) (arrived : Finset Nat) (disk : Disk) :
    TransferSink → Prop where
  | memory {chunks : ExtTreeMap Nat Bytes}
    (hchunks : ∀ i, chunks[i]? = if i ∈ arrived then some (chunk chunkSize payload i) else none)
    (hsize : chunks.size = arrived.card) : Holds payload total arrived disk (.memory chunks)
  | partFile {path : String} {received : List Bool} {content : Bytes}
    (hlen : received.length = total)
    (hreceived : ∀ i < total, received[i]? = some (decide (i ∈ arrived)))
    (hdisk : disk[path]? = some content)
    (hcontent : ∀ i ∈ arrived, HasChunk chunkSize payload i content) :
    Holds payload total arrived disk (.partFile true path received arrived.card)

namespace Holds

variable {payload : Bytes} {total i : Nat} {arrived : Finset Nat} {disk : Disk} {env : FileEnv}
  {x : InboundTransfer}

theorem receivedCount {sink : TransferSink} (h : Holds payload total arrived disk sink) :
    sink.receivedCount = arrived.card := by
  cases h with
  | memory _ hsize => exact hsize
  | partFile => rfl

theorem memory_empty : Holds payload total ∅ disk (.memory ∅) :=
  .memory (fun i => by simp) rfl

theorem partFile_empty {path : String} (hdisk : disk[path]? = some []) :
    Holds payload total ∅ disk (.partFile true path (List.replicate total false) 0) := by
  refine .partFile (List.length_replicate) (fun i hi => ?_) hdisk
    fun i hi => absurd hi (Finset.notMem_empty i)
  rw [List.getElem?_replicate, if_pos hi]
  simp

theorem storeChunk_old (h : Holds payload total arrived disk x.sink) (htotal : x.totalChunks = total)
    (hi : i < total) (hold : i ∈ arrived) {data : Bytes} :
    x.storeChunk env disk i data = (x, disk, false) := by
  unfold InboundTransfer.storeChunk
  rw [if_neg (by omega)]
  generalize hsink : x.sink = sink at h
  cases h with
  | memory hchunks hsize =>
    have hin := hchunks i
    rw [if_pos hold] at hin
    simp only [ExtTreeMap.contains_eq_isSome_getElem?, hin, Option.isSome_some, if_true]
  | partFile hlen hreceived hdisk hcontent =>
    have hin := hreceived i hi
    rw [decide_eq_true hold] at hin
    simp only [List.getD_eq_getElem?_getD, hin, Option.getD_some, if_true]

theorem storeChunk_new (h : Holds payload total arrived disk x.sink) (htotal : x.totalChunks = total)
    (hi : i < total) (hnew : i ∉ arrived) (hwrite : env.canWrite = true) :
    ∃ sink disk', x.storeChunk env disk i (chunk chunkSize payload i) =
        ({ x with sink := sink }, disk', true) ∧
      Holds payload total (insert i arrived) disk' sink ∧
      ({ x with sink := sink } : InboundTransfer).isStreaming = x.isStreaming := by
  unfold InboundTransfer.storeChunk
  rw [if_neg (by omega)]
  generalize hsink : x.sink = sink at h
  cases h with
  | @memory chunks hchunks hsize =>
    have hout := hchunks i
    rw [if_neg hnew] at hout
    have hnot : chunks.contains i = false := by
      rw [ExtTreeMap.contains_eq_isSome_getElem?, hout]
      rfl
    simp only [hnot, Bool.false_eq_true, if_false]
    refine ⟨_, _, rfl, .memory (fun j => ?_) ?_, by simp only [InboundTransfer.isStreaming, hsink]⟩
    · rw [ExtTreeMap.getElem?_insert]
      by_cases hij : i = j
      · subst hij
        simp
      · rw [if_neg (by simpa using hij), hchunks j]
        simp [Ne.symm hij]
    · rw [ExtTreeMap.size_insert, if_neg (by simp [hnot]), hsize,
        Finset.card_insert_of_notMem hnew]
  | @partFile path received content hlen hreceived hdisk hcontent =>
    have hout := hreceived i hi
    rw [decide_eq_false hnew] at hout
    simp only [List.getD_eq_getElem?_getD, hout, Option.getD_some, Bool.false_eq_true, if_false,
      Bool.not_true, hwrite]
    rw [← Finset.card_insert_of_notMem hnew]
    have hwritten : ∀ j ∈ insert i arrived, HasChunk chunkSize payload j
        (writeAt 0 content (i * chunkSize) (chunk chunkSize payload i)) := by
      intro j hj
      rcases Finset.mem_insert.mp hj with rfl | hold
      · exact hasChunk_writeAt _ _ _ _ _
      · exact (hcontent j hold).writeAt 0 fun hji => hnew (hji ▸ hold)
    refine ⟨_, _, rfl, .partFile ?_ (fun j hj => ?_) ?_ hwritten,
      by simp only [InboundTransfer.isStreaming, hsink]⟩
    · rw [List.length_set, hlen]
    · rw [List.getElem?_set]
      by_cases hij : i = j
      · subst hij
        simp [hlen, hi]
      · rw [if_neg hij, hreceived j hj]
        simp [Ne.symm hij]
    · rw [ExtTreeMap.getElem?_alter_self, hdisk]
      rfl

end Holds

/-! ## Handing the content over -/

/-- The contents handed over among what happened, each with its transfer. -/
def completions (evs : List TransferEvent) : List (String × TransferPayload) :=
  evs.filterMap fun
    | .complete transferId _ _ _ _ payload _ => some (transferId, payload)
    | _ => none

/-- The transfers turned down among what happened, each with the reason. -/
def rejections (evs : List TransferEvent) : List (String × String) :=
  evs.filterMap fun
    | .sendMessage _ (.reject transferId reason) => some (transferId, reason)
    | _ => none

@[simp] theorem completions_append (evs evs' : List TransferEvent) :
    completions (evs ++ evs') = completions evs ++ completions evs' :=
  List.filterMap_append

@[simp] theorem rejections_append (evs evs' : List TransferEvent) :
    rejections (evs ++ evs') = rejections evs ++ rejections evs' :=
  List.filterMap_append

/-- What was handed over: the bytes, or what the disk has under the path. -/
def TransferPayload.content (disk : Disk) : TransferPayload → Option Bytes
  | .bytes data => some data
  | .savedAt path _ => disk[path]?

section Finish

variable {P : Platform} {Z : Zlib} {old : ExtTreeMap String Bytes} {payload data : Bytes}
  {tid : String} {env : FileEnv} {disk : Disk} {m : FileTransferManager} {x : InboundTransfer}

/-- The record of an accepted offer, against the payload its chunks are of and
the content they stand for. -/
structure Carries (P : Platform) (Z : Zlib) (old : ExtTreeMap String Bytes) (payload data : Bytes)
    (x : InboundTransfer) : Prop where
  transferring : x.state = .transferring
  total : x.totalChunks = chunkCount chunkSize payload.length
  assembles : x.isStreaming = false → ∀ m : FileTransferManager, m.oldDataStore = old →
    m.assemble P Z x payload = .ok data
  verbatim : x.isStreaming = true →
    payload = data ∧ x.expectedSize = data.length ∧ x.expectedSha256 = P.sha256Hex data

theorem Carries.store (h : Carries P Z old payload data x) {sink : TransferSink}
    (hstream : ({ x with sink := sink } : InboundTransfer).isStreaming = x.isStreaming) :
    Carries P Z old payload data { x with sink := sink } :=
  ⟨h.transferring, h.total, fun hs m hm => h.assembles (hstream ▸ hs) m hm,
    fun hs => h.verbatim (hstream ▸ hs)⟩

theorem reassemble_of_holds {arrived : Finset Nat}
    (hholds : Holds payload (chunkCount chunkSize payload.length) arrived disk x.sink)
    (htotal : x.totalChunks = chunkCount chunkSize payload.length)
    (hall : arrived = Finset.range (chunkCount chunkSize payload.length))
    (hmemory : x.isStreaming = false) : x.reassemble = payload := by
  unfold InboundTransfer.reassemble InboundTransfer.isStreaming at *
  generalize x.sink = sink at hholds hmemory
  cases hholds with
  | @memory chunks hchunks hsize =>
    have hwhole := flatMap_chunk_eq (le_chunkCount_mul chunkSize_pos payload.length)
    refine Eq.trans ?_ hwhole
    simp only [htotal]
    refine List.flatMap_congr fun i hi => ?_
    rw [hchunks i, if_pos (hall ▸ Finset.mem_range.mpr (List.mem_range.mp hi))]
    rfl
  | partFile => cases hmemory

theorem content_of_holds {arrived : Finset Nat} {isOpen : Bool} {path : String}
    {received : List Bool} {count : Nat}
    (hholds : Holds payload (chunkCount chunkSize payload.length) arrived disk
      (.partFile isOpen path received count))
    (hall : arrived = Finset.range (chunkCount chunkSize payload.length)) :
    isOpen = true ∧ ∃ content, disk[path]? = some content ∧
      setLen 0 content payload.length = payload := by
  cases hholds with
  | @partFile _ _ content hlen hreceived hdisk hcontent =>
    refine ⟨rfl, content, hdisk, ?_⟩
    refine setLen_eq 0 chunkSize_pos (le_chunkCount_mul chunkSize_pos payload.length) fun i hi => ?_
    exact hcontent i (hall ▸ Finset.mem_range.mpr hi)

theorem finishInbound_of_whole (hrec : m.inbound[tid]? = some x)
    (hx : Carries P Z old payload data x) (hold : m.oldDataStore = old) {arrived : Finset Nat}
    (hholds : Holds payload (chunkCount chunkSize payload.length) arrived disk x.sink)
    (hall : arrived = Finset.range (chunkCount chunkSize payload.length))
    (henv : env.StorageWorks) :
    ∃ m' disk' x' content, m.finishInbound P Z env disk tid =
        (m', disk', FileTransferManager.completeEvents tid x' content) ∧
      (∃ x'', m'.inbound[tid]? = some x'' ∧ x''.state = .complete) ∧
      content.content disk' = some data := by
  have hcount : x.chunksReceived = x.totalChunks := by
    rw [InboundTransfer.chunksReceived, hholds.receivedCount, hx.total, hall, Finset.card_range]
  unfold FileTransferManager.finishInbound
  simp only [hrec, hx.transferring, hcount, ne_eq, not_true_eq_false, or_self, if_false]
  by_cases hstream : x.isStreaming = true
  · simp only [hstream, if_true]
    obtain ⟨hsame, hsize, hsha⟩ := hx.verbatim hstream
    subst hsame
    unfold FileTransferManager.finishStreaming
    simp only [hrec]
    unfold InboundTransfer.isStreaming at hstream
    generalize hsink : x.sink = sink at hholds hstream
    cases sink with
    | memory chunks => cases hstream
    | partFile isOpen path received count =>
      obtain ⟨rfl, content, hdisk, hcut⟩ := content_of_holds hholds hall
      obtain ⟨-, -, hfinalize, hread, hrename⟩ := henv
      have hverify : FileTransferManager.verifyPart P env disk path
          { x with sink := .partFile false path received count } =
          .ok (disk.insert path payload) := by
        simp only [FileTransferManager.verifyPart, hfinalize, hread, hdisk, hsize, hsha, hcut,
          Bool.not_true, Bool.false_eq_true, ne_eq, not_true_eq_false, if_false]
      simp only [Bool.not_true, Bool.false_eq_true, if_false, hverify]
      have hpart : (disk.insert path payload)[path]? = some payload :=
        ExtTreeMap.getElem?_insert_self
      simp only [promotePartFile, hpart, hrename, if_true]
      exact ⟨_, _, _, _, rfl, ⟨_, ExtTreeMap.getElem?_insert_self, rfl⟩,
        ExtTreeMap.getElem?_insert_self⟩
  · rw [Bool.not_eq_true] at hstream
    have hassemble := hx.assembles hstream
      (m.setInbound tid { x with state := .verifying }) hold
    rw [reassemble_of_holds hholds hx.total hall hstream]
    simp only [hstream, Bool.false_eq_true, if_false, hassemble]
    exact ⟨_, _, _, _, rfl, ⟨_, ExtTreeMap.getElem?_insert_self, rfl⟩, rfl⟩

end Finish

/-! ## A run of the receiver -/

/-- A receiver, its disk and what happened. -/
structure ReceiverLog where
  manager : FileTransferManager
  disk : Disk
  events : List TransferEvent

/-- The manager acted, with what happened. -/
def ReceiverLog.did (L : ReceiverLog) (o : FileOutcome) : ReceiverLog :=
  ⟨o.1, o.2.1, L.events ++ o.2.2⟩

/-- A frame arrives; others than chunks and COMPLETE are not told here. -/
def ReceiverLog.step (P : Platform) (Z : Zlib) (L : ReceiverLog) (a : FileMessage × FileEnv) :
    ReceiverLog :=
  match a.1 with
  | .chunk transferId index data _ =>
    L.did (L.manager.onChunkReceived P Z a.2 L.disk transferId index data)
  | .complete transferId _ => L.did (L.manager.onCompleteReceived P Z a.2 L.disk transferId)
  | _ => L

section Run

variable {P : Platform} {Z : Zlib} {old : ExtTreeMap String Bytes} {payload data : Bytes}
  {tid : String} {arrived : Finset Nat} {completed : Bool} {L : ReceiverLog}

/-- The invariant of a run: the content was handed over once, or something is
still missing and the record says what. -/
inductive Receiving (P : Platform) (Z : Zlib) (old : ExtTreeMap String Bytes)
    (payload data : Bytes) (tid : String) (arrived : Finset Nat) (completed : Bool)
    (L : ReceiverLog) : Prop where
  | active {x : InboundTransfer} (hrec : L.manager.inbound[tid]? = some x)
    (hx : Carries P Z old payload data x) (hrequested : x.completeRequested = completed)
    (hold : L.manager.oldDataStore = old)
    (hholds : Holds payload (chunkCount chunkSize payload.length) arrived L.disk x.sink)
    (hin : arrived ⊆ Finset.range (chunkCount chunkSize payload.length))
    (hmore : ¬ (completed = true ∧ arrived = Finset.range (chunkCount chunkSize payload.length)))
    (hevents : completions L.events = [] ∧ rejections L.events = [])
  | done {x : InboundTransfer} (hrec : L.manager.inbound[tid]? = some x)
    (hstate : x.state = .complete) {content : TransferPayload}
    (hevents : completions L.events = [(tid, content)] ∧ rejections L.events = [])
    (hcontent : content.content L.disk = some data)

theorem Receiving.finish {m : FileTransferManager} {disk : Disk} {env : FileEnv}
    {x : InboundTransfer} (hrec : m.inbound[tid]? = some x)
    (hx : Carries P Z old payload data x) (hold : m.oldDataStore = old)
    (hholds : Holds payload (chunkCount chunkSize payload.length) arrived disk x.sink)
    (hall : arrived = Finset.range (chunkCount chunkSize payload.length))
    (henv : env.StorageWorks) (hevents : completions L.events = [] ∧ rejections L.events = []) :
    Receiving P Z old payload data tid arrived true
      (L.did (m.finishInbound P Z env disk tid)) := by
  obtain ⟨m', disk', x', content, hfinish, ⟨x'', hrec'', hstate⟩, hcontent⟩ :=
    finishInbound_of_whole hrec hx hold hholds hall henv
  rw [hfinish]
  have hone : completions (L.did (m', disk', FileTransferManager.completeEvents tid x'
      content)).events = [(tid, content)] := by
    simp only [ReceiverLog.did, completions_append, hevents.1]
    rfl
  have hno : rejections (L.did (m', disk', FileTransferManager.completeEvents tid x'
      content)).events = [] := by
    simp only [ReceiverLog.did, rejections_append, hevents.2]
    rfl
  exact .done hrec'' hstate ⟨hone, hno⟩ hcontent

theorem Receiving.chunk {env : FileEnv} {i : Nat}
    (h : Receiving P Z old payload data tid arrived completed L)
    (hi : i < chunkCount chunkSize payload.length) (henv : env.StorageWorks) :
    Receiving P Z old payload data tid (insert i arrived) completed
      (L.did (L.manager.onChunkBytesReceived P Z env L.disk tid i
        (Lib.Chunks.chunk chunkSize payload i))) := by
  have hquiet : L.did (L.manager, L.disk, []) = L := by
    simp only [ReceiverLog.did, List.append_nil]
  cases h with
  | done hrec hstate hevents hcontent =>
    simp only [FileTransferManager.onChunkBytesReceived, hrec, hstate, ne_eq, reduceCtorEq,
      not_false_eq_true, if_true, hquiet]
    exact .done hrec hstate hevents hcontent
  | @active x hrec hx hrequested hold hholds hin hmore hevents =>
    have hbound : ¬ i ≥ x.totalChunks := by
      rw [hx.total]
      exact not_le.mpr hi
    simp only [FileTransferManager.onChunkBytesReceived, hrec, hx.transferring, ne_eq,
      not_true_eq_false, if_false, hbound]
    by_cases hi' : i ∈ arrived
    · rw [hholds.storeChunk_old hx.total hi hi', Finset.insert_eq_of_mem hi']
      simp only [hquiet]
      exact .active hrec hx hrequested hold hholds hin hmore hevents
    · obtain ⟨sink, disk', hstore, hholds', hstream⟩ :=
        hholds.storeChunk_new hx.total hi hi' henv.2.1
      have hin' : insert i arrived ⊆ Finset.range (chunkCount chunkSize payload.length) :=
        Finset.insert_subset (Finset.mem_range.mpr hi) hin
      have hx' := hx.store hstream
      have hrequested' : ({ x with sink := sink } : InboundTransfer).completeRequested =
          completed := hrequested
      have hsink' : Holds payload (chunkCount chunkSize payload.length) (insert i arrived) disk'
          ({ x with sink := sink } : InboundTransfer).sink := hholds'
      rw [hstore]
      generalize ({ x with sink := sink } : InboundTransfer) = x' at hx' hrequested' hsink'
      have hcount : x'.chunksReceived = (insert i arrived).card := hsink'.receivedCount
      have hrec' : (L.manager.setInbound tid x').inbound[tid]? = some x' :=
        ExtTreeMap.getElem?_insert_self
      simp only [hcount, hrequested', hx'.total]
      split
      · next hwhole =>
        rw [Bool.and_eq_true, beq_iff_eq] at hwhole
        obtain ⟨rfl, hcard⟩ := hwhole
        refine .finish hrec' hx' hold hsink' ?_ henv hevents
        exact Finset.eq_of_subset_of_card_le hin' (by rw [hcard, Finset.card_range])
      · next hnot =>
        have hmore' : ¬ (completed = true ∧
            insert i arrived = Finset.range (chunkCount chunkSize payload.length)) := by
          rintro ⟨rfl, hall⟩
          rw [hall, Finset.card_range] at hnot
          simp at hnot
        split
        · refine .active hrec' hx' hrequested' hold hsink' hin' hmore' ?_
          simp only [ReceiverLog.did, completions_append, rejections_append, hevents]
          exact ⟨rfl, rfl⟩
        · refine .active hrec' hx' hrequested' hold hsink' hin' hmore' ?_
          simp only [ReceiverLog.did, List.append_nil]
          exact hevents

theorem Receiving.complete {env : FileEnv}
    (h : Receiving P Z old payload data tid arrived completed L) (henv : env.StorageWorks) :
    Receiving P Z old payload data tid arrived true
      (L.did (L.manager.onCompleteReceived P Z env L.disk tid)) := by
  have hquiet : L.did (L.manager, L.disk, []) = L := by
    simp only [ReceiverLog.did, List.append_nil]
  cases h with
  | done hrec hstate hevents hcontent =>
    simp only [FileTransferManager.onCompleteReceived, hrec, hstate, ne_eq, reduceCtorEq,
      not_false_eq_true, if_true, hquiet]
    exact .done hrec hstate hevents hcontent
  | @active x hrec hx hrequested hold hholds hin hmore hevents =>
    have hcount : x.chunksReceived = arrived.card := hholds.receivedCount
    have hx' : Carries P Z old payload data { x with completeRequested := true } :=
      ⟨hx.transferring, hx.total, hx.assembles, hx.verbatim⟩
    unfold FileTransferManager.onCompleteReceived
    simp only [hrec]
    rw [if_neg (not_not.mpr hx.transferring), hcount]
    split
    · next hless =>
      rw [hx.total] at hless
      refine .active ExtTreeMap.getElem?_insert_self hx' rfl hold hholds hin ?_ ?_
      · rintro ⟨-, hall⟩
        rw [hall, Finset.card_range] at hless
        exact hless rfl
      · simp only [ReceiverLog.did, List.append_nil]
        exact hevents
    · next hwhole =>
      rw [not_not, hx.total] at hwhole
      refine .finish hrec hx hold hholds ?_ henv hevents
      exact Finset.eq_of_subset_of_card_le hin (by rw [hwhole, Finset.card_range])

/-- What is known to have arrived after a run. -/
structure Arrived (P : Platform) (payload : Bytes) (tid : String) (arrived : Finset Nat)
    (completed : Bool) (arrivals : List (FileMessage × FileEnv)) : Prop where
  chunks : ∀ i toPeer env, (chunkMessage P payload tid i toPeer, env) ∈ arrivals → i ∈ arrived
  complete : ∀ toPeer env, (.complete tid toPeer, env) ∈ arrivals → completed = true

theorem Receiving.run (hb64 : ∀ bs, P.decodeB64Std (P.encodeB64Std bs) = some bs)
    {arrivals : List (FileMessage × FileEnv)}
    (h : Receiving P Z old payload data tid arrived completed L)
    (hgenuine : ∀ a ∈ arrivals, IsFrame P payload tid a.1)
    (henv : ∀ a ∈ arrivals, a.2.StorageWorks) :
    ∃ arrived' completed', Receiving P Z old payload data tid arrived' completed'
        (run (ReceiverLog.step P Z) L arrivals) ∧
      arrived ⊆ arrived' ∧ (completed = true → completed' = true) ∧
      Arrived P payload tid arrived' completed' arrivals := by
  induction arrivals generalizing arrived completed L with
  | nil =>
    refine ⟨arrived, completed, h, Finset.Subset.refl _, id, ?_, ?_⟩
    · intro _ _ _ hmem
      cases hmem
    · intro _ _ hmem
      cases hmem
  | cons a arrivals ih =>
    obtain ⟨f, env⟩ := a
    have hframe := hgenuine (f, env) List.mem_cons_self
    have hworks := henv (f, env) List.mem_cons_self
    have hrest : ∀ a ∈ arrivals, IsFrame P payload tid a.1 :=
      fun a ha => hgenuine a (List.mem_cons_of_mem _ ha)
    have hrestenv : ∀ a ∈ arrivals, a.2.StorageWorks :=
      fun a ha => henv a (List.mem_cons_of_mem _ ha)
    cases hframe with
    | @chunk i toPeer hi =>
      have hstep := h.chunk hi hworks
      obtain ⟨arrived', completed', hrun, hsub, hkept, hin⟩ := ih hstep hrest hrestenv
      refine ⟨arrived', completed', ?_, (Finset.subset_insert _ _).trans hsub, hkept, ?_, ?_⟩
      · have hdecoded : ReceiverLog.step P Z L (chunkMessage P payload tid i toPeer, env) =
            L.did (L.manager.onChunkBytesReceived P Z env L.disk tid i
              (Lib.Chunks.chunk chunkSize payload i)) := by
          simp only [ReceiverLog.step, chunkMessage, FileTransferManager.onChunkReceived, hb64]
        rw [← hdecoded] at hrun
        exact hrun
      · intro j toPeer' env' hmem
        rcases List.mem_cons.mp hmem with heq | hold
        · cases heq
          exact hsub (Finset.mem_insert_self _ _)
        · exact hin.chunks j toPeer' env' hold
      · intro toPeer' env' hmem
        rcases List.mem_cons.mp hmem with heq | hold
        · cases heq
        · exact hin.complete toPeer' env' hold
    | complete toPeer =>
      have hstep := h.complete hworks
      obtain ⟨arrived', completed', hrun, hsub, hkept, hin⟩ := ih hstep hrest hrestenv
      refine ⟨arrived', completed', hrun, hsub, fun _ => hkept rfl, ?_, fun _ _ _ => hkept rfl⟩
      intro j toPeer' env' hmem
      rcases List.mem_cons.mp hmem with heq | hold
      · cases heq
      · exact hin.chunks j toPeer' env' hold

theorem Receiving.delivered
    (h : Receiving P Z old payload data tid arrived true L)
    (hall : ∀ i < chunkCount chunkSize payload.length, i ∈ arrived) :
    ∃ x content, L.manager.inbound[tid]? = some x ∧ x.state = .complete ∧
      completions L.events = [(tid, content)] ∧ content.content L.disk = some data ∧
      rejections L.events = [] := by
  cases h with
  | active hrec hx hrequested hold hholds hin hmore hevents =>
    refine absurd ⟨rfl, Finset.Subset.antisymm hin fun i hi => ?_⟩ hmore
    exact hall i (Finset.mem_range.mp hi)
  | done hrec hstate hevents hcontent =>
    exact ⟨_, _, hrec, hstate, hevents.1, hcontent, hevents.2⟩

end Run

end ConquerD.Client
