import ConquerD.Client.FileTransfer
import Mathlib.Data.List.Range

/-!
# What a sender emits

A slice of a stream is the chunks from where the transfer stands, in order and
each with its bytes; COMPLETE follows the last chunk only. Over a whole run of
the sender, whatever it does to one transfer, COMPLETE is emitted only after
every chunk was.
-/

namespace ConquerD.Client

open Std (ExtTreeMap)
open Lib.Chunks Lib.Encoding Wire

/-! ## Reading the source -/

/-- The source holds the payload, in memory or on disk. -/
inductive Supplies (disk : Disk) (payload : Bytes) : TransferSource → Prop where
  | inline : Supplies disk payload (.inline payload)
  | filePath {path : String} (h : disk[path]? = some payload) :
    Supplies disk payload (.filePath path payload.length)

namespace Supplies

variable {env : FileEnv} {disk : Disk} {payload : Bytes} {source : TransferSource} {i : Nat}

theorem payloadLen (h : Supplies disk payload source) : source.payloadLen = payload.length := by
  cases h with
  | inline => rfl
  | filePath _ => rfl

theorem take_min_drop (payload : Bytes) (offset : Nat) :
    (payload.drop offset).take (min chunkSize (payload.length - offset)) =
      (payload.drop offset).take chunkSize := by
  rw [← List.length_drop, List.take_eq_take_iff]
  omega

theorem readChunk_eq (h : Supplies disk payload source) {c : Bytes}
    (hc : source.readChunk env disk i = some c) : c = chunk chunkSize payload i := by
  have hlen := h.payloadLen
  unfold TransferSource.readChunk at hc
  simp only [hlen] at hc
  split at hc
  · cases hc
  · cases h with
    | inline =>
      cases hc
      exact take_min_drop payload _
    | filePath hpath =>
      simp only [hpath] at hc
      split at hc
      · obtain ⟨content, hcontent, htake⟩ := Option.map_eq_some_iff.mp hc
        obtain ⟨rfl, -⟩ := Option.filter_eq_some_iff.mp hcontent |>.imp_left Option.some.inj
        rw [← htake]
        exact take_min_drop _ _
      · cases hc

theorem readChunk_of_lt (h : Supplies disk payload source) (hread : env.canRead i = true)
    (hi : i < chunkCount chunkSize payload.length) :
    source.readChunk env disk i = some (chunk chunkSize payload i) := by
  have hlen := h.payloadLen
  have hin : ¬ (i * chunkSize ≥ payload.length ∧ ¬ (payload.length = 0 ∧ i = 0)) := by
    intro hpast
    simp only [chunkCount, chunkSize] at hi hpast
    omega
  unfold TransferSource.readChunk
  simp only [hlen]
  rw [if_neg hin]
  cases h with
  | inline => exact congrArg some (take_min_drop payload _)
  | filePath hpath =>
    have hwhole : i * chunkSize + min chunkSize (payload.length - i * chunkSize) ≤
        payload.length := by
      by_cases hle : i * chunkSize ≤ payload.length
      · omega
      · simp only [chunkCount, chunkSize] at hi hle hin
        omega
    simp only [hread, if_true, hpath, Option.filter_some, decide_eq_true hwhole]
    exact congrArg some (take_min_drop payload _)

end Supplies

/-! ## A slice of a stream -/

/-- The chunk and COMPLETE frames among what happened. -/
def fileFrames (evs : List TransferEvent) : List FileMessage :=
  evs.filterMap fun
    | .sendMessage _ (.chunk t i d p) => some (.chunk t i d p)
    | .sendMessage _ (.complete t p) => some (.complete t p)
    | _ => none

@[simp] theorem fileFrames_append (evs evs' : List TransferEvent) :
    fileFrames (evs ++ evs') = fileFrames evs ++ fileFrames evs' :=
  List.filterMap_append

section Slice

variable (P : Platform) (payload : Bytes)

def frameOf (x : OutboundTransfer) (i : Nat) : FileMessage :=
  .chunk x.transferId i (P.encodeB64Std (chunk chunkSize payload i)) x.toPeer

/-- The frames of `n` chunks from `start` on. -/
def framesFrom (x : OutboundTransfer) (start n : Nat) : List FileMessage :=
  (List.range' start n).map (frameOf P payload x)

variable {P payload} (env : FileEnv) {disk : Disk} {x : OutboundTransfer}

/-- What a slice emits: some chunks from where the transfer stands, in order;
all it may, unless the source cannot be read. -/
theorem emitChunks_spec (h : Supplies disk payload x.source) (budget : Nat) :
    ∃ n, fileFrames (emitChunks P env disk budget x).2.1 = framesFrom P payload x x.chunksSent n ∧
      n ≤ x.totalChunks - x.chunksSent ∧ (((emitChunks P env disk budget x).2.2 = true ∧
          n = min budget (x.totalChunks - x.chunksSent) ∧
          (emitChunks P env disk budget x).1 = { x with chunksSent := x.chunksSent + n }) ∨
        ((emitChunks P env disk budget x).2.2 = false ∧
          (∃ i, x.chunksSent ≤ i ∧ i < x.totalChunks ∧ x.source.readChunk env disk i = none) ∧
          (emitChunks P env disk budget x).1 =
            { x with
              chunksSent := x.chunksSent + n
              state := .failed
              finishedAt := some env.now })) := by
  induction budget generalizing x with
  | zero => exact ⟨0, rfl, Nat.zero_le _, .inl ⟨rfl, (Nat.zero_min _).symm, rfl⟩⟩
  | succ budget ih =>
    unfold emitChunks
    split
    · next hlt =>
      split
      · next hread =>
        exact ⟨0, rfl, Nat.zero_le _, .inr ⟨rfl, ⟨x.chunksSent, le_refl _, hlt, hread⟩, rfl⟩⟩
      · next c hread =>
        have hc := h.readChunk_eq hread
        obtain ⟨n, hframes, hle, hend⟩ := ih (x := { x with chunksSent := x.chunksSent + 1 }) h
        refine ⟨n + 1, ?_, ?_, ?_⟩
        · have hprogress : fileFrames (if progressIsReportable (x.chunksSent + 1) x.totalChunks then
              [TransferEvent.progress x.transferId (((x.chunksSent + 1 : Nat) : Rat) / x.totalChunks)]
              else []) = [] := by
            split
            · rfl
            · rfl
          have hhead : ∀ evs, fileFrames (x.chunkEvent P c :: evs) =
              frameOf P payload x x.chunksSent :: fileFrames evs := by
            intro evs
            rw [hc]
            rfl
          simp only [hhead, fileFrames_append, hprogress, hframes]
          simp only [framesFrom, List.range'_succ, List.map_cons]
          rfl
        · simp only at hle
          omega
        · rcases hend with ⟨htrue, hn, hx⟩ | ⟨hfalse, ⟨i, hi, hlti, hnone⟩, hx⟩
          · refine .inl ⟨htrue, ?_, ?_⟩
            · simp only at hn
              omega
            · rw [hx]
              simp only [Nat.add_assoc, Nat.add_comm 1 n]
          · refine .inr ⟨hfalse, ⟨i, Nat.le_of_succ_le hi, hlti, hnone⟩, ?_⟩
            rw [hx]
            simp only [Nat.add_assoc, Nat.add_comm 1 n]
    · next hge =>
      refine ⟨0, rfl, Nat.zero_le _, .inl ⟨rfl, ?_, rfl⟩⟩
      omega

/-- The end of a slice: COMPLETE if no chunk is left, else nothing. -/
def tailOf (x : OutboundTransfer) : List FileMessage :=
  if x.chunksSent ≥ x.totalChunks then [.complete x.transferId x.toPeer] else []

theorem nextChunkEvents_spec (h : Supplies disk payload x.source) (budget : Nat) :
    ∃ n, (fileFrames (nextChunkEvents P env disk budget x).2.1 =
          framesFrom P payload x x.chunksSent n ++ tailOf (nextChunkEvents P env disk budget x).1 ∧
        n = min budget (x.totalChunks - x.chunksSent) ∧
        (nextChunkEvents P env disk budget x).1 = { x with chunksSent := x.chunksSent + n }) ∨
      (fileFrames (nextChunkEvents P env disk budget x).2.1 =
          framesFrom P payload x x.chunksSent n ∧
        n ≤ x.totalChunks - x.chunksSent ∧
        (∃ i, x.chunksSent ≤ i ∧ i < x.totalChunks ∧ x.source.readChunk env disk i = none) ∧
        (nextChunkEvents P env disk budget x).1 =
          { x with
            chunksSent := x.chunksSent + n
            state := .failed
            finishedAt := some env.now }) := by
  obtain ⟨n, hframes, hle, hend⟩ := emitChunks_spec (P := P) env h budget
  unfold nextChunkEvents
  generalize emitChunks P env disk budget x = r at hframes hend ⊢
  obtain ⟨x', evs, read⟩ := r
  simp only at hframes hend
  rcases hend with ⟨rfl, hn, rfl⟩ | ⟨rfl, hnone, rfl⟩
  · refine ⟨n, .inl ?_⟩
    simp only
    split
    · next hdone =>
      refine ⟨?_, hn, rfl⟩
      simp only [fileFrames_append, hframes, tailOf, if_pos hdone]
      rfl
    · next hmore =>
      refine ⟨?_, hn, rfl⟩
      simp only [hframes, tailOf, if_neg hmore, List.append_nil]
  · exact ⟨n, .inr ⟨hframes, hle, hnone, rfl⟩⟩

end Slice

/-! ## A run of the sender -/

/-- What the sender does to a transfer after it was offered. -/
inductive SenderStep where
  /-- The peer accepted. -/
  | accepted
  /-- A member of the room asked. -/
  | requested (requester : String) (budget : Nat)
  | pumped (budget : Nat)
  | unsent (n : Nat)
  | stalled
  | progressed
  | completed

/-- A sender and the file frames it emitted. -/
structure SenderLog where
  manager : FileTransferManager
  emitted : List FileMessage

/-- The manager acted, with what happened. -/
def SenderLog.did (L : SenderLog) (o : FileTransferManager × List TransferEvent) : SenderLog :=
  ⟨o.1, L.emitted ++ fileFrames o.2⟩

def SenderLog.step (P : Platform) (disk : Disk) (tid : String) (L : SenderLog)
    (s : SenderStep × FileEnv) : SenderLog :=
  match s.1 with
  | .accepted => L.did (L.manager.onTransferAccepted P s.2 disk tid)
  | .requested requester budget =>
    L.did (L.manager.startStreamFor P s.2 disk tid requester budget)
  | .pumped budget =>
    L.did ((L.manager.pumpStream P s.2 disk tid budget).1,
      (L.manager.pumpStream P s.2 disk tid budget).2.1)
  | .unsent n => L.did (L.manager.unsendChunks tid n, [])
  | .stalled => L.did ((L.manager.noteSendStalled s.2 tid).1, [])
  | .progressed => L.did (L.manager.noteSendProgress tid, [])
  | .completed => L.did (L.manager.markOutboundComplete s.2 tid, [])

section Run

variable {P : Platform} {env : FileEnv} {disk : Disk} {payload : Bytes} {tid : String}

/-- The frame of chunk `i`, for any addressee. -/
def chunkMessage (P : Platform) (payload : Bytes) (tid : String) (i : Nat) (toPeer : String) :
    FileMessage :=
  .chunk tid i (P.encodeB64Std (chunk chunkSize payload i)) toPeer

/-- Every chunk below a number was emitted. -/
def EmittedBelow (P : Platform) (payload : Bytes) (tid : String) (n : Nat)
    (emitted : List FileMessage) : Prop :=
  ∀ i < n, ∃ toPeer, chunkMessage P payload tid i toPeer ∈ emitted

/-- The record of a transfer, against what was emitted. -/
structure Sending (P : Platform) (disk : Disk) (payload : Bytes) (tid : String)
    (emitted : List FileMessage) (x : OutboundTransfer) : Prop where
  transferId : x.transferId = tid
  source : Supplies disk payload x.source
  total : x.totalChunks = chunkCount chunkSize payload.length
  sent : EmittedBelow P payload tid x.chunksSent emitted

inductive IsFrame (P : Platform) (payload : Bytes) (tid : String) : FileMessage → Prop where
  | chunk {i : Nat} (toPeer : String) (h : i < chunkCount chunkSize payload.length) :
    IsFrame P payload tid (chunkMessage P payload tid i toPeer)
  | complete (toPeer : String) : IsFrame P payload tid (.complete tid toPeer)

/-- All that is emitted of a transfer are its frames, and COMPLETE after all of
its chunks. -/
structure WellEmitted (P : Platform) (payload : Bytes) (tid : String)
    (emitted : List FileMessage) : Prop where
  frames : ∀ f ∈ emitted, IsFrame P payload tid f
  whole : (∃ toPeer, .complete tid toPeer ∈ emitted) →
    EmittedBelow P payload tid (chunkCount chunkSize payload.length) emitted

theorem EmittedBelow.mono {n : Nat} {emitted emitted' : List FileMessage}
    (h : EmittedBelow P payload tid n emitted) (hsub : ∀ f ∈ emitted, f ∈ emitted') :
    EmittedBelow P payload tid n emitted' := by
  intro i hi
  obtain ⟨toPeer, hmem⟩ := h i hi
  exact ⟨toPeer, hsub _ hmem⟩

theorem emittedBelow_framesFrom {x : OutboundTransfer} {emitted : List FileMessage}
    (h : Sending P disk payload tid emitted x) (n : Nat) (rest : List FileMessage) :
    EmittedBelow P payload tid (x.chunksSent + n)
      (emitted ++ (framesFrom P payload x x.chunksSent n ++ rest)) := by
  intro i hi
  by_cases hold : i < x.chunksSent
  · obtain ⟨toPeer, hmem⟩ := h.sent i hold
    exact ⟨toPeer, List.mem_append_left _ hmem⟩
  · refine ⟨x.toPeer, List.mem_append_right _ (List.mem_append_left _ ?_)⟩
    refine List.mem_map.mpr ⟨i, List.mem_range'_1.mpr ⟨not_lt.mp hold, hi⟩, ?_⟩
    rw [frameOf, h.transferId]
    rfl

theorem mem_framesFrom {x : OutboundTransfer} {start n : Nat} {f : FileMessage}
    (h : f ∈ framesFrom P payload x start n) :
    ∃ i, start ≤ i ∧ i < start + n ∧ f = chunkMessage P payload x.transferId i x.toPeer := by
  obtain ⟨i, hi, rfl⟩ := List.mem_map.mp h
  obtain ⟨hle, hlt⟩ := List.mem_range'_1.mp hi
  exact ⟨i, hle, hlt, rfl⟩

theorem Sending.slice {x : OutboundTransfer} {emitted : List FileMessage}
    (h : Sending P disk payload tid emitted x) (env : FileEnv) (hemitted : WellEmitted P payload tid emitted)
    (budget : Nat) :
    Sending P disk payload tid
        (emitted ++ fileFrames (nextChunkEvents P env disk budget x).2.1)
        (nextChunkEvents P env disk budget x).1 ∧
      WellEmitted P payload tid
        (emitted ++ fileFrames (nextChunkEvents P env disk budget x).2.1) := by
  obtain ⟨n, ⟨hframes, hn, hx⟩ | ⟨hframes, hn, -, hx⟩⟩ :=
    nextChunkEvents_spec (P := P) env h.source budget
  · rw [hframes, hx]
    have hbelow := emittedBelow_framesFrom h n
      (tailOf { x with chunksSent := x.chunksSent + n })
    refine ⟨⟨h.transferId, h.source, h.total, hbelow⟩, ?_, ?_⟩
    · intro f hf
      rcases List.mem_append.mp hf with hold | hnew
      · exact hemitted.frames f hold
      · rcases List.mem_append.mp hnew with hchunk | htail
        · obtain ⟨i, hle, hi, rfl⟩ := mem_framesFrom hchunk
          rw [h.transferId]
          exact .chunk x.toPeer (by rw [← h.total]; omega)
        · unfold tailOf at htail
          split at htail
          · rw [List.mem_singleton] at htail
            rw [htail, ← h.transferId]
            exact .complete x.toPeer
          · exact absurd htail List.not_mem_nil
    · rintro ⟨toPeer, hcomplete⟩
      rcases List.mem_append.mp hcomplete with hold | hnew
      · exact (hemitted.whole ⟨toPeer, hold⟩).mono fun f hf => List.mem_append_left _ hf
      · rcases List.mem_append.mp hnew with hchunk | htail
        · obtain ⟨i, -, -, heq⟩ := mem_framesFrom hchunk
          cases heq
        · unfold tailOf at htail
          split at htail
          · next hdone =>
            rw [← h.total]
            exact fun i hi => hbelow i (lt_of_lt_of_le hi hdone)
          · exact absurd htail List.not_mem_nil
  · rw [hframes, hx]
    have hbelow := emittedBelow_framesFrom h n []
    rw [List.append_nil] at hbelow
    refine ⟨⟨h.transferId, h.source, h.total, hbelow⟩, ?_, ?_⟩
    · intro f hf
      rcases List.mem_append.mp hf with hold | hnew
      · exact hemitted.frames f hold
      · obtain ⟨i, hle, hi, rfl⟩ := mem_framesFrom hnew
        rw [h.transferId]
        exact .chunk x.toPeer (by rw [← h.total]; omega)
    · rintro ⟨toPeer, hcomplete⟩
      rcases List.mem_append.mp hcomplete with hold | hnew
      · exact (hemitted.whole ⟨toPeer, hold⟩).mono fun f hf => List.mem_append_left _ hf
      · obtain ⟨i, -, -, heq⟩ := mem_framesFrom hnew
        cases heq

/-- The invariant of a run of the sender. -/
structure SenderInv (P : Platform) (disk : Disk) (payload : Bytes) (tid : String) (L : SenderLog) :
    Prop where
  record : ∃ x, L.manager.outbound[tid]? = some x ∧ Sending P disk payload tid L.emitted x
  emitted : WellEmitted P payload tid L.emitted

theorem getElem?_setOutbound (m : FileTransferManager) (tid : String) (x : OutboundTransfer) :
    (m.setOutbound tid x).outbound[tid]? = some x :=
  ExtTreeMap.getElem?_insert_self

theorem SenderInv.slice {L : SenderLog} (hemitted : WellEmitted P payload tid L.emitted)
    {x : OutboundTransfer} (hx : Sending P disk payload tid L.emitted x) (budget : Nat)
    {m : FileTransferManager} {evs : List TransferEvent}
    (hevs : fileFrames evs = fileFrames (nextChunkEvents P env disk budget x).2.1) :
    SenderInv P disk payload tid
      (L.did (m.setOutbound tid (nextChunkEvents P env disk budget x).1, evs)) := by
  obtain ⟨hsending, hwell⟩ := hx.slice env hemitted budget
  refine ⟨⟨_, getElem?_setOutbound _ _ _, ?_⟩, ?_⟩
  · simp only [SenderLog.did, hevs]
    exact hsending
  · simp only [SenderLog.did, hevs]
    exact hwell

/-- A record put back with at most as many chunks counted, and nothing emitted. -/
theorem SenderInv.put {L : SenderLog} (hemitted : WellEmitted P payload tid L.emitted)
    {x x' : OutboundTransfer} (hx : Sending P disk payload tid L.emitted x)
    {m : FileTransferManager} (hid : x'.transferId = x.transferId) (hsource : x'.source = x.source)
    (htotal : x'.totalChunks = x.totalChunks) (hsent : x'.chunksSent ≤ x.chunksSent) :
    SenderInv P disk payload tid (L.did (m.setOutbound tid x', [])) := by
  have hsame : (L.did (m.setOutbound tid x', [])).emitted = L.emitted := List.append_nil _
  refine ⟨⟨x', getElem?_setOutbound _ _ _, ?_⟩, hsame ▸ hemitted⟩
  rw [hsame]
  exact ⟨hid.trans hx.transferId, hsource ▸ hx.source, htotal.trans hx.total,
    fun i hi => hx.sent i (lt_of_lt_of_le hi hsent)⟩

theorem SenderInv.step {L : SenderLog} (h : SenderInv P disk payload tid L)
    (s : SenderStep × FileEnv) : SenderInv P disk payload tid (L.step P disk tid s) := by
  obtain ⟨⟨x, hx, hsending⟩, hemitted⟩ := h
  have hsame : SenderInv P disk payload tid (L.did (L.manager, [])) := by
    have hlog : (L.did (L.manager, [])).emitted = L.emitted := List.append_nil _
    exact ⟨⟨x, hx, hlog ▸ hsending⟩, hlog ▸ hemitted⟩
  obtain ⟨step, env⟩ := s
  cases step with
  | accepted =>
    simp only [SenderLog.step, FileTransferManager.onTransferAccepted, hx]
    split
    · exact hsame
    · have hstarted : Sending P disk payload tid L.emitted { x with state := .transferring } :=
        ⟨hsending.transferId, hsending.source, hsending.total, hsending.sent⟩
      split
      · exact .slice hemitted hstarted roomFileChunkBudget rfl
      · exact .slice hemitted hstarted x.totalChunks rfl
  | requested requester budget =>
    simp only [SenderLog.step, FileTransferManager.startStreamFor, hx]
    have hstarted : Sending P disk payload tid L.emitted
        { x with chunksSent := 0, toPeer := requester, state := .transferring,
                 finishedAt := none } :=
      ⟨hsending.transferId, hsending.source, hsending.total,
        fun i hi => absurd hi (Nat.not_lt_zero i)⟩
    exact .slice hemitted hstarted budget rfl
  | pumped budget =>
    simp only [SenderLog.step, FileTransferManager.pumpStream, hx]
    split
    · exact hsame
    · exact .slice hemitted hsending budget rfl
  | unsent n =>
    simp only [SenderLog.step, FileTransferManager.unsendChunks, hx]
    split
    · exact .put hemitted hsending rfl rfl rfl (Nat.sub_le _ _)
    · exact .put hemitted hsending rfl rfl rfl (Nat.sub_le _ _)
  | stalled =>
    simp only [SenderLog.step, FileTransferManager.noteSendStalled, hx]
    split
    · exact .put hemitted hsending rfl rfl rfl (le_refl _)
    · exact .put hemitted hsending rfl rfl rfl (le_refl _)
  | progressed =>
    simp only [SenderLog.step, FileTransferManager.noteSendProgress, hx]
    exact .put hemitted hsending rfl rfl rfl (le_refl _)
  | completed =>
    simp only [SenderLog.step, FileTransferManager.markOutboundComplete, hx]
    exact .put hemitted hsending rfl rfl rfl (le_refl _)

end Run

end ConquerD.Client
