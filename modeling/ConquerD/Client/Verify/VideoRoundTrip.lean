import ConquerD.Client.Verify.VideoParsing
import Mathlib.Algebra.Order.BigOperators.Group.List

/-!
# Client: a video frame and its fragments

The fragments of a frame, in any order and however often they come, give the
frame back once, as long as they come in before the first of them is given up.
A fragment that comes in at the very end of that time is too late.
-/

namespace ConquerD.Client.Video

open Std (ExtTreeMap)
open Lib Lib.Chunks Lib.Encoding

namespace SentFrame

variable {f : SentFrame} {idx : Nat}

/-! ## Collecting the fragments -/

variable (f) in
/-- The slots, with the fragments filled in that were seen. -/
def slots (seen : List Nat) : List (Option Bytes) :=
  (List.range f.count).map fun i => if i ∈ seen then some (f.chunkAt i) else none

variable (f) in
/-- The partial after the fragments that were seen. -/
def collected (seen : List Nat) (firstSeen : Nat) : PartialFrame where
  keyframe := f.keyframe
  codec := f.codec
  ptsUs := f.ptsUs
  signature := if 0 ∈ seen then some f.signature else none
  chunks := f.slots seen
  received := (f.slots seen).countP Option.isSome
  bytes := ((f.slots seen).map fun c => (c.getD []).length).sum
  firstSeen := firstSeen

variable (f) in
/-- The sender while the frame is incomplete. -/
def collecting (seen : List Nat) (firstSeen : Nat) : SenderState where
  partials := AList.insert f.frameSeq (f.collected seen firstSeen) ∅
  bytes := (f.collected seen firstSeen).bytes
  lastCompleted := none

variable (f) in
/-- The sender once the frame is handed out. -/
def done : SenderState where
  lastCompleted := some f.frameSeq

variable {seen : List Nat} {t now : Nat} {v : VisitOrder}

@[simp] theorem length_slots (seen : List Nat) : (f.slots seen).length = f.count := by
  rw [slots, List.length_map, List.length_range]

theorem getElem?_slots (seen : List Nat) (hidx : idx < f.count) :
    (f.slots seen)[idx]? = some (if idx ∈ seen then some (f.chunkAt idx) else none) := by
  rw [slots, List.getElem?_map, List.getElem?_range hidx, Option.map_some]

theorem hasChunk_collected (hidx : idx < f.count) :
    (f.collected seen t).hasChunk idx = decide (idx ∈ seen) := by
  unfold PartialFrame.hasChunk collected
  dsimp only
  rw [getElem?_slots _ hidx, Option.getD_some]
  by_cases hmem : idx ∈ seen
  · simp [hmem]
  · simp [hmem]

theorem slots_cons (hidx : idx < f.count) :
    (f.slots seen).set idx (some (f.chunkAt idx)) = f.slots (idx :: seen) := by
  refine List.ext_getElem? fun i => ?_
  by_cases hi : i < f.count
  · rw [getElem?_slots _ hi, List.getElem?_set, length_slots, if_pos hidx, getElem?_slots _ hi]
    by_cases heq : idx = i
    · subst heq
      simp
    · have hne : ¬ i = idx := fun h => heq h.symm
      rw [if_neg heq]
      simp only [List.mem_cons, hne, false_or]
  · rw [List.getElem?_eq_none (by rw [List.length_set, length_slots]; omega),
      List.getElem?_eq_none (by rw [length_slots]; omega)]

theorem new_header (idx now : Nat) : PartialFrame.new (f.header idx) now = f.collected [] now := by
  have hslots : f.slots [] = List.replicate f.count none := by
    simp [slots]
  unfold PartialFrame.new collected
  rw [hslots]
  simp [header, List.countP_replicate]

theorem store_collected (hidx : idx < f.count) (hnew : idx ∉ seen) :
    (f.collected seen t).store (f.header idx) (f.chunkAt idx) = f.collected (idx :: seen) t := by
  have hslot : (f.collected seen t).chunks[(f.header idx).fragIdx]? = some none := by
    have hget := getElem?_slots seen hidx
    rwa [if_neg hnew] at hget
  have hchunks : ((f.collected seen t).store (f.header idx) (f.chunkAt idx)).chunks =
      f.slots (idx :: seen) := slots_cons hidx
  have hfilled := PartialFrame.filled_store (f.chunkAt idx) hslot
  have hstored := PartialFrame.stored_store (f.chunkAt idx) hslot
  unfold PartialFrame.filled at hfilled
  unfold PartialFrame.stored at hstored
  rw [hchunks] at hfilled hstored
  have hsignature : (f.header idx).signature.or (f.collected seen t).signature =
      (f.collected (idx :: seen) t).signature := by
    unfold header collected
    dsimp only
    by_cases hzero : idx = 0
    · subst hzero
      simp
    · have hne : ¬ 0 = idx := fun h => hzero h.symm
      simp [hzero, hne]
  rw [PartialFrame.store, collected, PartialFrame.mk.injEq]
  exact ⟨rfl, rfl, rfl, hsignature, hchunks, hfilled.symm, hstored.symm, rfl⟩

theorem refuses_collected (hidx : idx < f.count) :
    (f.collected seen t).refuses (f.header idx) =
      if idx ∈ seen then some .duplicate else none := by
  have hlen : (f.collected seen t).chunks.length = (f.header idx).fragCount := length_slots _
  have hcodec : (f.collected seen t).codec = (f.header idx).codec := rfl
  have hpts : (f.collected seen t).ptsUs = (f.header idx).ptsUs := rfl
  have hslot : (f.collected seen t).hasChunk (f.header idx).fragIdx = decide (idx ∈ seen) :=
    hasChunk_collected hidx
  unfold PartialFrame.refuses
  rw [if_neg (not_not.mpr hlen), if_neg (not_not.mpr hcodec), if_neg (not_not.mpr hpts), hslot]
  simp only [decide_eq_true_eq]

theorem bytes_collected_le (seen : List Nat) (t : Nat) (hcap : 0 < f.chunkCap) :
    (f.collected seen t).bytes ≤ f.sealedFrame.length := by
  have hall : ((List.range f.count).map fun i => (f.chunkAt i).length).sum =
      f.sealedFrame.length := by
    have hlen := congrArg List.length (flatMap_chunkAt hcap)
    rwa [List.length_flatMap] at hlen
  rw [← hall]
  unfold collected slots
  dsimp only
  rw [List.map_map]
  refine List.sum_le_sum fun i _ => ?_
  dsimp only [Function.comp]
  split
  · exact le_rfl
  · exact Nat.zero_le _

theorem flatten_slots (hcap : 0 < f.chunkCap) (hall : ∀ i < f.count, i ∈ seen) :
    ((f.slots seen).filterMap id).flatten = f.sealedFrame := by
  have hslots : f.slots seen = (List.range f.count).map fun i => some (f.chunkAt i) :=
    List.map_congr_left fun i hi => if_pos (hall i (List.mem_range.mp hi))
  rw [hslots, List.filterMap_map]
  have hchunks : (List.range f.count).filterMap (id ∘ fun i => some (f.chunkAt i)) =
      (List.range f.count).map f.chunkAt := by
    rw [← List.filterMap_eq_map]
    rfl
  rw [hchunks, ← List.flatMap_def]
  exact flatMap_chunk_eq (le_chunkCount_mul hcap f.sealedFrame.length)

theorem received_lt_iff :
    (f.collected seen t).received < f.count ↔ ¬ ∀ i < f.count, i ∈ seen := by
  have hle : (f.slots seen).countP Option.isSome ≤ f.count := by
    have h := List.countP_le_length (p := Option.isSome) (l := f.slots seen)
    rwa [length_slots] at h
  have hiff : (f.slots seen).countP Option.isSome = f.count ↔ ∀ i < f.count, i ∈ seen := by
    rw [← length_slots (f := f) seen, List.countP_eq_length, length_slots]
    constructor
    · intro hall i hi
      have hsome := hall _ (List.mem_of_getElem? (getElem?_slots seen hi))
      by_contra hnot
      rw [if_neg hnot] at hsome
      cases hsome
    · intro hall c hc
      obtain ⟨i, hi, rfl⟩ := List.mem_map.mp hc
      rw [if_pos (hall i (List.mem_range.mp hi))]
      rfl
  have hreceived : (f.collected seen t).received = (f.slots seen).countP Option.isSome := rfl
  rw [hreceived, ← hiff]
  omega

/-! ### The sender -/

theorem lookup_collecting :
    (f.collecting seen t).partials.lookup f.frameSeq = some (f.collected seen t) :=
  AList.lookup_insert ∅

theorem openPartial_collecting (v : VisitOrder) (seen : List Nat) (t idx now : Nat) :
    ((f.collecting seen t).makeRoom v f.frameSeq).openPartial (f.header idx) now =
      (f.collected seen t, f.collecting seen t) := by
  have hmem : f.frameSeq ∈ (f.collecting seen t).partials := Tally.mem_of_lookup lookup_collecting
  have hroom : (f.collecting seen t).makeRoom v f.frameSeq = f.collecting seen t := by
    rw [SenderState.makeRoom, if_neg]
    exact fun hfull => hfull.1 hmem
  rw [hroom, SenderState.openPartial]
  have hlookup : (f.collecting seen t).partials.lookup (f.header idx).frameSeq =
      some (f.collected seen t) := lookup_collecting
  rw [hlookup]

theorem storeChunk_collecting (hidx : idx < f.count) (hnew : idx ∉ seen) :
    (f.collecting seen t).storeChunk (f.header idx) (f.collected seen t) (f.chunkAt idx) =
      f.collecting (idx :: seen) t := by
  have hstore := store_collected (t := t) hidx hnew
  have hbytes : (f.collected seen t).bytes + (f.chunkAt idx).length =
      (f.collected (idx :: seen) t).bytes := congrArg PartialFrame.bytes hstore
  let empty : Tally.Map UInt32 PartialFrame := ∅
  have hinsert : (empty.insert f.frameSeq (f.collected seen t)).insert f.frameSeq
      (f.collected (idx :: seen) t) = empty.insert f.frameSeq (f.collected (idx :: seen) t) :=
    AList.insert_insert empty
  rw [SenderState.storeChunk, hstore]
  unfold collecting
  rw [← hbytes]
  exact congrArg (fun partials => SenderState.mk partials _ none) hinsert

theorem complete_collecting (hcap : 0 < f.chunkCap) (hall : ∀ i < f.count, i ∈ seen) :
    (f.collecting seen t).complete (f.header idx) (f.collected seen t) = (f.done, .ok f.frame) := by
  have hfirst : 0 ∈ seen := hall 0 (chunkCount_pos _ _)
  have hsigned : (f.collected seen t).signature = some f.signature := if_pos hfirst
  have hslots : (f.collected seen t).chunks.all Option.isSome = true := by
    rw [List.all_eq_true]
    intro c hc
    obtain ⟨i, hi, rfl⟩ := List.mem_map.mp hc
    rw [if_pos (hall i (List.mem_range.mp hi))]
    rfl
  have hsealed : ((f.collected seen t).chunks.filterMap id).flatten = f.sealedFrame :=
    flatten_slots hcap hall
  have hdrop : (f.collecting seen t).dropPartial f.frameSeq = {} := by
    unfold SenderState.dropPartial
    rw [lookup_collecting]
    have herase : (f.collecting seen t).partials.erase f.frameSeq = ∅ :=
      Tally.erase_insert f.frameSeq (f.collected seen t) ∅
    dsimp only
    rw [herase]
    simp only [collecting, Nat.sub_self]
  have hheader : (f.header idx).frameSeq = f.frameSeq := rfl
  unfold SenderState.complete
  rw [hsigned]
  dsimp only
  rw [if_pos hslots, hheader, hdrop, hsealed]
  rfl

theorem push_collecting (h : f.Sendable) (hfit : f.sealedFrame.length ≤ maxPartialBytesPerSender)
    (hidx : idx < f.count) :
    (f.collecting seen t).push v (f.header idx) (f.chunkAt idx) now =
      if idx ∈ seen then (f.collecting seen t, .error .duplicate)
      else if ∀ i < f.count, i ∈ idx :: seen then (f.done, .ok f.frame)
      else (f.collecting (idx :: seen) t, .error .incomplete) := by
  have hgate : (f.collecting seen t).gate (f.header idx) = some (f.collecting seen t) := rfl
  have hopen := openPartial_collecting (f := f) v seen t idx now
  have hseq : (f.header idx).frameSeq = f.frameSeq := rfl
  unfold SenderState.push
  rw [hgate]
  dsimp only
  rw [hseq, hopen]
  dsimp only
  rw [refuses_collected hidx]
  by_cases hseen : idx ∈ seen
  · rw [if_pos hseen, if_pos hseen]
  · rw [if_neg hseen, if_neg hseen]
    dsimp only
    have hstore := store_collected (t := t) hidx hseen
    have hbytes : (f.collecting seen t).bytes + (f.chunkAt idx).length ≤
        maxPartialBytesPerSender := by
      have hle := bytes_collected_le (idx :: seen) t h.cap_pos
      have hsum : (f.collected seen t).bytes + (f.chunkAt idx).length =
          (f.collected (idx :: seen) t).bytes := congrArg PartialFrame.bytes hstore
      have hcounter : (f.collecting seen t).bytes = (f.collected seen t).bytes := rfl
      omega
    have hbudget : (f.collecting seen t).makeBudget v f.frameSeq (f.chunkAt idx).length =
        (f.collecting seen t, true) := by
      rw [SenderState.makeBudget, if_neg (by omega)]
    have hcount : (f.header idx).fragCount = f.count := rfl
    rw [hbudget]
    dsimp only
    rw [if_pos rfl, lookup_collecting]
    dsimp only
    rw [hstore, storeChunk_collecting hidx hseen, hcount]
    by_cases hall : ∀ i < f.count, i ∈ idx :: seen
    · rw [if_neg fun hlt => received_lt_iff.mp hlt hall, if_pos hall,
        complete_collecting h.cap_pos hall]
    · rw [if_pos (received_lt_iff.mpr hall), if_neg hall]

theorem push_new :
    SenderState.push v {} (f.header idx) (f.chunkAt idx) now =
      (f.collecting [] now).push v (f.header idx) (f.chunkAt idx) now := by
  have hgate : (f.collecting [] now).gate (f.header idx) = some (f.collecting [] now) := rfl
  have hgate' : SenderState.gate {} (f.header idx) = some {} := rfl
  have hopen := openPartial_collecting (f := f) v [] now idx now
  have hopen' : (SenderState.makeRoom v {} f.frameSeq).openPartial (f.header idx) now =
      (f.collected [] now, f.collecting [] now) := by
    have hroom : SenderState.makeRoom v {} f.frameSeq = {} := by
      rw [SenderState.makeRoom, if_neg]
      exact fun hfull => absurd hfull.2 (by decide)
    have hbytes : (f.collected [] now).bytes = 0 := by
      rw [← new_header idx]
      rfl
    have hlookup : AList.lookup (f.header idx).frameSeq (∅ : Tally.Map UInt32 PartialFrame) = none :=
      rfl
    rw [hroom, SenderState.openPartial, hlookup]
    dsimp only
    rw [new_header, collecting, hbytes]
    rfl
  have hseq : (f.header idx).frameSeq = f.frameSeq := rfl
  unfold SenderState.push
  rw [hgate, hgate']
  dsimp only
  rw [hseq, hopen, hopen']

theorem push_done : f.done.push v (f.header idx) (f.chunkAt idx) now =
    (f.done, .error .superseded) := by
  have hsuperseded : isSuperseded f.frameSeq (f.header idx).frameSeq = true := by
    have hseq : (f.header idx).frameSeq = f.frameSeq := rfl
    rw [isSuperseded, hseq, beq_self_eq_true, Bool.or_true]
  have hrestart : isStreamRestart f.frameSeq (f.header idx) = false := by
    have hseq : (f.header idx).frameSeq = f.frameSeq := rfl
    rw [isStreamRestart, hseq, UInt32.sub_self]
    exact Bool.and_false _
  have hgate : f.done.gate (f.header idx) = none := by
    have hlast : f.done.lastCompleted = some f.frameSeq := rfl
    unfold SenderState.gate
    rw [hlast]
    dsimp only
    rw [if_pos hsuperseded, hrestart]
    rfl
  unfold SenderState.push
  rw [hgate]

theorem evictExpired_collecting (htime : now - t < partialTimeout) :
    (f.collecting seen t).evictExpired now = f.collecting seen t := by
  have hentries : (f.collecting seen t).partials.entries = [⟨f.frameSeq, f.collected seen t⟩] := rfl
  have hfirst : (f.collected seen t).firstSeen = t := rfl
  unfold SenderState.evictExpired
  rw [hentries, List.filter_cons_of_neg]
  · rfl
  · dsimp only
    rw [hfirst, decide_eq_true_eq]
    omega

theorem evictExpired_done : f.done.evictExpired now = f.done := rfl

end SentFrame

/-! ## The reassembler -/

/-- The datagrams as events. -/
def arrived (as : List Arrival) : List ReassemblerEvent :=
  as.map .push

namespace Reassembler

variable {r : Reassembler} {s : SenderState} {v : VisitOrder} {buf chunk : Bytes} {now : Nat}
  {hdr : FragmentHeader}

theorem push_tracked (v : VisitOrder) (hparse : parseFragment buf = some (hdr, chunk))
    (hs : r.senders[hdr.sender]? = some s) (hsame : s.evictExpired now = s)
    (hkept : (s.partials.entries.isEmpty && s.lastCompleted.isNone) = false) :
    (r.push v buf now).1.senders[hdr.sender]? = some (s.push v hdr chunk now).1 ∧
      (r.push v buf now).2 = (s.push v hdr chunk now).2 := by
  have hevicted : (r.evictExpired now).senders[hdr.sender]? = some s := by
    rw [getElem?_evictExpired, hs, Option.bind_some, hsame, hkept]
    rfl
  have htracked : hdr.sender ∈ (r.evictExpired now).senders := by
    rw [ExtTreeMap.mem_iff_isSome_getElem?, hevicted]
    rfl
  unfold push
  rw [hparse]
  dsimp only
  rw [if_neg fun hfull => hfull.1 htracked, hevicted, Option.getD_some]
  exact ⟨ExtTreeMap.getElem?_insert_self, rfl⟩

theorem push_untracked (v : VisitOrder) (now : Nat) (hparse : parseFragment buf = some (hdr, chunk)) :
    (push {} v buf now).1.senders[hdr.sender]? = some (SenderState.push v {} hdr chunk now).1 ∧
      (push {} v buf now).2 = (SenderState.push v {} hdr chunk now).2 := by
  have hnone : (evictExpired {} now).senders[hdr.sender]? = none := by
    rw [getElem?_evictExpired]
    simp
  have hsize : (evictExpired {} now).senders.size ≤ 0 := ExtTreeMap.size_filterMap_le_size
  have hroom : ¬ (hdr.sender ∉ (evictExpired {} now).senders ∧
      maxSenders ≤ (evictExpired {} now).senders.size) := fun hfull =>
    absurd (hfull.2.trans hsize) (by decide)
  unfold push
  rw [hparse]
  dsimp only
  rw [if_neg hroom, hnone, Option.getD_none]
  exact ⟨ExtTreeMap.getElem?_insert_self, rfl⟩

theorem bufferedBytes_of {sender : String} (hs : r.senders[sender]? = some s) :
    r.bufferedBytes sender = s.bytes := by
  rw [bufferedBytes, hs]
  rfl

end Reassembler

namespace SentFrame

variable {f : SentFrame} {r : Reassembler} {as : List Arrival} {seen : List Nat} {t : Nat}

theorem fragment_inj (h : f.Sendable) {i j : Nat} (hi : i < f.count) (hj : j < f.count)
    (heq : f.fragment i = f.fragment j) : i = j := by
  have hparsed := parseFragment_fragment h hi
  rw [heq, parseFragment_fragment h hj] at hparsed
  exact (congrArg (fun x => x.1.fragIdx) (Option.some.inj hparsed)).symm

theorem results_done (h : f.Sendable) (hr : r.senders[f.sender]? = some f.done)
    (hof : ∀ a ∈ as, ∃ i < f.count, a.buf = f.fragment i) :
    (r.results as).filterMap Except.toOption = [] ∧
      (Run.run Reassembler.step r (arrived as)).bufferedBytes f.sender = 0 := by
  induction as generalizing r with
  | nil =>
    exact ⟨rfl, Reassembler.bufferedBytes_of hr⟩
  | cons a as ih =>
    obtain ⟨i, hi, hbuf⟩ := hof a List.mem_cons_self
    have hparse := parseFragment_fragment h hi
    rw [← hbuf] at hparse
    obtain ⟨hafter, hresult⟩ := Reassembler.push_tracked a.order hparse hr
      evictExpired_done rfl
    rw [push_done] at hafter hresult
    obtain ⟨hrest, hbytes⟩ := ih hafter fun b hb => hof b (List.mem_cons_of_mem a hb)
    refine ⟨?_, hbytes⟩
    rw [Reassembler.results, hresult]
    exact hrest

variable (f) in
/-- A fragment that comes in is taken as an open partial takes it. -/
def TakesAt (r : Reassembler) (seen : List Nat) (t now : Nat) : Prop :=
  ∀ (v : VisitOrder) (i : Nat), i < f.count →
    (r.push v (f.fragment i) now).1.senders[f.sender]? =
        some ((f.collecting seen t).push v (f.header i) (f.chunkAt i) now).1 ∧
      (r.push v (f.fragment i) now).2 =
        ((f.collecting seen t).push v (f.header i) (f.chunkAt i) now).2

theorem takesAt_collecting (h : f.Sendable) {now : Nat}
    (hr : r.senders[f.sender]? = some (f.collecting seen t)) (htime : now - t < partialTimeout) :
    f.TakesAt r seen t now := by
  intro v i hi
  have htaken := Reassembler.push_tracked v (parseFragment_fragment h hi) hr
    (evictExpired_collecting htime) rfl
  exact htaken

theorem takesAt_new (h : f.Sendable) (now : Nat) : f.TakesAt {} [] now now := by
  intro v i hi
  have htaken := Reassembler.push_untracked v now (parseFragment_fragment h hi)
  rw [push_new] at htaken
  exact htaken

theorem results_collecting (h : f.Sendable)
    (hfit : f.sealedFrame.length ≤ maxPartialBytesPerSender)
    (htakes : ∀ a ∈ as.head?, f.TakesAt r seen t a.now)
    (hof : ∀ a ∈ as, ∃ i < f.count, a.buf = f.fragment i)
    (htimes : ∀ a ∈ as, a.now - t < partialTimeout)
    (hopen : ¬ ∀ i < f.count, i ∈ seen)
    (hall : ∀ i < f.count, i ∉ seen → ∃ a ∈ as, a.buf = f.fragment i) :
    (r.results as).filterMap Except.toOption = [f.frame] ∧
      (Run.run Reassembler.step r (arrived as)).bufferedBytes f.sender = 0 := by
  induction as generalizing r seen with
  | nil =>
    refine absurd (fun i hi => ?_) hopen
    by_contra hmissing
    obtain ⟨a, ha, -⟩ := hall i hi hmissing
    cases ha
  | cons a as ih =>
    obtain ⟨i, hi, hbuf⟩ := hof a List.mem_cons_self
    have hofRest : ∀ b ∈ as, ∃ j < f.count, b.buf = f.fragment j := fun b hb =>
      hof b (List.mem_cons_of_mem a hb)
    have htimesRest : ∀ b ∈ as, b.now - t < partialTimeout := fun b hb =>
      htimes b (List.mem_cons_of_mem a hb)
    obtain ⟨hafter, hresult⟩ := htakes a rfl a.order i hi
    rw [← hbuf, push_collecting h hfit hi] at hafter hresult
    rw [Reassembler.results, hresult]
    by_cases hseen : i ∈ seen
    · -- a copy of a fragment that is there
      rw [if_pos hseen] at hafter ⊢
      refine ih (fun b hb => takesAt_collecting h hafter (htimesRest b (List.mem_of_head? hb)))
        hofRest htimesRest hopen fun j hj hmissing => ?_
      obtain ⟨b, hb, hbufj⟩ := hall j hj hmissing
      rcases List.mem_cons.mp hb with rfl | hb
      · rw [fragment_inj h hj hi (hbufj.symm.trans hbuf)] at hmissing
        exact absurd hseen hmissing
      · exact ⟨b, hb, hbufj⟩
    · rw [if_neg hseen] at hafter ⊢
      by_cases hlast : ∀ j < f.count, j ∈ i :: seen
      · rw [if_pos hlast] at hafter ⊢
        obtain ⟨hrest, hbytes⟩ := results_done h hafter hofRest
        exact ⟨congrArg (f.frame :: ·) hrest, hbytes⟩
      · rw [if_neg hlast] at hafter ⊢
        refine ih (fun b hb => takesAt_collecting h hafter (htimesRest b (List.mem_of_head? hb)))
          hofRest htimesRest hlast fun j hj hmissing => ?_
        rw [List.mem_cons, not_or] at hmissing
        obtain ⟨b, hb, hbufj⟩ := hall j hj hmissing.2
        rcases List.mem_cons.mp hb with rfl | hb
        · exact absurd (fragment_inj h hj hi (hbufj.symm.trans hbuf)) hmissing.1
        · exact ⟨b, hb, hbufj⟩

end SentFrame

/-- The fragments of a frame, each at least once and in any order, give the frame back
once and leave nothing behind, when they come in before the timeout of the first. -/
theorem fragments_round_trip {sender : String} {frameSeq : UInt32} {keyframe : Bool}
    {codec : VideoCodec} {ptsUs : UInt64} {signature : FrameSignature} {sealedFrame : Bytes}
    {maxPayload : Nat} {frags : List Bytes} {first : Arrival} {rest : List Arrival}
    (hfrags : fragmentFrame sender frameSeq keyframe codec ptsUs signature sealedFrame maxPayload =
      some frags)
    (hfit : sealedFrame.length ≤ maxPartialBytesPerSender)
    (hof : ∀ a ∈ first :: rest, a.buf ∈ frags)
    (hall : ∀ frag ∈ frags, ∃ a ∈ first :: rest, a.buf = frag)
    (htimes : ∀ a ∈ first :: rest, a.now - first.now < partialTimeout) :
    (Reassembler.results {} (first :: rest)).filterMap Except.toOption =
        [⟨sender, frameSeq, keyframe, codec, ptsUs, signature, sealedFrame⟩] ∧
      (Run.run Reassembler.step {} (arrived (first :: rest))).bufferedBytes sender = 0 := by
  obtain ⟨f, hsendable, rfl, rfl, hframe, -⟩ := sendable_of_fragmentFrame hfrags
  have hsender : f.sender = sender := congrArg ReassembledFrame.sender hframe
  rw [← hframe, ← hsender]
  refine SentFrame.results_collecting hsendable hfit ?_ ?_ htimes (?_ : ¬ ∀ i < f.count, i ∈ []) ?_
  · intro a ha
    obtain rfl := Option.some.inj ha
    exact SentFrame.takesAt_new hsendable first.now
  · intro a ha
    obtain ⟨i, hi, hfrag⟩ := List.mem_map.mp (hof a ha)
    exact ⟨i, List.mem_range.mp hi, hfrag.symm⟩
  · exact fun hseen => absurd (hseen 0 (chunkCount_pos _ _)) List.not_mem_nil
  · intro i hi _
    exact hall (f.fragment i) (List.mem_map_of_mem (List.mem_range.mpr hi))

/-! ## A frame of two fragments -/

/-- The hash maps yield their entries as they are kept. -/
def plainOrder : VisitOrder :=
  ⟨fun l => l, fun l => .refl l⟩

/-- The second fragment, the first, and the second again. -/
def shuffledArrivals : List Arrival :=
  [⟨plainOrder, sampleFragments[1]?.getD [], 0⟩, ⟨plainOrder, sampleFragments[0]?.getD [], 100⟩,
    ⟨plainOrder, sampleFragments[1]?.getD [], 199⟩]

theorem fragments_round_trip_shuffled :
    (Reassembler.results {} shuffledArrivals).filterMap Except.toOption =
        [⟨"alice", 9, true, .h264, 5, sampleSignature, [1, 2, 3, 4]⟩] ∧
      (Run.run Reassembler.step {} (arrived shuffledArrivals)).bufferedBytes "alice" = 0 :=
  fragments_round_trip sampleFragments_eq (by decide) (by decide +kernel) (by decide +kernel)
    (by decide +kernel)

/-- The second fragment comes in when the first has waited for the whole timeout. -/
def lateArrivals : List Arrival :=
  [⟨plainOrder, sampleFragments[0]?.getD [], 0⟩,
    ⟨plainOrder, sampleFragments[1]?.getD [], partialTimeout⟩]

theorem late_fragment_is_lost :
    fragmentFrame "alice" 9 true .h264 5 sampleSignature [1, 2, 3, 4] 91 = some sampleFragments ∧
      [1, 2, 3, 4].length ≤ maxPartialBytesPerSender ∧
      lateArrivals.map (fun a => a.buf) = sampleFragments ∧
      (∀ a ∈ lateArrivals, a.now - 0 ≤ partialTimeout) ∧
      (Reassembler.results {} lateArrivals).filterMap Except.toOption = [] := by
  decide +kernel

end ConquerD.Client.Video
