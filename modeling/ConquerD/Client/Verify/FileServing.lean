import ConquerD.Client.FileDispatch
import ConquerD.Client.Verify.FileRoundTrip

/-!
# Every requester of a room's file

The cursor and the addressee of a stream are kept once for each offer, and a
request sets both. A member that asks while nobody else is being served gets
every chunk and COMPLETE, through any failures of the transport that clear in
time; a member that asks while another is being served takes its stream over.
-/

namespace ConquerD.Client

open Std (ExtTreeMap)
open Lib.Run Lib.Chunks Lib.Encoding Wire

/-! ## What one transfer's messages touch -/

/-- Only the record of one transfer changed, and it is still of that transfer. -/
structure Touches (t : String) (m m' : FileTransferManager) : Prop where
  elsewhere : ∀ u ≠ t, m'.outbound[u]? = m.outbound[u]?
  same : ∀ x', m'.outbound[t]? = some x' →
    ∃ x, m.outbound[t]? = some x ∧ x'.transferId = x.transferId

namespace Touches

variable {t : String} {m m' m'' : FileTransferManager}

theorem refl (t : String) (m : FileTransferManager) : Touches t m m :=
  ⟨fun _ _ => rfl, fun x hx => ⟨x, hx, rfl⟩⟩

theorem trans (h : Touches t m m') (h' : Touches t m' m'') : Touches t m m'' := by
  refine ⟨fun u hu => (h'.elsewhere u hu).trans (h.elsewhere u hu), fun x'' hx'' => ?_⟩
  obtain ⟨x', hx', hid'⟩ := h'.same x'' hx''
  obtain ⟨x, hx, hid⟩ := h.same x' hx'
  exact ⟨x, hx, hid'.trans hid⟩

theorem set {x x' : OutboundTransfer} (hx : m.outbound[t]? = some x)
    (hid : x'.transferId = x.transferId) : Touches t m (m.setOutbound t x') := by
  refine ⟨fun u hu => ?_, fun y hy => ⟨x, hx, ?_⟩⟩
  · simp only [FileTransferManager.setOutbound]
    rw [ExtTreeMap.getElem?_insert, if_neg (by simpa using hu.symm)]
  · rw [getElem?_setOutbound] at hy
    cases hy
    exact hid

theorem markOutboundComplete (env : FileEnv) (t : String) (m : FileTransferManager) :
    Touches t m (m.markOutboundComplete env t) := by
  unfold FileTransferManager.markOutboundComplete
  split
  · exact refl t m
  · next x hx => exact set hx rfl

theorem unsendChunks (t : String) (n : Nat) (m : FileTransferManager) :
    Touches t m (m.unsendChunks t n) := by
  unfold FileTransferManager.unsendChunks
  split
  · exact refl t m
  · next x hx =>
    refine set hx ?_
    split
    · rfl
    · rfl

theorem noteSendProgress (t : String) (m : FileTransferManager) :
    Touches t m (m.noteSendProgress t) := by
  unfold FileTransferManager.noteSendProgress
  split
  · exact refl t m
  · next x hx => exact set hx rfl

theorem noteSendStalled (env : FileEnv) (t : String) (m : FileTransferManager) :
    Touches t m (m.noteSendStalled env t).1 := by
  unfold FileTransferManager.noteSendStalled
  split
  · exact refl t m
  · next x hx =>
    simp only
    split
    · exact set hx rfl
    · exact set hx rfl

theorem foldl {α : Type} {step : FileTransferManager → α → FileTransferManager} {as : List α}
    (h : ∀ m, ∀ a ∈ as, Touches t m (step m a)) : Touches t m (as.foldl step m) := by
  induction as generalizing m with
  | nil => exact refl t m
  | cons a as ih =>
    have hhead := h m a List.mem_cons_self
    exact hhead.trans (ih fun m' a' ha' => h m' a' (List.mem_cons_of_mem _ ha'))

end Touches

def frameId : FileMessage → String
  | .offer transferId .. | .accept transferId | .reject transferId _ | .chunk transferId ..
  | .complete transferId _ | .ack transferId | .error transferId _ => transferId

/-- A batch that concerns one transfer. -/
structure BatchOf (t : String) (m : FileTransferManager) (b : Batch) : Prop where
  manager : Touches t m b.manager
  unsent : ∀ p ∈ b.unsentChunks, p.1 = t
  stalled : ∀ u ∈ b.stalled, u = t
  progressed : ∀ u ∈ b.progressed, u = t

theorem mem_insertName {name u : String} {names : List String} (h : u ∈ insertName name names) :
    u = name ∨ u ∈ names := by
  unfold insertName at h
  split at h
  · exact .inr h
  · rcases List.mem_append.mp h with hold | hnew
    · exact .inr hold
    · exact .inl (List.mem_singleton.mp hnew)

theorem mem_bump {name : String} {counts : List (String × Nat)} {p : String × Nat}
    (h : p ∈ bump name counts) : p.1 = name ∨ p ∈ counts := by
  induction counts with
  | nil =>
    rw [bump, List.mem_singleton] at h
    exact .inl (by rw [h])
  | cons q rest ih =>
    obtain ⟨other, n⟩ := q
    unfold bump at h
    split at h
    · next heq =>
      rcases List.mem_cons.mp h with rfl | hrest
      · exact .inl heq
      · exact .inr (List.mem_cons_of_mem _ hrest)
    · rcases List.mem_cons.mp h with rfl | hrest
      · exact .inr List.mem_cons_self
      · rcases ih hrest with hname | hold
        · exact .inl hname
        · exact .inr (List.mem_cons_of_mem _ hold)

section Batch

variable {env : FileEnv} {ready sends : FileMessage → Bool} {t : String}
  {m : FileTransferManager} {b : Batch}

theorem BatchOf.miss (h : BatchOf t m b) (isChunk : Bool) : BatchOf t m (b.miss t isChunk) := by
  unfold Batch.miss
  split
  · exact h
  · refine ⟨h.manager, fun p hp => ?_, fun u hu => ?_, h.progressed⟩
    · simp only at hp
      split at hp
      · exact (mem_bump hp).elim id (h.unsent p)
      · exact h.unsent p hp
    · exact (mem_insertName hu).elim id (h.stalled u)

theorem BatchOf.dispatch (h : BatchOf t m b) {f : FileMessage} (hf : frameId f = t) :
    BatchOf t m (b.dispatch env ready sends f) := by
  cases f with
  | chunk transferId index data toPeer =>
    obtain rfl : transferId = t := hf
    simp only [Batch.dispatch]
    split
    · exact h.miss true
    · split
      · refine ⟨h.manager, h.unsent, h.stalled, fun u hu => ?_⟩
        simp only at hu
        split at hu
        · exact h.progressed u hu
        · exact (mem_insertName hu).elim id (h.progressed u)
      · have hmiss := h.miss true
        exact ⟨hmiss.manager, hmiss.unsent, hmiss.stalled, hmiss.progressed⟩
  | complete transferId toPeer =>
    obtain rfl : transferId = t := hf
    simp only [Batch.dispatch]
    split
    · exact h.miss false
    · split
      · exact ⟨h.manager.trans (.markOutboundComplete env transferId b.manager), h.unsent,
          h.stalled, h.progressed⟩
      · exact h.miss false
  | _ =>
    simp only [Batch.dispatch]
    split
    · exact ⟨h.manager, h.unsent, h.stalled, h.progressed⟩
    · exact h

theorem BatchOf.finish (h : BatchOf t m b) : Touches t m (b.finish env) := by
  unfold Batch.finish
  refine ((h.manager.trans (.foldl fun m p hp => ?_)).trans (.foldl fun m u hu => ?_)).trans
    (.foldl fun m u hu => ?_)
  · rw [h.unsent p hp]
    exact .unsendChunks t p.2 m
  · rw [h.progressed u (List.mem_of_mem_filter hu)]
    exact .noteSendProgress t m
  · rw [h.stalled u hu]
    exact .noteSendStalled env t m

theorem touches_dispatchBatch {fs : List FileMessage} (hfs : ∀ f ∈ fs, frameId f = t) :
    Touches t m (dispatchBatch env ready sends m fs).1 := by
  have hbatch : ∀ b, BatchOf t m b → BatchOf t m (fs.foldl (Batch.dispatch env ready sends) b) := by
    intro b hb
    induction fs generalizing b with
    | nil => exact hb
    | cons f fs ih =>
      exact ih (fun g hg => hfs g (List.mem_cons_of_mem _ hg)) _
        (hb.dispatch (hfs f List.mem_cons_self))
  refine (hbatch (.new m) ⟨.refl t m, ?_, ?_, ?_⟩).finish
  · intro p hp
    cases hp
  · intro u hu
    cases hu
  · intro u hu
    cases hu

end Batch

/-! ## A slice on its way out -/

/-- What a batch knows after some chunks of one stream: those before the first
that did not go out were sent. -/
structure Chunked (tid : String) (m : FileTransferManager) (fs : List FileMessage) (k : Nat)
    (b : Batch) : Prop where
  manager : b.manager = m
  le : k ≤ fs.length
  sent : b.sent = fs.take k
  progressed : b.progressed = if k = 0 then [] else [tid]
  clear : k = fs.length → b.holdFileData = false ∧ b.unsentChunks = [] ∧ b.stalled = []
  held : k < fs.length →
    b.holdFileData = true ∧ b.unsentChunks = [(tid, fs.length - k)] ∧ b.stalled = [tid]

section Slice

variable {env : FileEnv} {ready sends : FileMessage → Bool} {tid : String}
  {m : FileTransferManager} {b : Batch} {fs : List FileMessage} {k : Nat} {x : OutboundTransfer}

theorem Chunked.snoc (h : Chunked tid m fs k b) (hne : tid ≠ "") {f : FileMessage}
    (hf : ∃ i d p, f = .chunk tid i d p) :
    ∃ k', Chunked tid m (fs ++ [f]) k' (b.dispatch env ready sends f) ∧
      (k = fs.length → ready f = true → sends f = true → k' = fs.length + 1) := by
  obtain ⟨i, d, p, rfl⟩ := hf
  rcases Nat.lt_or_eq_of_le h.le with hlt | rfl
  · obtain ⟨hhold, hunsent, hstalled⟩ := h.held hlt
    refine ⟨k, ?_, fun heq => absurd heq hlt.ne⟩
    simp only [Batch.dispatch, hhold, if_true, Batch.miss, hne, if_false, hunsent, hstalled]
    refine ⟨h.manager, ?_, ?_, h.progressed, ?_, fun _ => ⟨rfl, ?_, ?_⟩⟩
    · rw [List.length_append]
      exact h.le.trans (Nat.le_add_right _ _)
    · rw [h.sent, List.take_append_of_le_length h.le]
    · rw [List.length_append, List.length_singleton]
      omega
    · simp only [bump, if_true, List.length_append, List.length_singleton]
      congr 2
      omega
    · simp [insertName]
  · obtain ⟨hhold, hunsent, hstalled⟩ := h.clear rfl
    by_cases hgo : (ready (.chunk tid i d p) && sends (.chunk tid i d p)) = true
    · refine ⟨fs.length + 1, ?_, fun _ _ _ => rfl⟩
      simp only [Batch.dispatch, hhold, Bool.false_eq_true, if_false, hgo, if_true, hne]
      refine ⟨h.manager, ?_, ?_, ?_, fun _ => ⟨rfl, hunsent, hstalled⟩, ?_⟩
      · rw [List.length_append, List.length_singleton]
      · simp only [h.sent, List.take_length]
        rw [List.take_of_length_le (by rw [List.length_append, List.length_singleton])]
      · rw [if_neg (Nat.succ_ne_zero _), h.progressed]
        split
        · simp [insertName]
        · simp [insertName]
      · rw [List.length_append, List.length_singleton]
        omega
    · refine ⟨fs.length, ?_, fun _ hready hsends => absurd (by rw [hready, hsends]; rfl) hgo⟩
      simp only [Batch.dispatch, hhold, Bool.false_eq_true, if_false, hgo, Batch.miss, hne,
        hunsent, hstalled, if_true]
      refine ⟨h.manager, ?_, ?_, h.progressed, ?_, fun _ => ⟨rfl, ?_, ?_⟩⟩
      · rw [List.length_append]
        exact Nat.le_add_right _ _
      · rw [h.sent, List.take_append_of_le_length (le_refl _)]
      · rw [List.length_append, List.length_singleton]
        omega
      · simp [bump]
      · simp [insertName]

theorem foldl_chunks (env : FileEnv) (ready sends : FileMessage → Bool) (m : FileTransferManager)
    (hne : tid ≠ "") (hfs : ∀ f ∈ fs, ∃ i d p, f = .chunk tid i d p) :
    ∃ k, Chunked tid m fs k (fs.foldl (Batch.dispatch env ready sends) (.new m)) ∧
      ((∀ f ∈ fs, ready f = true ∧ sends f = true) → k = fs.length) := by
  induction fs using List.reverseRecOn with
  | nil =>
    refine ⟨0, ⟨rfl, le_refl _, rfl, rfl, fun _ => ⟨rfl, rfl, rfl⟩, ?_⟩, fun _ => rfl⟩
    intro hlt
    exact absurd hlt (lt_irrefl 0)
  | append_singleton fs f ih =>
    obtain ⟨k, hchunked, hall⟩ := ih fun g hg => hfs g (List.mem_append_left _ hg)
    have hlast : f ∈ fs ++ [f] := List.mem_append_right _ List.mem_cons_self
    obtain ⟨k', hsnoc, hnext⟩ := hchunked.snoc hne (hfs f hlast)
    rw [List.foldl_append, List.foldl_cons, List.foldl_nil]
    refine ⟨k', hsnoc, fun hgood => ?_⟩
    rw [List.length_append, List.length_singleton]
    exact hnext (hall fun g hg => hgood g (List.mem_append_left _ hg)) (hgood f hlast).1
      (hgood f hlast).2

/-- The stream was not stalled for so long that it is given up now. -/
def Clears (env : FileEnv) (x : OutboundTransfer) : Prop :=
  ∀ since, x.stalledSince = some since → env.now - since < stallGiveUpSecs

/-- The record of a stream after its slice was dispatched. -/
structure Resumed (env : FileEnv) (x x' : OutboundTransfer) : Prop where
  transferId : x'.transferId = x.transferId
  source : x'.source = x.source
  totalChunks : x'.totalChunks = x.totalChunks
  toPeer : x'.toPeer = x.toPeer
  clears : Clears env x → Clears env x'

/-- Two records of one stream. -/
structure SameStream (x x' : OutboundTransfer) : Prop where
  transferId : x'.transferId = x.transferId
  source : x'.source = x.source
  totalChunks : x'.totalChunks = x.totalChunks
  toPeer : x'.toPeer = x.toPeer

theorem SameStream.resumed {x' : OutboundTransfer} (h : SameStream x x')
    (hclears : Clears env x → Clears env x') : Resumed env x x' :=
  ⟨h.transferId, h.source, h.totalChunks, h.toPeer, hclears⟩

theorem Resumed.same {x' : OutboundTransfer} (h : Resumed env x x') : SameStream x x' :=
  ⟨h.transferId, h.source, h.totalChunks, h.toPeer⟩

theorem noteSendStalled_record (env : FileEnv) (hx : m.outbound[tid]? = some x) :
    ∃ x', (m.noteSendStalled env tid).1 = m.setOutbound tid x' ∧ SameStream x x' ∧
      x'.chunksSent = x.chunksSent ∧ ((x'.state = .failed ∧ ¬ Clears env x) ∨
        (x'.state = x.state ∧ Clears env x')) := by
  by_cases hover : env.now - x.stalledSince.getD env.now ≥ stallGiveUpSecs
  · simp only [FileTransferManager.noteSendStalled, hx, hover, if_true]
    refine ⟨_, rfl, ⟨rfl, rfl, rfl, rfl⟩, rfl, .inl ⟨rfl, fun hclears => ?_⟩⟩
    cases hsince : x.stalledSince with
    | none =>
      rw [hsince, Option.getD_none, sub_self] at hover
      exact absurd hover (by decide)
    | some since =>
      rw [hsince, Option.getD_some] at hover
      exact not_le.mpr (hclears since hsince) hover
  · simp only [FileTransferManager.noteSendStalled, hx, hover, if_false]
    refine ⟨_, rfl, ⟨rfl, rfl, rfl, rfl⟩, rfl, .inr ⟨rfl, fun since hsince => ?_⟩⟩
    cases hsince
    exact not_le.mp hover

theorem finish_of_held (env : FileEnv) (hx : m.outbound[tid]? = some x)
    (hstate : x.state = .transferring) (hmanager : b.manager = m) {n : Nat}
    (hunsent : b.unsentChunks = if n = 0 then [] else [(tid, n)]) (hstalled : b.stalled = [tid])
    (hprogressed : ∀ u ∈ b.progressed, u = tid) :
    ∃ x', (b.finish env).outbound[tid]? = some x' ∧ SameStream x x' ∧
      x'.chunksSent = x.chunksSent - n ∧ ((x'.state = .failed ∧ ¬ Clears env x) ∨
        (x'.state = .transferring ∧ Clears env x')) := by
  have hnone : b.progressed.filter (fun t => t ∉ b.stalled) = [] := by
    rw [List.filter_eq_nil_iff]
    intro u hu
    rw [hprogressed u hu, hstalled]
    simp
  unfold Batch.finish
  rw [hnone, hunsent, hmanager, hstalled]
  simp only [List.foldl_nil, List.foldl_cons]
  split
  · next hzero =>
    obtain ⟨x', hset, hsame, hsent, hstate'⟩ := noteSendStalled_record env hx
    rw [List.foldl_nil, hset, hzero]
    rw [hstate] at hstate'
    exact ⟨x', getElem?_setOutbound _ _ _, hsame, hsent, hstate'⟩
  · rw [List.foldl_cons, List.foldl_nil]
    have hback : m.unsendChunks tid n =
        m.setOutbound tid { x with chunksSent := x.chunksSent - n } := by
      simp only [FileTransferManager.unsendChunks, hx]
      rw [if_neg (by rw [hstate]; decide)]
    obtain ⟨x', hset, hsame, hsent, hstate'⟩ := noteSendStalled_record env
      (getElem?_setOutbound m tid { x with chunksSent := x.chunksSent - n })
    rw [hback, hset]
    simp only [hstate] at hstate'
    exact ⟨x', getElem?_setOutbound _ _ _,
      ⟨hsame.transferId, hsame.source, hsame.totalChunks, hsame.toPeer⟩, hsent, hstate'⟩

theorem finish_of_clear (env : FileEnv) (hx : m.outbound[tid]? = some x)
    (hmanager : b.manager = m) (hunsent : b.unsentChunks = []) (hstalled : b.stalled = [])
    {k : Nat} (hprogressed : b.progressed = if k = 0 then [] else [tid]) :
    ∃ x', (b.finish env).outbound[tid]? = some x' ∧ Resumed env x x' ∧
      x'.chunksSent = x.chunksSent ∧ x'.state = x.state ∧ (k ≠ 0 → x'.retryAfter = 0) := by
  unfold Batch.finish
  rw [hunsent, hmanager, hstalled, hprogressed]
  split
  · next hzero =>
    exact ⟨x, hx, ⟨rfl, rfl, rfl, rfl, id⟩, rfl, rfl, fun hk => absurd hzero hk⟩
  · simp only [List.foldl_nil, List.not_mem_nil, not_false_eq_true, decide_true,
      List.filter_cons_of_pos, List.filter_nil, List.foldl_cons]
    simp only [FileTransferManager.noteSendProgress, hx]
    refine ⟨_, getElem?_setOutbound _ _ _, ⟨rfl, rfl, rfl, rfl, fun _ since hsince => ?_⟩, rfl, rfl,
      fun _ => rfl⟩
    cases hsince

/-- The outcome of dispatching a slice: its first `k` chunks went out, and
COMPLETE if the slice had it and it went out too. The stream goes on, unless it has
stalled for too long. -/
structure SliceOut (env : FileEnv) (tid : String) (x : OutboundTransfer)
    (fs tail : List FileMessage) (k : Nat) (out : FileTransferManager × List FileMessage)
    (x' : OutboundTransfer) : Prop where
  record : out.1.outbound[tid]? = some x'
  same : SameStream x x'
  le : k ≤ fs.length
  chunksSent : x'.chunksSent = x.chunksSent - (fs.length - k)
  outcome : (k = fs.length ∧ tail ≠ [] ∧ out.2 = fs ++ tail ∧ x'.state = .complete) ∨
    (out.2 = fs.take k ∧ (x'.state = .transferring ∨ x'.state = .failed))
  clears : Clears env x → Clears env x' ∧ x'.state ≠ .failed

theorem dispatchBatch_out (env : FileEnv) (ready sends : FileMessage → Bool) (hne : tid ≠ "")
    (hx : m.outbound[tid]? = some x) (hstate : x.state = .transferring)
    (hfs : ∀ f ∈ fs, ∃ i d p, f = .chunk tid i d p)
    {tail : List FileMessage} (htail : tail = [] ∨ ∃ p, tail = [.complete tid p]) :
    ∃ k x', SliceOut env tid x fs tail k (dispatchBatch env ready sends m (fs ++ tail)) x' ∧
      ((∀ f ∈ fs ++ tail, ready f = true ∧ sends f = true) →
        k = fs.length ∧ (tail ≠ [] → x'.state = .complete) ∧ (k ≠ 0 → x'.retryAfter = 0) ∧
          x'.state ≠ .failed) := by
  obtain ⟨k, hchunked, hall⟩ := foldl_chunks env ready sends m hne hfs
  have hfew : ∀ f ∈ fs, f ∈ fs ++ tail := fun f hf => List.mem_append_left _ hf
  simp only [dispatchBatch, List.foldl_append]
  generalize fs.foldl (Batch.dispatch env ready sends) (.new m) = b at hchunked
  have hprogressed : ∀ u ∈ b.progressed, u = tid := by
    intro u hu
    rw [hchunked.progressed] at hu
    split at hu
    · cases hu
    · exact List.mem_singleton.mp hu
  -- a record that stalled goes on or is given up
  have hends : ∀ {x' : OutboundTransfer}, ((x'.state = .failed ∧ ¬ Clears env x) ∨
      (x'.state = .transferring ∧ Clears env x')) →
      (x'.state = .transferring ∨ x'.state = .failed) ∧
        (Clears env x → Clears env x' ∧ x'.state ≠ .failed) := by
    rintro x' (⟨hfailed, hnot⟩ | ⟨hgoes, hclear⟩)
    · exact ⟨.inr hfailed, fun hclears => absurd hclears hnot⟩
    · refine ⟨.inl hgoes, fun _ => ⟨hclear, ?_⟩⟩
      rw [hgoes]
      intro heq
      cases heq
  refine ⟨k, ?_⟩
  rcases Nat.lt_or_eq_of_le hchunked.le with hlt | hwhole
  · obtain ⟨hhold, hunsent, hstalled⟩ := hchunked.held hlt
    have hunsent' : b.unsentChunks =
        if fs.length - k = 0 then [] else [(tid, fs.length - k)] := by
      rw [if_neg (by omega), hunsent]
    have hbatch : ∃ b', tail.foldl (Batch.dispatch env ready sends) b = b' ∧ b'.manager = m ∧
        b'.unsentChunks = b.unsentChunks ∧ b'.stalled = [tid] ∧ b'.progressed = b.progressed ∧
        b'.sent = b.sent := by
      rcases htail with rfl | ⟨p, rfl⟩
      · exact ⟨b, rfl, hchunked.manager, rfl, hstalled, rfl, rfl⟩
      · refine ⟨_, rfl, ?_⟩
        simp only [List.foldl_cons, List.foldl_nil, Batch.dispatch, hhold, if_true, Batch.miss,
          hne, if_false, Bool.false_eq_true, hstalled, true_and, and_true]
        exact ⟨hchunked.manager, by simp [insertName]⟩
    obtain ⟨b', hb', hmanager, hunsent'', hstalled', hprogressed', hsent⟩ := hbatch
    obtain ⟨x', hrecord, hsame, hcount, hstate'⟩ := finish_of_held env hx hstate hmanager
      (hunsent''.trans hunsent') hstalled' (hprogressed' ▸ hprogressed)
    obtain ⟨hgoes, hclears⟩ := hends hstate'
    rw [hb']
    exact ⟨x', ⟨hrecord, hsame, hchunked.le, hcount, .inr ⟨hsent.trans hchunked.sent, hgoes⟩,
      hclears⟩, fun hgood => absurd (hall fun f hf => hgood f (hfew f hf)) hlt.ne⟩
  · obtain ⟨hhold, hunsent, hstalled⟩ := hchunked.clear hwhole
    have hcount : ∀ n, n = n - (fs.length - k) := fun n => by omega
    rcases htail with rfl | ⟨p, rfl⟩
    · obtain ⟨x', hrecord, hresumed, hsame, hstate', hretry⟩ :=
        finish_of_clear env hx hchunked.manager hunsent hstalled hchunked.progressed
      have hgoes : x'.state = .transferring := hstate'.trans hstate
      have hnot : x'.state ≠ .failed := by
        rw [hgoes]
        intro heq
        cases heq
      exact ⟨x', ⟨hrecord, hresumed.same, hchunked.le, hsame.trans (hcount _),
        .inr ⟨hchunked.sent, .inl hgoes⟩, fun hclears => ⟨hresumed.clears hclears, hnot⟩⟩,
        fun _ => ⟨hwhole, fun h => absurd rfl h, hretry, hnot⟩⟩
    · simp only [List.foldl_cons, List.foldl_nil, Batch.dispatch, hhold, Bool.false_eq_true,
        if_false]
      by_cases hgo : sends (.complete tid p) = true
      · have hmark : b.manager.markOutboundComplete env tid = m.setOutbound tid
            { x with state := .complete, finishedAt := some env.now } := by
          simp only [FileTransferManager.markOutboundComplete, hchunked.manager, hx]
        simp only [hgo, if_true]
        obtain ⟨x', hrecord, hresumed, hsame, hstate', hretry⟩ :=
          finish_of_clear (b := { b with
            manager := b.manager.markOutboundComplete env tid
            sent := b.sent ++ [.complete tid p] }) env (getElem?_setOutbound m tid _) hmark
            hunsent hstalled hchunked.progressed
        have hdone : x'.state = .complete := hstate'
        have hnot : x'.state ≠ .failed := by
          rw [hdone]
          intro heq
          cases heq
        refine ⟨x', ⟨hrecord, ⟨hresumed.transferId, hresumed.source, hresumed.totalChunks,
          hresumed.toPeer⟩, hchunked.le, hsame.trans (hcount _),
          .inl ⟨hwhole, List.cons_ne_nil _ _, ?_, hdone⟩,
          fun hclears => ⟨hresumed.clears hclears, hnot⟩⟩,
          fun _ => ⟨hwhole, fun _ => hdone, hretry, hnot⟩⟩
        rw [hchunked.sent, hwhole, List.take_length]
      · simp only [hgo, Bool.false_eq_true, if_false, Batch.miss, hne, hstalled]
        obtain ⟨x', hrecord, hsame, hcount', hstate'⟩ :=
          finish_of_held (b := { b with stalled := insertName tid [] }) (n := 0) env hx
            hstate hchunked.manager hunsent rfl hprogressed
        obtain ⟨hgoes, hclears⟩ := hends hstate'
        refine ⟨x', ⟨hrecord, hsame, hchunked.le, hcount'.trans (hcount _),
          .inr ⟨hchunked.sent, hgoes⟩, hclears⟩, fun hgood => absurd ?_ hgo⟩
        exact (hgood _ (List.mem_append_right _ List.mem_cons_self)).2

/-- The outcome of dispatching a slice of a stream that is not given up. -/
structure SliceSent (env : FileEnv) (tid : String) (x : OutboundTransfer)
    (fs tail : List FileMessage) (k : Nat) (out : FileTransferManager × List FileMessage)
    (x' : OutboundTransfer) : Prop where
  record : out.1.outbound[tid]? = some x'
  resumed : Resumed env x x'
  le : k ≤ fs.length
  chunksSent : x'.chunksSent = x.chunksSent - (fs.length - k)
  outcome : (k = fs.length ∧ tail ≠ [] ∧ out.2 = fs ++ tail ∧ x'.state = .complete) ∨
    (out.2 = fs.take k ∧ x'.state = .transferring)

theorem SliceOut.sent {tail : List FileMessage} {k : Nat}
    {out : FileTransferManager × List FileMessage} {x' : OutboundTransfer}
    (h : SliceOut env tid x fs tail k out x') (hnot : x'.state ≠ .failed) :
    SliceSent env tid x fs tail k out x' := by
  refine ⟨h.record, h.same.resumed fun hclears => (h.clears hclears).1, h.le, h.chunksSent, ?_⟩
  rcases h.outcome with hdone | ⟨hsome, hgoes | hfailed⟩
  · exact .inl hdone
  · exact .inr ⟨hsome, hgoes⟩
  · exact absurd hfailed hnot

theorem dispatchBatch_slice (ready sends : FileMessage → Bool) (hne : tid ≠ "") (hx : m.outbound[tid]? = some x)
    (hstate : x.state = .transferring) (hfs : ∀ f ∈ fs, ∃ i d p, f = .chunk tid i d p)
    {tail : List FileMessage} (htail : tail = [] ∨ ∃ p, tail = [.complete tid p])
    (hclears : Clears env x ∨ ∀ f ∈ fs ++ tail, ready f = true ∧ sends f = true) :
    ∃ k x', SliceSent env tid x fs tail k (dispatchBatch env ready sends m (fs ++ tail)) x' ∧
      ((∀ f ∈ fs ++ tail, ready f = true ∧ sends f = true) →
        k = fs.length ∧ (tail ≠ [] → x'.state = .complete) ∧ (k ≠ 0 → x'.retryAfter = 0)) := by
  obtain ⟨k, x', hout, hgood⟩ := dispatchBatch_out env ready sends hne hx hstate hfs htail
  have hnot : x'.state ≠ .failed := by
    rcases hclears with hclears | hworks
    · exact (hout.clears hclears).2
    · exact (hgood hworks).2.2.2
  refine ⟨k, x', hout.sent hnot, fun hworks => ?_⟩
  obtain ⟨hk, hcomplete, hretry, -⟩ := hgood hworks
  exact ⟨hk, hcomplete, hretry⟩

end Slice

/-! ## A stream -/

theorem messagesOf_emitChunks (P : Platform) (env : FileEnv) (disk : Disk) (budget : Nat)
    (x : OutboundTransfer) :
    messagesOf (emitChunks P env disk budget x).2.1 =
      fileFrames (emitChunks P env disk budget x).2.1 := by
  induction budget generalizing x with
  | zero => rfl
  | succ budget ih =>
    unfold emitChunks
    split
    · split
      · rfl
      · next c _ =>
        have hrest := ih { x with chunksSent := x.chunksSent + 1 }
        simp only
        split
        · exact congrArg (List.cons _) hrest
        · exact congrArg (List.cons _) hrest
    · rfl

theorem messagesOf_nextChunkEvents (P : Platform) (env : FileEnv) (disk : Disk) (budget : Nat)
    (x : OutboundTransfer) :
    messagesOf (nextChunkEvents P env disk budget x).2.1 =
      fileFrames (nextChunkEvents P env disk budget x).2.1 := by
  have hemit := messagesOf_emitChunks P env disk budget x
  unfold nextChunkEvents
  generalize emitChunks P env disk budget x = r at hemit
  obtain ⟨x', evs, read⟩ := r
  simp only at hemit
  cases read with
  | false => exact hemit
  | true =>
    simp only
    split
    · simp only [messagesOf, fileFrames, List.filterMap_append] at hemit ⊢
      rw [hemit]
      rfl
    · exact hemit

theorem filter_isRoomMessage_fileFrames (evs : List TransferEvent) :
    (fileFrames evs).filter FileMessage.isRoomMessage = fileFrames evs := by
  rw [List.filter_eq_self]
  intro f hf
  obtain ⟨e, -, he⟩ := List.mem_filterMap.mp hf
  split at he
  · cases he
    rfl
  · cases he
    rfl
  · cases he

theorem roomMessages_nextChunkEvents (P : Platform) (env : FileEnv) (disk : Disk) (budget : Nat)
    (x : OutboundTransfer) :
    (messagesOf (nextChunkEvents P env disk budget x).2.1).filter FileMessage.isRoomMessage =
      fileFrames (nextChunkEvents P env disk budget x).2.1 := by
  rw [messagesOf_nextChunkEvents, filter_isRoomMessage_fileFrames]

/-- The record of a stream of a payload. -/
structure StreamOf (disk : Disk) (payload : Bytes) (tid : String) (x : OutboundTransfer) : Prop where
  transferId : x.transferId = tid
  source : Supplies disk payload x.source
  total : x.totalChunks = chunkCount chunkSize payload.length
  le : x.chunksSent ≤ x.totalChunks

/-- Chunks from one number up to another, and not including it, were sent to a
member. -/
def SentBetween (P : Platform) (payload : Bytes) (tid toPeer : String) (start stop : Nat)
    (sent : List FileMessage) : Prop :=
  ∀ i, start ≤ i → i < stop → chunkMessage P payload tid i toPeer ∈ sent

/-- Every frame of the batch can be sealed and goes out. -/
def Transport.Works (net : Transport) : Prop :=
  net.hasRealKey = true ∧ (∀ f, net.seals f = true) ∧ ∀ f, net.sends f = true

section Stream

variable {P : Platform} {env : FileEnv} {disk : Disk} {net : Transport} {payload : Bytes}
  {tid : String} {m : FileTransferManager} {x : OutboundTransfer}

theorem chunkReady_of_works (hworks : net.Works) (f : FileMessage) : net.chunkReady P f = true := by
  obtain ⟨hkey, hseals, -⟩ := hworks
  cases f with
  | chunk => simp only [Transport.chunkReady, hkey, hseals, Bool.or_true, Bool.and_self]
  | _ => rfl

/-- The next slice of a stream, with what went out of it. -/
def streamSlice (P : Platform) (env : FileEnv) (disk : Disk) (net : Transport)
    (m : FileTransferManager) (tid : String) (x : OutboundTransfer) :
    FileTransferManager × List FileMessage :=
  dispatchRoomTransferEvents P env net
    (m.setOutbound tid (nextChunkEvents P env disk roomFileChunkBudget x).1)
    (nextChunkEvents P env disk roomFileChunkBudget x).2.1

/-- The record after a slice, against what went out of it. -/
structure SliceServed (P : Platform) (env : FileEnv) (disk : Disk) (payload : Bytes) (tid : String)
    (x : OutboundTransfer) (out : FileTransferManager × List FileMessage) (x' : OutboundTransfer) :
    Prop where
  record : out.1.outbound[tid]? = some x'
  stream : StreamOf disk payload tid x'
  toPeer : x'.toPeer = x.toPeer
  clears : Clears env x → Clears env x'
  state : x'.state = .transferring ∨ x'.state = .complete
  chunks : SentBetween P payload tid x.toPeer x.chunksSent x'.chunksSent out.2
  complete : x'.state = .complete →
    x'.chunksSent = x'.totalChunks ∧ .complete tid x.toPeer ∈ out.2

theorem framesFrom_take {start k n : Nat} (hk : k ≤ n) :
    (framesFrom P payload x start n).take k = framesFrom P payload x start k := by
  rw [framesFrom, ← List.map_take, List.take_range'_of_length_ge hk]
  rfl

theorem streamSlice_served (net : Transport) (m : FileTransferManager) (hne : tid ≠ "")
    (hx : StreamOf disk payload tid x) (hstate : x.state = .transferring)
    (hclears : Clears env x ∨ net.Works) (hread : ∀ i, env.canRead i = true) :
    ∃ x', SliceServed P env disk payload tid x (streamSlice P env disk net m tid x) x' ∧
      (net.Works → x'.state = .complete ∨
        (x.chunksSent < x'.chunksSent ∧ x'.state = .transferring ∧ x'.retryAfter = 0)) := by
  have hnone : ¬ ∃ i, x.chunksSent ≤ i ∧ i < x.totalChunks ∧
      x.source.readChunk env disk i = none := by
    rintro ⟨i, -, hi, hfails⟩
    rw [hx.source.readChunk_of_lt (hread i) (hx.total ▸ hi)] at hfails
    cases hfails
  obtain ⟨n, ⟨hframes, hn, hx1⟩ | ⟨-, -, hbad, -⟩⟩ :=
    nextChunkEvents_spec (P := P) env hx.source roomFileChunkBudget
  · have hchunks : ∀ f ∈ framesFrom P payload x x.chunksSent n,
        ∃ i d p, f = .chunk tid i d p := by
      intro f hf
      obtain ⟨i, -, -, rfl⟩ := mem_framesFrom hf
      exact ⟨i, _, _, by rw [hx.transferId]; rfl⟩
    have htail : tailOf { x with chunksSent := x.chunksSent + n } = [] ∨
        ∃ p, tailOf { x with chunksSent := x.chunksSent + n } = [.complete tid p] := by
      unfold tailOf
      split
      · exact .inr ⟨x.toPeer, by rw [← hx.transferId]⟩
      · exact .inl rfl
    have hclears1 : Clears env { x with chunksSent := x.chunksSent + n } ∨
        ∀ f ∈ framesFrom P payload x x.chunksSent n ++
          tailOf { x with chunksSent := x.chunksSent + n },
          net.chunkReady P f = true ∧ net.sends f = true := by
      rcases hclears with hclears | hworks
      · exact .inl hclears
      · exact .inr fun f _ => ⟨chunkReady_of_works hworks f, hworks.2.2 f⟩
    rw [hx1] at hframes
    have hstate1 : ({ x with chunksSent := x.chunksSent + n } : OutboundTransfer).state =
        .transferring := hstate
    obtain ⟨k, x', hsent, hgood⟩ := dispatchBatch_slice (net.chunkReady P) net.sends hne
      (getElem?_setOutbound m tid { x with chunksSent := x.chunksSent + n }) hstate1 hchunks
      htail hclears1
    have hout : streamSlice P env disk net m tid x = dispatchBatch env (net.chunkReady P) net.sends
        (m.setOutbound tid { x with chunksSent := x.chunksSent + n })
        (framesFrom P payload x x.chunksSent n ++
          tailOf { x with chunksSent := x.chunksSent + n }) := by
      simp only [streamSlice, dispatchRoomTransferEvents, roomMessages_nextChunkEvents, hframes, hx1]
    rw [hout]
    have hlen : (framesFrom P payload x x.chunksSent n).length = n := by
      simp only [framesFrom, List.length_map, List.length_range']
    have hle := hsent.le
    have hcount := hsent.chunksSent
    have hfits := hx.le
    rw [hlen] at hle hcount
    simp only at hcount
    have hlast : tailOf { x with chunksSent := x.chunksSent + n } ≠ [] →
        x.chunksSent + n = x.totalChunks ∧
          tailOf { x with chunksSent := x.chunksSent + n } = [.complete tid x.toPeer] := by
      unfold tailOf
      split
      · next hdone =>
        simp only at hdone
        exact fun _ => ⟨by omega, by rw [← hx.transferId]⟩
      · exact fun h => absurd rfl h
    refine ⟨x', ⟨hsent.record, ⟨hsent.resumed.transferId.trans hx.transferId, ?_,
      hsent.resumed.totalChunks.trans hx.total, ?_⟩, hsent.resumed.toPeer, hsent.resumed.clears,
      ?_, ?_, ?_⟩, ?_⟩
    · rw [hsent.resumed.source]
      exact hx.source
    · rw [hsent.resumed.totalChunks]
      simp only
      omega
    · rcases hsent.outcome with ⟨-, -, -, hcomplete⟩ | ⟨-, htransferring⟩
      · exact .inr hcomplete
      · exact .inl htransferring
    · intro i hi hlt
      have hmem : chunkMessage P payload tid i x.toPeer ∈ framesFrom P payload x x.chunksSent k := by
        refine List.mem_map.mpr ⟨i, List.mem_range'_1.mpr ⟨hi, by omega⟩, ?_⟩
        rw [frameOf, hx.transferId]
        rfl
      rw [← framesFrom_take hle] at hmem
      rcases hsent.outcome with ⟨-, -, hall, -⟩ | ⟨hsome, -⟩
      · rw [hall]
        exact List.mem_append_left _ (List.mem_of_mem_take hmem)
      · rw [hsome]
        exact hmem
    · intro hcomplete
      rcases hsent.outcome with ⟨hk, htail', hall, -⟩ | ⟨-, htransferring⟩
      · obtain ⟨hdone, hframe⟩ := hlast htail'
        rw [hlen] at hk
        rw [hsent.resumed.totalChunks, hall, hframe]
        exact ⟨by simp only; omega, List.mem_append_right _ List.mem_cons_self⟩
      · rw [hcomplete] at htransferring
        cases htransferring
    · intro hworks
      obtain ⟨hk, hcomplete, hretry⟩ :=
        hgood fun f _ => ⟨chunkReady_of_works hworks f, hworks.2.2 f⟩
      rcases hsent.outcome with ⟨-, -, -, hdone⟩ | ⟨-, htransferring⟩
      · exact .inl hdone
      · refine .inr ⟨?_, htransferring, hretry ?_⟩
        all_goals
          rw [hlen] at hk
          have hmore : ¬ x.chunksSent + n ≥ x.totalChunks := by
            intro hdone
            have hnil : tailOf { x with chunksSent := x.chunksSent + n } ≠ [] := by
              simp only [tailOf, if_pos hdone]
              exact List.cons_ne_nil _ _
            rw [hcomplete hnil] at htransferring
            cases htransferring
          simp only [roomFileChunkBudget] at hn
          omega
  · exact absurd hbad hnone

theorem emitChunks_transferId (P : Platform) (env : FileEnv) (disk : Disk) (budget : Nat)
    (x : OutboundTransfer) :
    (emitChunks P env disk budget x).1.transferId = x.transferId ∧
      ∀ f ∈ fileFrames (emitChunks P env disk budget x).2.1, frameId f = x.transferId := by
  induction budget generalizing x with
  | zero =>
    refine ⟨rfl, fun f hf => ?_⟩
    cases hf
  | succ budget ih =>
    unfold emitChunks
    split
    · split
      · refine ⟨rfl, fun f hf => ?_⟩
        cases hf
      · next c _ =>
        obtain ⟨hid, hframes⟩ := ih { x with chunksSent := x.chunksSent + 1 }
        refine ⟨hid, fun f hf => ?_⟩
        simp only at hf
        split at hf
        · rcases List.mem_cons.mp hf with rfl | hrest
          · rfl
          · exact hframes f hrest
        · rcases List.mem_cons.mp hf with rfl | hrest
          · rfl
          · exact hframes f hrest
    · refine ⟨rfl, fun f hf => ?_⟩
      cases hf

theorem nextChunkEvents_transferId (P : Platform) (env : FileEnv) (disk : Disk) (budget : Nat)
    (x : OutboundTransfer) :
    (nextChunkEvents P env disk budget x).1.transferId = x.transferId ∧
      ∀ f ∈ fileFrames (nextChunkEvents P env disk budget x).2.1, frameId f = x.transferId := by
  obtain ⟨hid, hframes⟩ := emitChunks_transferId P env disk budget x
  unfold nextChunkEvents
  generalize emitChunks P env disk budget x = r at hid hframes
  obtain ⟨x', evs, read⟩ := r
  simp only at hid hframes
  cases read with
  | false => exact ⟨hid, hframes⟩
  | true =>
    simp only
    split
    · refine ⟨hid, fun f hf => ?_⟩
      rw [fileFrames_append] at hf
      rcases List.mem_append.mp hf with hchunk | htail
      · exact hframes f hchunk
      · obtain rfl : f = .complete x'.transferId x'.toPeer := List.mem_singleton.mp htail
        exact hid
    · exact ⟨hid, hframes⟩

theorem touches_streamSlice {t : String} {y : OutboundTransfer} (hy : m.outbound[t]? = some y)
    (hid : y.transferId = t) {z : OutboundTransfer} (hz : z.transferId = t) :
    Touches t m (streamSlice P env disk net m t z).1 := by
  obtain ⟨hid', hframes⟩ := nextChunkEvents_transferId P env disk roomFileChunkBudget z
  refine (Touches.set hy (hid'.trans (hz.trans hid.symm))).trans ?_
  refine touches_dispatchBatch fun f hf => ?_
  rw [roomMessages_nextChunkEvents] at hf
  exact (hframes f hf).trans hz

theorem pumpRoomFileStream_eq {t : String} {y : OutboundTransfer} (hy : m.outbound[t]? = some y)
    (hstate : y.state = .transferring) :
    pumpRoomFileStream P env disk net m t = streamSlice P env disk net m t y := by
  simp only [pumpRoomFileStream, FileTransferManager.pumpStream, hy, hstate, ne_eq,
    not_true_eq_false, if_false, streamSlice]
  split
  · next hempty =>
    rw [List.isEmpty_iff.mp hempty]
    rfl
  · rfl

theorem pumpRoomFileStream_idle {t : String}
    (hidle : ∀ y, m.outbound[t]? = some y → y.state ≠ .transferring) :
    pumpRoomFileStream P env disk net m t = (m, []) := by
  simp only [pumpRoomFileStream, FileTransferManager.pumpStream]
  cases hy : m.outbound[t]? with
  | none => rfl
  | some y => simp only [ne_eq, hidle y hy, not_false_eq_true, if_true, List.isEmpty_nil]

end Stream

/-! ## Requests and turns of the pump -/

/-- The files of a room: their manager, what it sent, and the transfer and the
requester of every request it accepted. -/
structure RoomFileLog where
  manager : FileTransferManager
  sent : List FileMessage
  accepted : List (String × String)

inductive RoomFileEvent where
  | request (env : FileEnv) (net : Transport) (msg : FileSignal)
  /-- A turn of the pump. -/
  | pump (env : FileEnv) (net : Transport)

namespace RoomFileLog

def start (m : FileTransferManager) : RoomFileLog := ⟨m, [], []⟩

def step (P : Platform) (disk : Disk) (me : String) (L : RoomFileLog) : RoomFileEvent → RoomFileLog
  | .request env net msg =>
    match handleSfuFileRequest P env disk net me L.manager msg with
    | .streaming transferId requester m sent =>
      ⟨m, L.sent ++ sent, L.accepted ++ [(transferId, requester)]⟩
    | _ => L
  | .pump env net =>
    let out := pumpRoomFileStreams P env disk net L.manager
    ⟨out.1, L.sent ++ out.2, L.accepted⟩

/-- A stream of the transfer is active. -/
def Active (L : RoomFileLog) (tid : String) : Prop :=
  ∃ x, L.manager.outbound[tid]? = some x ∧ x.state = .transferring

end RoomFileLog

/-- Every chunk of the payload and COMPLETE were sent to the member. -/
def Served (P : Platform) (payload : Bytes) (tid toPeer : String) (sent : List FileMessage) :
    Prop :=
  SentBetween P payload tid toPeer 0 (chunkCount chunkSize payload.length) sent ∧
    .complete tid toPeer ∈ sent

/-- Every record is kept under its id. -/
def FileTransferManager.Keyed (m : FileTransferManager) : Prop :=
  ∀ (t : String) (x : OutboundTransfer), m.outbound[t]? = some x → x.transferId = t

/-- The invariant of a run: whoever was accepted was served, or is being
served. -/
structure ServingInv (P : Platform) (disk : Disk) (payload : Bytes) (tid : String)
    (L : RoomFileLog) : Prop where
  keyed : L.manager.Keyed
  record : ∃ x, L.manager.outbound[tid]? = some x ∧ StreamOf disk payload tid x ∧
    ∀ p, (tid, p) ∈ L.accepted → Served P payload tid p L.sent ∨
      (x.state = .transferring ∧ x.toPeer = p ∧
        SentBetween P payload tid p 0 x.chunksSent L.sent)

section Run

variable {P : Platform} {env : FileEnv} {disk : Disk} {net : Transport} {payload : Bytes}
  {tid me : String} {L : RoomFileLog} {m : FileTransferManager}

theorem SentBetween.mono {toPeer : String} {start stop : Nat} {sent sent' : List FileMessage}
    (h : SentBetween P payload tid toPeer start stop sent) (hsub : ∀ f ∈ sent, f ∈ sent') :
    SentBetween P payload tid toPeer start stop sent' :=
  fun i hi hlt => hsub _ (h i hi hlt)

theorem Served.mono {toPeer : String} {sent : List FileMessage}
    (h : Served P payload tid toPeer sent) (sent' : List FileMessage) :
    Served P payload tid toPeer (sent ++ sent') :=
  ⟨h.1.mono fun _ hf => List.mem_append_left _ hf, List.mem_append_left _ h.2⟩

theorem keyed_of_touches {t : String} {m m' : FileTransferManager} (h : Touches t m m')
    (hkeyed : m.Keyed) : m'.Keyed := by
  intro u x hx
  by_cases hu : u = t
  · subst hu
    obtain ⟨y, hy, hid⟩ := h.same x hx
    exact hid.trans (hkeyed u y hy)
  · exact hkeyed u x (h.elsewhere u hu ▸ hx)

/-- The surroundings of a step leave the stream alone: its source can be read,
and if a frame does not go out, the stream was not stalled for so long that it is
given up. -/
def Lasting (tid : String) (m : FileTransferManager) (env : FileEnv) (net : Transport) : Prop :=
  (∀ i, env.canRead i = true) ∧ ∀ x, m.outbound[tid]? = some x → Clears env x ∨ net.Works

theorem ServingInv.slice (h : ServingInv P disk payload tid L) (hne : tid ≠ "")
    {x : OutboundTransfer} (hx : StreamOf disk payload tid x) (hstate : x.state = .transferring)
    (hclears : Clears env x ∨ net.Works) (hread : ∀ i, env.canRead i = true) {accepted : List (String × String)}
    (hserved : ∀ p, (tid, p) ∈ accepted → Served P payload tid p L.sent ∨
      (x.toPeer = p ∧ SentBetween P payload tid p 0 x.chunksSent L.sent)) :
    ServingInv P disk payload tid ⟨(streamSlice P env disk net L.manager tid x).1,
        L.sent ++ (streamSlice P env disk net L.manager tid x).2, accepted⟩ ∧
      Lasting tid (streamSlice P env disk net L.manager tid x).1 env net := by
  obtain ⟨y, hy, hstream, -⟩ := h.record
  obtain ⟨x', hslice, -⟩ := streamSlice_served (P := P) net L.manager hne hx hstate hclears
    hread
  have htouches : Touches tid L.manager (streamSlice P env disk net L.manager tid x).1 :=
    touches_streamSlice hy hstream.transferId hx.transferId
  refine ⟨⟨keyed_of_touches htouches h.keyed, x', hslice.record, hslice.stream, ?_⟩,
    hread, fun z hz => ?_⟩
  · intro p hp
    rcases hserved p hp with hdone | ⟨rfl, hsofar⟩
    · exact .inl (hdone.mono _)
    · have hchunks : SentBetween P payload tid x.toPeer 0 x'.chunksSent
          (L.sent ++ (streamSlice P env disk net L.manager tid x).2) := by
        intro i hi hlt
        by_cases hold : i < x.chunksSent
        · exact List.mem_append_left _ (hsofar i hi hold)
        · exact List.mem_append_right _ (hslice.chunks i (not_lt.mp hold) hlt)
      rcases hslice.state with htransferring | hcomplete
      · exact .inr ⟨htransferring, hslice.toPeer, hchunks⟩
      · obtain ⟨hcount, hframe⟩ := hslice.complete hcomplete
        rw [hcount, hslice.stream.total] at hchunks
        exact .inl ⟨hchunks, List.mem_append_right _ hframe⟩
  · rw [hslice.record] at hz
    cases hz
    exact hclears.imp_left hslice.clears

theorem ServingInv.elsewhere (h : ServingInv P disk payload tid L) {t : String} (ht : t ≠ tid)
    {m : FileTransferManager} (htouches : Touches t L.manager m) {sent : List FileMessage}
    {accepted : List (String × String)}
    (haccepted : ∀ p, (tid, p) ∈ accepted → (tid, p) ∈ L.accepted) :
    ServingInv P disk payload tid ⟨m, L.sent ++ sent, accepted⟩ := by
  obtain ⟨x, hx, hstream, hserved⟩ := h.record
  refine ⟨keyed_of_touches htouches h.keyed, x,
    (htouches.elsewhere tid ht.symm).trans hx, hstream, fun p hp => ?_⟩
  rcases hserved p (haccepted p hp) with hdone | ⟨hstate, hpeer, hsofar⟩
  · exact .inl (hdone.mono _)
  · exact .inr ⟨hstate, hpeer, hsofar.mono fun _ hf => List.mem_append_left _ hf⟩

theorem ServingInv.pumpStream (h : ServingInv P disk payload tid L) (net : Transport)
    (hne : tid ≠ "") (hlasting : Lasting tid L.manager env net) (t : String) :
    ServingInv P disk payload tid ⟨(pumpRoomFileStream P env disk net L.manager t).1,
        L.sent ++ (pumpRoomFileStream P env disk net L.manager t).2, L.accepted⟩ ∧
      Lasting tid (pumpRoomFileStream P env disk net L.manager t).1 env net := by
  by_cases hactive : ∃ y, L.manager.outbound[t]? = some y ∧ y.state = .transferring
  · obtain ⟨y, hy, hstate⟩ := hactive
    rw [pumpRoomFileStream_eq hy hstate]
    by_cases ht : t = tid
    · subst ht
      obtain ⟨x, hx, hstream, hserved⟩ := h.record
      obtain rfl : x = y := Option.some.inj (hx.symm.trans hy)
      refine h.slice hne hstream hstate (hlasting.2 x hx) hlasting.1 fun p hp => ?_
      rcases hserved p hp with hdone | ⟨-, hpeer, hsofar⟩
      · exact .inl hdone
      · exact .inr ⟨hpeer, hsofar⟩
    · have hid := h.keyed t y hy
      have htouches : Touches t L.manager (streamSlice P env disk net L.manager t y).1 :=
        touches_streamSlice hy hid hid
      refine ⟨h.elsewhere ht htouches fun p hp => hp, hlasting.1, fun x hx => ?_⟩
      exact hlasting.2 x (htouches.elsewhere tid (Ne.symm ht) ▸ hx)
  · have hidle : ∀ y, L.manager.outbound[t]? = some y → y.state ≠ .transferring :=
      fun y hy hstate => hactive ⟨y, hy, hstate⟩
    rw [pumpRoomFileStream_idle hidle, List.append_nil]
    exact ⟨h, hlasting⟩

theorem ServingInv.pump (h : ServingInv P disk payload tid L) (hne : tid ≠ "")
    (hlasting : Lasting tid L.manager env net) :
    ServingInv P disk payload tid (L.step P disk me (.pump env net)) := by
  simp only [RoomFileLog.step, pumpRoomFileStreams]
  -- the invariant goes through the streams one by one, with what was sent before
  have hfold : ∀ (ts : List String) (out : FileTransferManager × List FileMessage),
      ServingInv P disk payload tid ⟨out.1, L.sent ++ out.2, L.accepted⟩ →
      Lasting tid out.1 env net →
      ServingInv P disk payload tid
        ⟨(ts.foldl (fun out t => ((pumpRoomFileStream P env disk net out.1 t).1,
            out.2 ++ (pumpRoomFileStream P env disk net out.1 t).2)) out).1,
          L.sent ++ (ts.foldl (fun out t => ((pumpRoomFileStream P env disk net out.1 t).1,
            out.2 ++ (pumpRoomFileStream P env disk net out.1 t).2)) out).2, L.accepted⟩ := by
    intro ts
    induction ts with
    | nil => exact fun out hout _ => hout
    | cons t ts ih =>
      intro out hout hlast
      obtain ⟨hnext, hlast'⟩ := hout.pumpStream net hne hlast t
      rw [List.append_assoc] at hnext
      exact ih _ hnext hlast'
  refine hfold _ (L.manager, []) ?_ hlasting
  rw [List.append_nil]
  exact h

/-- The record a request starts the stream from. -/
def restarted (x : OutboundTransfer) (requester : String) : OutboundTransfer :=
  { x with chunksSent := 0, toPeer := requester, state := .transferring, finishedAt := none }

/-- The request is for another member. -/
def ForSomebodyElse (me : String) (msg : FileSignal) : Prop :=
  (msg.payload.str? "to").getD "" ≠ "" ∧ !samePad ((msg.payload.str? "to").getD "") me

theorem handleSfuFileRequest_cases (P : Platform) (env : FileEnv) (disk : Disk) (net : Transport)
    (me : String) (m : FileTransferManager) (msg : FileSignal) :
    (∃ t x, msg.payload.str? "transfer_id" = some t ∧ ¬ ForSomebodyElse me msg ∧
      m.outbound[t]? = some x ∧
      handleSfuFileRequest P env disk net me m msg =
        .streaming t msg.sender.text
          (streamSlice P env disk net m t (restarted x msg.sender.text)).1
          (streamSlice P env disk net m t (restarted x msg.sender.text)).2) ∨
      ∀ t requester m' sent, handleSfuFileRequest P env disk net me m msg ≠
        .streaming t requester m' sent := by
  cases hid : msg.payload.str? "transfer_id" with
  | none =>
    right
    intro t requester m' sent
    simp [handleSfuFileRequest, hid]
  | some t =>
    simp only [handleSfuFileRequest, hid, Option.getD_some]
    split
    · exact .inr fun _ _ _ _ h => by cases h
    · split
      · exact .inr fun _ _ _ _ h => by cases h
      · next hours =>
        split
        · exact .inr fun _ _ _ _ h => by cases h
        · next hhas =>
          cases hx : m.outbound[t]? with
          | none =>
            rw [FileTransferManager.hasOutbound, ExtTreeMap.contains_eq_isSome_getElem?, hx] at hhas
            exact absurd rfl hhas
          | some x =>
            refine .inl ⟨t, x, rfl, hours, hx, ?_⟩
            simp only [FileTransferManager.startStreamFor, hx, streamSlice, restarted]

/-- Nobody asks us for the file while another member is being served, and the
stream is not given up. -/
def RoomFileLog.Undisturbed (L : RoomFileLog) (me tid : String) : RoomFileEvent → Prop
  | .request env net msg => Lasting tid L.manager env net ∧
    (msg.payload.str? "transfer_id" = some tid → ¬ ForSomebodyElse me msg →
      ∀ x, L.manager.outbound[tid]? = some x →
        x.state = .transferring → x.toPeer = msg.sender.text)
  | .pump env net => Lasting tid L.manager env net

theorem ServingInv.request (h : ServingInv P disk payload tid L) (hne : tid ≠ "")
    {msg : FileSignal} (hlasting : Lasting tid L.manager env net)
    (halone : msg.payload.str? "transfer_id" = some tid → ¬ ForSomebodyElse me msg →
      ∀ x, L.manager.outbound[tid]? = some x →
        x.state = .transferring → x.toPeer = msg.sender.text) :
    ServingInv P disk payload tid (L.step P disk me (.request env net msg)) := by
  rcases handleSfuFileRequest_cases P env disk net me L.manager msg with
    ⟨t, y, hid, hours, hy, hstreaming⟩ | hnot
  · simp only [RoomFileLog.step, hstreaming]
    have hkey := h.keyed t y hy
    by_cases ht : t = tid
    · subst ht
      obtain ⟨x, hx, hstream, hserved⟩ := h.record
      obtain rfl : x = y := Option.some.inj (hx.symm.trans hy)
      refine (h.slice hne (x := restarted x msg.sender.text) ⟨hstream.transferId, hstream.source,
        hstream.total, Nat.zero_le _⟩ rfl (hlasting.2 x hx) hlasting.1 fun p hp => ?_).1
      rcases List.mem_append.mp hp with hold | hnew
      · rcases hserved p hold with hdone | ⟨hstate, hpeer, -⟩
        · exact .inl hdone
        · refine .inr ⟨(halone hid hours x hx hstate).symm.trans hpeer, fun i _ hi => ?_⟩
          exact absurd hi (Nat.not_lt_zero i)
      · cases List.mem_singleton.mp hnew
        exact .inr ⟨rfl, fun i _ hi => absurd hi (Nat.not_lt_zero i)⟩
    · refine h.elsewhere ht (touches_streamSlice hy hkey (z := restarted y msg.sender.text) hkey)
        fun p hp => ?_
      rcases List.mem_append.mp hp with hold | hnew
      · exact hold
      · rw [List.mem_singleton, Prod.mk.injEq] at hnew
        exact absurd hnew.1.symm ht
  · have hsame : L.step P disk me (.request env net msg) = L := by
      simp only [RoomFileLog.step]
    rw [hsame]
    exact h

theorem ServingInv.step (h : ServingInv P disk payload tid L) (hne : tid ≠ "") {e : RoomFileEvent}
    (he : L.Undisturbed me tid e) : ServingInv P disk payload tid (L.step P disk me e) := by
  cases e with
  | request env net msg => exact h.request hne he.1 he.2
  | pump env net => exact h.pump hne he

/-! ## Streams end -/

/-- A turn of the pump at which every frame goes out and the stream is not
paused. -/
def RoomFileEvent.Clear (e : RoomFileEvent) (m : FileTransferManager) (tid : String) : Prop :=
  ∃ env net, e = .pump env net ∧ net.Works ∧ (∀ i, env.canRead i = true) ∧ 0 ≤ env.now ∧
    ∀ x, m.outbound[tid]? = some x → x.state = .transferring → x.retryAfter ≤ env.now

/-- The stream is past a chunk and not paused, or it is over. -/
def Beyond (tid : String) (c : Nat) (m : FileTransferManager) : Prop :=
  ∃ x, m.outbound[tid]? = some x ∧
    (x.state = .transferring → c < x.chunksSent ∧ x.retryAfter = 0)

theorem beyond_pumpStream (h : ServingInv P disk payload tid L) (hne : tid ≠ "")
    (hread : ∀ i, env.canRead i = true) (hworks : net.Works) {c : Nat} (t : String)
    (hfrom : Beyond tid c L.manager ∨ (t = tid ∧
      ∀ x, L.manager.outbound[tid]? = some x → x.state = .transferring → c ≤ x.chunksSent)) :
    Beyond tid c (pumpRoomFileStream P env disk net L.manager t).1 := by
  obtain ⟨x, hx, hstream, -⟩ := h.record
  have hle : t = tid → x.state = .transferring → c ≤ x.chunksSent := by
    intro ht hstate
    rcases hfrom with ⟨y, hy, hbeyond⟩ | ⟨-, hle⟩
    · obtain rfl : x = y := Option.some.inj (hx.symm.trans hy)
      exact (hbeyond hstate).1.le
    · exact hle x hx hstate
  by_cases hactive : ∃ y, L.manager.outbound[t]? = some y ∧ y.state = .transferring
  · obtain ⟨y, hy, hstate⟩ := hactive
    rw [pumpRoomFileStream_eq hy hstate]
    by_cases ht : t = tid
    · subst ht
      obtain rfl : x = y := Option.some.inj (hx.symm.trans hy)
      obtain ⟨x', hslice, hgood⟩ := streamSlice_served (P := P) net L.manager hne hstream hstate
        (.inr hworks) hread
      refine ⟨x', hslice.record, fun hstate' => ?_⟩
      rcases hgood hworks with hcomplete | ⟨hlt, -, hretry⟩
      · rw [hcomplete] at hstate'
        cases hstate'
      · exact ⟨lt_of_le_of_lt (hle rfl hstate) hlt, hretry⟩
    · obtain ⟨z, hz, hbeyond⟩ := hfrom.resolve_right fun heq => ht heq.1
      have hid := h.keyed t y hy
      have htouches : Touches t L.manager (streamSlice P env disk net L.manager t y).1 :=
        touches_streamSlice hy hid hid
      exact ⟨z, (htouches.elsewhere tid (Ne.symm ht)).trans hz, hbeyond⟩
  · have hidle : ∀ y, L.manager.outbound[t]? = some y → y.state ≠ .transferring :=
      fun y hy hstate => hactive ⟨y, hy, hstate⟩
    rw [pumpRoomFileStream_idle hidle]
    rcases hfrom with hbeyond | ⟨rfl, -⟩
    · exact hbeyond
    · exact ⟨x, hx, fun hstate => absurd hstate (hidle x hx)⟩

theorem ServingInv.beyond (h : ServingInv P disk payload tid L) (hne : tid ≠ "")
    {e : RoomFileEvent} (he : e.Clear L.manager tid) {c : Nat}
    (hc : ∀ x, L.manager.outbound[tid]? = some x → x.state = .transferring → c ≤ x.chunksSent) :
    ServingInv P disk payload tid (L.step P disk me e) ∧
      Beyond tid c (L.step P disk me e).manager := by
  obtain ⟨env, net, rfl, hworks, hread, -, hretry⟩ := he
  refine ⟨h.pump hne ⟨hread, fun _ _ => .inr hworks⟩, ?_⟩
  simp only [RoomFileLog.step, pumpRoomFileStreams]
  -- a stream before the one in question leaves its record alone, so what the turn
  -- starts from is still there when its own slice comes
  have hfold : ∀ (ts : List String) (out : FileTransferManager × List FileMessage),
      ServingInv P disk payload tid ⟨out.1, L.sent ++ out.2, L.accepted⟩ →
      (Beyond tid c out.1 ∨ (tid ∈ ts ∧ ∀ x, out.1.outbound[tid]? = some x →
        x.state = .transferring → c ≤ x.chunksSent)) →
      Beyond tid c (ts.foldl (fun out t => ((pumpRoomFileStream P env disk net out.1 t).1,
        out.2 ++ (pumpRoomFileStream P env disk net out.1 t).2)) out).1 := by
    intro ts
    induction ts with
    | nil =>
      rintro out - (hbeyond | ⟨hmem, -⟩)
      · exact hbeyond
      · cases hmem
    | cons t ts ih =>
      intro out hout hfrom
      have hlasting : Lasting tid out.1 env net := ⟨hread, fun _ _ => .inr hworks⟩
      obtain ⟨hnext, -⟩ := hout.pumpStream net hne hlasting t
      rw [List.append_assoc] at hnext
      refine ih _ hnext ?_
      by_cases ht : t = tid
      · exact .inl (beyond_pumpStream hout hne hread hworks t (hfrom.imp_right fun hr => ⟨ht, hr.2⟩))
      · rcases hfrom with hbeyond | ⟨hmem, hle⟩
        · exact .inl (beyond_pumpStream hout hne hread hworks t (.inl hbeyond))
        · refine .inr ⟨(List.mem_cons.mp hmem).resolve_left (Ne.symm ht), fun x hx => hle x ?_⟩
          by_cases hactive : ∃ y, out.1.outbound[t]? = some y ∧ y.state = .transferring
          · obtain ⟨y, hy, hstate⟩ := hactive
            have hid := hout.keyed t y hy
            simp only [pumpRoomFileStream_eq hy hstate] at hx
            exact ((touches_streamSlice hy hid hid).elsewhere tid (Ne.symm ht)) ▸ hx
          · have hidle : ∀ y, out.1.outbound[t]? = some y → y.state ≠ .transferring :=
              fun y hy hstate => hactive ⟨y, hy, hstate⟩
            simp only [pumpRoomFileStream_idle hidle] at hx
            exact hx
  refine hfold _ (L.manager, []) (by rw [List.append_nil]; exact h) ?_
  obtain ⟨x, hx, -⟩ := h.record
  by_cases hstate : x.state = .transferring
  · refine .inr ⟨?_, hc⟩
    simp only [FileTransferManager.activeOutboundStreams, List.mem_map, List.mem_filter]
    refine ⟨(tid, x), ⟨ExtTreeMap.mem_toList_iff_getElem?_eq_some.mpr hx, ?_⟩, rfl⟩
    simp only [hstate, beq_self_eq_true, Bool.true_and, decide_eq_true_eq]
    exact hretry x hx hstate
  · exact .inl ⟨x, hx, fun hactive => absurd hactive hstate⟩

theorem ServingInv.ends (h : ServingInv P disk payload tid L) (hne : tid ≠ "")
    {turns : List RoomFileEvent} (hturns : ∀ e ∈ turns, e.Clear L.manager tid)
    (hmany : ∀ x, L.manager.outbound[tid]? = some x → x.state = .transferring →
      x.totalChunks < x.chunksSent + turns.length) :
    ¬ (run (RoomFileLog.step P disk me) L turns).Active tid := by
  induction turns generalizing L with
  | nil =>
    rintro ⟨x, hx, hstate⟩
    obtain ⟨y, hy, hstream, -⟩ := h.record
    obtain rfl : x = y := Option.some.inj (hx.symm.trans hy)
    have hlt := hmany x hx hstate
    rw [List.length_nil, Nat.add_zero] at hlt
    exact absurd hstream.le (not_le.mpr hlt)
  | cons e turns ih =>
    obtain ⟨y, hy, hstream, -⟩ := h.record
    -- a stream that is over stays so: it counts as past its last chunk
    have hstart : ∃ c, (∀ x, L.manager.outbound[tid]? = some x → x.state = .transferring →
        c ≤ x.chunksSent) ∧ y.totalChunks < c + (turns.length + 1) := by
      by_cases hactive : y.state = .transferring
      · refine ⟨y.chunksSent, fun x hx _ => ?_, hmany y hy hactive⟩
        rw [Option.some.inj (hx.symm.trans hy)]
      · refine ⟨y.totalChunks, fun x hx hstate => ?_, by omega⟩
        rw [Option.some.inj (hx.symm.trans hy)] at hstate
        exact absurd hstate hactive
    obtain ⟨c, hc, hfew⟩ := hstart
    obtain ⟨hnext, z, hz, hbeyond⟩ := h.beyond hne (hturns e List.mem_cons_self) hc
    obtain ⟨z', hz', hstream', -⟩ := hnext.record
    obtain rfl : z = z' := Option.some.inj (hz.symm.trans hz')
    refine ih hnext (fun e' he' => ?_) fun x hx hstate => ?_
    · obtain ⟨env, net, rfl, hworks, hread, hnow, -⟩ := hturns e' (List.mem_cons_of_mem _ he')
      refine ⟨env, net, rfl, hworks, hread, hnow, fun x hx hstate => ?_⟩
      obtain rfl : x = z := Option.some.inj (hx.symm.trans hz)
      rw [(hbeyond hstate).2]
      exact hnow
    · obtain rfl : x = z := Option.some.inj (hx.symm.trans hz)
      have hlt := (hbeyond hstate).1
      rw [hstream'.total, ← hstream.total]
      omega

end Run

/-! ## Two members ask for one file -/

def hiShared : OutboundTransfer :=
  offerRecord hiEnv "room" "hi.txt" (.inline hiBytes)
    { transferId := "t"
      originalSha := hiPlatform.sha256Hex hiBytes
      originalSize := 2
      payloadLen := 2
      purpose := "room_file"
      compressed := false
      isDelta := false
      baseSha256 := "" } 1 .pending

def hiRoom : FileTransferManager := FileTransferManager.new.setOutbound "t" hiShared

def hiRequest (sender : PublicId) : FileSignal where
  sender := sender
  payload := .obj [("transfer_id", .str "t")]

/-- A transport that takes every frame, or none. -/
def allOrNone (up : Bool) : Transport where
  hasRealKey := true
  seals _ := true
  sends _ := up

/-- Alice asks while the transport is down, and Bob when it is up again. -/
def takenOver : List RoomFileEvent :=
  [.request hiEnv (allOrNone false) (hiRequest alice), .request hiEnv (allOrNone true) (hiRequest bob)]

/-- Alice asks while the transport is down, it comes up, and Bob asks when her
stream is over. -/
def oneByOne : List RoomFileEvent :=
  [.request hiEnv (allOrNone false) (hiRequest alice),
    .pump { hiEnv with now := 1 } (allOrNone true),
    .request { hiEnv with now := 2 } (allOrNone true) (hiRequest bob)]

theorem hiRoom_keyed : hiRoom.Keyed := by
  intro t x hx
  simp only [hiRoom, FileTransferManager.setOutbound, ExtTreeMap.getElem?_insert] at hx
  split at hx
  · next heq =>
    cases hx
    have hid : "t" = t := by simpa using heq
    exact hid
  · simp [FileTransferManager.new] at hx

theorem allOrNone_works : (allOrNone true).Works :=
  ⟨rfl, fun _ => rfl, fun _ => rfl⟩

theorem oneByOne_undisturbed : Along (RoomFileLog.step hiPlatform ∅ "me")
    (fun L e => L.Undisturbed "me" "t" e) (.start hiRoom) oneByOne := by
  have hfirst : hiRoom.outbound["t"]? = some hiShared := getElem?_setOutbound _ _ _
  have hlast : ((run (RoomFileLog.step hiPlatform ∅ "me") (.start hiRoom)
      (oneByOne.take 2)).manager.outbound["t"]?.map OutboundTransfer.state) = some .complete := by
    decide +kernel
  refine ⟨⟨⟨fun _ => rfl, fun x hx => .inl ?_⟩, fun _ _ x hx hactive => ?_⟩,
    ⟨fun _ => rfl, fun _ _ => .inr allOrNone_works⟩,
    ⟨⟨fun _ => rfl, fun _ _ => .inr allOrNone_works⟩, fun _ _ x hx hactive => ?_⟩, trivial⟩
  · rw [show (RoomFileLog.start hiRoom).manager = hiRoom from rfl, hfirst] at hx
    cases hx
    intro since hsince
    cases hsince
  · rw [show (RoomFileLog.start hiRoom).manager = hiRoom from rfl, hfirst] at hx
    cases hx
    cases hactive
  · rw [show (run (RoomFileLog.step hiPlatform ∅ "me") (.start hiRoom)
      (oneByOne.take 2)).manager.outbound["t"]? = some x from hx, Option.map_some, hactive] at hlast
    cases hlast

end ConquerD.Client
