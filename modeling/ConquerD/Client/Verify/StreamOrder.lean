import ConquerD.Client.Verify.FileStates

/-!
# A stream without holes

A chunk is counted when its frame is built, and the frames that do not go out are taken
back by their number. What did not go out is the end of its slice, so that the chunks
handed over are those from the first on, as many as are counted, each once and in order,
and COMPLETE follows the last of them only.
-/

namespace ConquerD.Client

open Lib.Run Wire

/-! ## Turns -/

/-- How a stream starts: a member asks, or the peer accepts. -/
inductive StreamStart where
  | requested (requester : String) (budget : Nat)
  | accepted

/-- What a batch of events goes through: a peer's dispatch or a room's. -/
inductive Carriage where
  | direct
  | room

/-- What surrounds a turn. -/
structure TurnContext where
  env : FileEnv
  disk : Disk
  net : Transport
  carriage : Carriage

structure PumpTurn where
  transferId : String
  budget : Nat
  context : TurnContext

section Turns

variable (P : Platform) (m : FileTransferManager) (t : String) (c : TurnContext)

/-- What the manager does at the start of a stream. -/
def StreamStart.begin : StreamStart → FileTransferManager × List TransferEvent
  | requested requester budget => m.startStreamFor P c.env c.disk t requester budget
  | accepted => m.onTransferAccepted P c.env c.disk t

def TurnContext.dispatch (evs : List TransferEvent) : FileTransferManager × List FileMessage :=
  match c.carriage with
  | .direct => dispatchTransferEvents c.env c.net m evs
  | .room => dispatchRoomTransferEvents P c.env c.net m evs

/-- The first turn of a stream, with what went out. -/
def StreamStart.turn (s : StreamStart) : FileTransferManager × List FileMessage :=
  c.dispatch P (s.begin P m t c).1 (s.begin P m t c).2

/-- One more turn, after what went out so far. -/
def PumpTurn.step (s : FileTransferManager × List FileMessage) (turn : PumpTurn) :
    FileTransferManager × List FileMessage :=
  let slice := s.1.pumpStream P turn.context.env turn.context.disk turn.transferId turn.budget
  let out := turn.context.dispatch P slice.1 slice.2.1
  (out.1, s.2 ++ out.2)

end Turns

/-- What was handed to a transport of a transfer. -/
inductive Handed where
  | chunk (index : Nat)
  | complete
  deriving DecidableEq

def FileMessage.handed? (t : String) : FileMessage → Option Handed
  | .chunk u i _ _ => if u = t then some (.chunk i) else none
  | .complete u _ => if u = t then some .complete else none
  | _ => none

def handedOf (t : String) (sent : List FileMessage) : List Handed :=
  sent.filterMap (·.handed? t)

theorem handedOf_append (t : String) (fs fs' : List FileMessage) :
    handedOf t (fs ++ fs') = handedOf t fs ++ handedOf t fs' :=
  List.filterMap_append

theorem frameId_of_handed {t : String} {f : FileMessage} {a : Handed} (h : f.handed? t = some a) :
    frameId f = t := by
  cases f with
  | chunk u i d p =>
    simp only [FileMessage.handed?] at h
    split at h
    · assumption
    · cases h
  | complete u p =>
    simp only [FileMessage.handed?] at h
    split at h
    · assumption
    · cases h
  | _ => cases h

theorem handedOf_eq_nil {t u : String} (hne : u ≠ t) {fs : List FileMessage}
    (hfs : ∀ f ∈ fs, frameId f = u) : handedOf t fs = [] := by
  refine List.filterMap_eq_nil_iff.mpr fun f hf => ?_
  cases hhanded : f.handed? t with
  | none => rfl
  | some a => exact absurd ((hfs f hf).symm.trans (frameId_of_handed hhanded)) hne

/-! ## The frames of a slice -/

/-- The chunks of a transfer from one number on. -/
def ChunksFrom (t : String) (start n : Nat) (fs : List FileMessage) : Prop :=
  fs.map (·.handed? t) = (List.range' start n).map fun i => some (.chunk i)

namespace ChunksFrom

variable {t : String} {start n k : Nat} {fs : List FileMessage}

theorem length (h : ChunksFrom t start n fs) : fs.length = n := by
  have hlen := congrArg List.length h
  rwa [List.length_map, List.length_map, List.length_range'] at hlen

theorem cons (h : ChunksFrom t (start + 1) n fs) (d p : String) :
    ChunksFrom t start (n + 1) (.chunk t start d p :: fs) := by
  unfold ChunksFrom at h ⊢
  rw [List.map_cons, h, List.range'_succ, List.map_cons]
  simp only [FileMessage.handed?, if_true]

theorem isChunk (h : ChunksFrom t start n fs) {f : FileMessage} (hf : f ∈ fs) :
    ∃ i d p, f = .chunk t i d p := by
  have hmem : f.handed? t ∈ fs.map (·.handed? t) := List.mem_map_of_mem hf
  rw [h] at hmem
  obtain ⟨i, -, hi⟩ := List.mem_map.mp hmem
  obtain rfl := frameId_of_handed hi.symm
  cases f with
  | chunk u j d p => exact ⟨j, d, p, rfl⟩
  | complete u p => simp [FileMessage.handed?, frameId] at hi
  | _ => cases hi

theorem take (h : ChunksFrom t start n fs) (hk : k ≤ n) : ChunksFrom t start k (fs.take k) := by
  unfold ChunksFrom at h ⊢
  rw [List.map_take, h, ← List.map_take, List.take_range'_of_length_ge hk]

theorem handedOf_eq (h : ChunksFrom t start n fs) :
    handedOf t fs = (List.range' start n).map .chunk := by
  have hsome : handedOf t fs = (fs.map (·.handed? t)).filterMap id := by
    rw [List.filterMap_map]
    rfl
  rw [hsome, h, List.filterMap_map]
  exact congrFun List.filterMap_eq_map _

end ChunksFrom

/-- Every chunk of the transfer can be read. -/
def Readable (env : FileEnv) (disk : Disk) (x : OutboundTransfer) : Prop :=
  ∀ i < x.totalChunks, (x.source.readChunk env disk i).isSome

section Slice

variable {P : Platform} {env : FileEnv} {disk : Disk} {x : OutboundTransfer}

theorem emitChunks_readable (hread : Readable env disk x) (budget : Nat) :
    (∃ fs, fileFrames (emitChunks P env disk budget x).2.1 = fs ∧
        ChunksFrom x.transferId x.chunksSent (min budget (x.totalChunks - x.chunksSent)) fs) ∧
      (emitChunks P env disk budget x).1 =
        { x with chunksSent := x.chunksSent + min budget (x.totalChunks - x.chunksSent) } ∧
      (emitChunks P env disk budget x).2.2 = true := by
  induction budget generalizing x with
  | zero =>
    rw [Nat.zero_min]
    exact ⟨⟨[], rfl, rfl⟩, rfl, rfl⟩
  | succ budget ih =>
    unfold emitChunks
    split
    · next hlt =>
      obtain ⟨c, hc⟩ := Option.isSome_iff_exists.mp (hread _ hlt)
      obtain ⟨⟨fs, hframes, hfs⟩, hx, htrue⟩ :=
        ih (x := { x with chunksSent := x.chunksSent + 1 }) hread
      have hcount : min (budget + 1) (x.totalChunks - x.chunksSent) =
          min budget (x.totalChunks - (x.chunksSent + 1)) + 1 := by omega
      have hprogress : fileFrames (if progressIsReportable (x.chunksSent + 1) x.totalChunks then
          [TransferEvent.progress x.transferId (((x.chunksSent + 1 : Nat) : Rat) / x.totalChunks)]
          else []) = [] := by
        split
        · rfl
        · rfl
      have hhead : ∀ evs, fileFrames (x.chunkEvent P c :: evs) =
          .chunk x.transferId x.chunksSent (P.encodeB64Std c) x.toPeer :: fileFrames evs :=
        fun _ => rfl
      simp only [hc, hhead, fileFrames_append, hprogress, List.cons_append, List.nil_append]
      refine ⟨⟨_, rfl, ?_⟩, ?_, htrue⟩
      · rw [hcount, hframes]
        exact hfs.cons _ _
      · rw [hx, hcount]
        simp only [Nat.add_assoc, Nat.add_comm 1]
    · next hge =>
      have hzero : min (budget + 1) (x.totalChunks - x.chunksSent) = 0 := by omega
      rw [hzero]
      exact ⟨⟨[], rfl, rfl⟩, rfl, rfl⟩

theorem nextChunkEvents_readable (hread : Readable env disk x) (budget : Nat) :
    ∃ n fs, fileFrames (nextChunkEvents P env disk budget x).2.1 =
        fs ++ tailOf (nextChunkEvents P env disk budget x).1 ∧
      ChunksFrom x.transferId x.chunksSent n fs ∧ n ≤ x.totalChunks - x.chunksSent ∧
      (nextChunkEvents P env disk budget x).1 = { x with chunksSent := x.chunksSent + n } := by
  obtain ⟨⟨fs, hframes, hfs⟩, hx, htrue⟩ := emitChunks_readable (P := P) hread budget
  refine ⟨min budget (x.totalChunks - x.chunksSent), fs, ?_, hfs, Nat.min_le_right _ _, ?_⟩
  · unfold nextChunkEvents
    generalize emitChunks P env disk budget x = r at hframes htrue
    obtain ⟨x', evs, read⟩ := r
    cases htrue
    simp only at hframes ⊢
    split
    · next hdone =>
      rw [fileFrames_append, hframes]
      simp only [tailOf, if_pos hdone]
      rfl
    · next hmore => simp only [hframes, tailOf, if_neg hmore, List.append_nil]
  · unfold nextChunkEvents
    generalize emitChunks P env disk budget x = r at hx htrue
    obtain ⟨x', evs, read⟩ := r
    cases htrue
    simp only at hx ⊢
    split
    · exact hx
    · exact hx

end Slice

/-! ## A slice handed over -/

section Dispatch

variable {P : Platform} {m : FileTransferManager} {t : String} {c : TurnContext}
  {x : OutboundTransfer}

/-- Whether a frame is ready to go out. -/
def TurnContext.ready (P : Platform) (c : TurnContext) : FileMessage → Bool :=
  match c.carriage with
  | .direct => fun _ => true
  | .room => c.net.chunkReady P

theorem dispatch_eq {evs : List TransferEvent}
    (h : messagesOf evs = fileFrames evs) :
    c.dispatch P m evs = dispatchBatch c.env (c.ready P) c.net.sends m (fileFrames evs) := by
  unfold TurnContext.dispatch TurnContext.ready
  cases c.carriage with
  | direct =>
    simp only [dispatchTransferEvents]
    rw [h]
  | room =>
    simp only [dispatchRoomTransferEvents]
    rw [h, filter_isRoomMessage_fileFrames]

theorem sent_dispatch (env : FileEnv) (ready sends : FileMessage → Bool) (b : Batch)
    (f : FileMessage) :
    (b.dispatch env ready sends f).sent = b.sent ∨
      (b.dispatch env ready sends f).sent = b.sent ++ [f] := by
  have hmiss : ∀ u isChunk, (b.miss u isChunk).sent = b.sent := by
    intro u isChunk
    unfold Batch.miss
    split
    · rfl
    · rfl
  unfold Batch.dispatch
  split
  · split
    · exact .inl (hmiss _ _)
    · split
      · exact .inr rfl
      · exact .inl (hmiss _ _)
  · split
    · exact .inl (hmiss _ _)
    · split
      · exact .inr rfl
      · exact .inl (hmiss _ _)
  · split
    · exact .inr rfl
    · exact .inl rfl

theorem mem_of_mem_sent {env : FileEnv} {ready sends : FileMessage → Bool} {fs : List FileMessage}
    {f : FileMessage} (hf : f ∈ (dispatchBatch env ready sends m fs).2) : f ∈ fs := by
  have hsent : ∀ b : Batch, f ∈ (fs.foldl (Batch.dispatch env ready sends) b).sent →
      f ∈ b.sent ∨ f ∈ fs := by
    clear hf
    induction fs with
    | nil => exact fun b hf => .inl hf
    | cons g fs ih =>
      intro b hf
      rcases ih (b.dispatch env ready sends g) hf with hnow | hlater
      · rcases sent_dispatch env ready sends b g with hsame | hmore
        · exact .inl (hsame ▸ hnow)
        · rw [hmore] at hnow
          rcases List.mem_append.mp hnow with hold | hnew
          · exact .inl hold
          · exact .inr (List.mem_singleton.mp hnew ▸ List.mem_cons_self)
      · exact .inr (List.mem_cons_of_mem _ hlater)
  rcases hsent (.new m) hf with hnone | hmem
  · cases hnone
  · exact hmem

/-- The record of a stream and what was handed over of it. -/
structure InOrder (t : String) (x : OutboundTransfer) (sent : List FileMessage) : Prop where
  handed : handedOf t sent = (List.range x.chunksSent).map .chunk ++
    (if x.state = .complete then [.complete] else [])
  complete : x.state = .complete → x.chunksSent = x.totalChunks

/-- A slice on its way out, through any failures of the transport: what goes out
follows on what went out before. -/
theorem dispatch_inOrder (hne : t ≠ "") (hid : x.transferId = t) (hstate : x.state = .transferring)
    (hle : x.chunksSent ≤ x.totalChunks) (hread : Readable c.env c.disk x) (budget : Nat)
    {evs : List TransferEvent}
    (hmessages : messagesOf evs = fileFrames evs)
    (hframes : fileFrames evs = fileFrames (nextChunkEvents P c.env c.disk budget x).2.1)
    {sent : List FileMessage} (hsent : InOrder t x sent) :
    ∃ x', (c.dispatch P (m.setOutbound t (nextChunkEvents P c.env c.disk budget x).1)
          evs).1.outbound[t]? = some x' ∧
      SameStream x x' ∧ x'.chunksSent ≤ x'.totalChunks ∧
      InOrder t x' (sent ++ (c.dispatch P
        (m.setOutbound t (nextChunkEvents P c.env c.disk budget x).1) evs).2) := by
  obtain ⟨n, fs, hslice, hfs, hn, hx⟩ := nextChunkEvents_readable (P := P) hread budget
  rw [dispatch_eq hmessages, hframes, hslice, hx]
  rw [hid] at hfs
  have htail : tailOf { x with chunksSent := x.chunksSent + n } = [] ∨
      ∃ p, tailOf { x with chunksSent := x.chunksSent + n } = [.complete t p] := by
    unfold tailOf
    split
    · exact .inr ⟨x.toPeer, by rw [← hid]⟩
    · exact .inl rfl
  obtain ⟨k, x', hout, -⟩ := dispatchBatch_out c.env (c.ready P) c.net.sends hne
    (getElem?_setOutbound m t { x with chunksSent := x.chunksSent + n }) hstate
    (fun f hf => hfs.isChunk hf) htail
  have hk := hout.le
  have hcount := hout.chunksSent
  rw [hfs.length] at hk hcount
  have hcursor : x'.chunksSent = x.chunksSent + k := by
    simp only at hcount
    omega
  have hbefore : handedOf t sent = (List.range x.chunksSent).map .chunk := by
    rw [hsent.handed, hstate]
    exact List.append_nil _
  have hrange : (List.range x.chunksSent).map Handed.chunk ++
      (List.range' x.chunksSent k).map .chunk = (List.range x'.chunksSent).map .chunk := by
    rw [hcursor, List.range_eq_range', List.range_eq_range', ← List.map_append]
    congr 1
    have happend : List.range' 0 x.chunksSent 1 ++ List.range' (0 + 1 * x.chunksSent) k 1 = _ :=
      List.range'_append
    rwa [Nat.one_mul, Nat.zero_add] at happend
  have htotal : x'.totalChunks = x.totalChunks := hout.same.totalChunks
  refine ⟨x', hout.record, ⟨hout.same.transferId, hout.same.source, htotal, hout.same.toPeer⟩,
    by omega, ?_, ?_⟩
  · rw [handedOf_append, hbefore]
    rcases hout.outcome with ⟨hall, hcomplete, hwent, hdone⟩ | ⟨hwent, hgoes⟩
    · obtain ⟨p, hp⟩ := htail.resolve_left hcomplete
      rw [hwent, hp, handedOf_append, hfs.handedOf_eq, ← List.append_assoc, if_pos hdone]
      rw [hfs.length] at hall
      rw [← hall, hrange]
      simp [handedOf, FileMessage.handed?]
    · have hnot : x'.state ≠ .complete := by
        rcases hgoes with hgoes | hfailed
        · rw [hgoes]
          nofun
        · rw [hfailed]
          nofun
      rw [hwent, (hfs.take hk).handedOf_eq, hrange, if_neg hnot, List.append_nil]
  · intro hdone
    rcases hout.outcome with ⟨hall, hcomplete, -, -⟩ | ⟨-, hgoes | hfailed⟩
    · have hend : x.chunksSent + n ≥ x.totalChunks := by
        by_contra hmore
        exact hcomplete (if_neg hmore)
      rw [hfs.length] at hall
      omega
    · rw [hgoes] at hdone
      cases hdone
    · rw [hfailed] at hdone
      cases hdone

end Dispatch

/-! ## Offers that wait -/

/-- Nothing was sent of an offer that waits for its answer. -/
def OutboundTransfer.Unsent (x : OutboundTransfer) : Prop :=
  x.state = .pending → x.chunksSent = 0

def FileTransferManager.Unsent (m : FileTransferManager) : Prop :=
  ∀ (t : String) (x : OutboundTransfer), m.outbound[t]? = some x → x.Unsent

section Offers

variable {P : Platform} {Z : Zlib} {env : FileEnv} {disk : Disk} {m : FileTransferManager}
  {t : String} {x : OutboundTransfer}

theorem OutboundTransfer.Unsent.answered (h : x.state ≠ .pending) : x.Unsent :=
  fun hpending => absurd hpending h

theorem OutboundTransfer.Unsent.slice (budget : Nat) (h : x.state ≠ .pending) :
    (nextChunkEvents P env disk budget x).1.Unsent :=
  .answered (nextChunkEvents_started P env disk budget h)

theorem OutboundTransfer.Unsent.pushed (h : x.state ≠ .pending) :
    (buildChunkEvents P env disk x).1.Unsent := by
  have hsent := @OutboundTransfer.Unsent.slice P env disk x x.totalChunks h
  unfold buildChunkEvents
  generalize nextChunkEvents P env disk x.totalChunks x = r at hsent
  exact hsent

namespace FileTransferManager.Unsent

theorem same {m' : FileTransferManager} (h : m.Unsent) (hsame : m'.outbound = m.outbound) :
    m'.Unsent :=
  fun u y hy => h u y (hsame ▸ hy)

theorem set (h : m.Unsent) (hx : x.Unsent) : (m.setOutbound t x).Unsent := by
  intro u y hy
  by_cases hu : u = t
  · subst hu
    rw [getElem?_setOutbound] at hy
    cases hy
    exact hx
  · rw [getElem?_setOutbound_of_ne m x hu] at hy
    exact h u y hy

theorem insertOffer (h : m.Unsent) (peerId relPath : String) (source : TransferSource)
    (info : OfferMeta) (autoPush : Bool) :
    (m.insertOffer P env disk peerId relPath source info autoPush).1.Unsent := by
  unfold FileTransferManager.insertOffer
  cases autoPush with
  | false => exact h.set fun _ => rfl
  | true => exact h.set (.pushed nofun)

theorem cancelOutbound (h : m.Unsent) : (m.cancelOutbound t).1.Unsent := by
  unfold FileTransferManager.cancelOutbound
  split
  · exact h
  · split
    · exact h.set (.answered nofun)
    · exact h

/-- A record is put in with nothing sent, and what is counted of it later is counted
after the answer. -/
theorem apply (h : m.Unsent) (op : FileOp) : (op.apply P Z env disk m).1.Unsent := by
  cases hinward : op.inward with
  | true => exact h.same (outbound_apply P Z env disk m hinward).1
  | false =>
    cases op with
    | gc =>
      intro u y hy
      obtain ⟨x, hx, rfl⟩ := outbound_gc env disk hy
      exact h u x hx
    | revokeOutbound t => exact fun u y hy => h u y (outbound_revokeOutbound hy)
    | startStreamFor t requester budget =>
      simp only [FileOp.apply, FileTransferManager.startStreamFor]
      split
      · exact h
      · exact h.set (.slice budget fun heq => by cases heq)
    | pumpStream t budget =>
      simp only [FileOp.apply, FileTransferManager.pumpStream]
      split
      · exact h
      · split
        · exact h
        · next hstate =>
          rw [not_not] at hstate
          refine h.set (.slice budget ?_)
          rw [hstate]
          intro heq
          cases heq
    | noteSendStalled t =>
      simp only [FileOp.apply, FileTransferManager.noteSendStalled]
      split
      · exact h
      · next x hx =>
        split
        · exact h.set (.answered fun heq => by cases heq)
        · exact h.set (h t x hx)
    | noteSendProgress t =>
      simp only [FileOp.apply, FileTransferManager.noteSendProgress]
      split
      · exact h
      · next x hx => exact h.set (h t x hx)
    | unsendChunks t n =>
      simp only [FileOp.apply, FileTransferManager.unsendChunks]
      split
      · exact h
      · next x hx =>
        split
        · exact h.set (.answered fun heq => by cases heq)
        · refine h.set fun hpending => ?_
          have hzero : x.chunksSent = 0 := h t x hx hpending
          rw [hzero, Nat.zero_sub]
    | markOutboundComplete t =>
      simp only [FileOp.apply, FileTransferManager.markOutboundComplete]
      split
      · exact h
      · exact h.set (.answered fun heq => by cases heq)
    | offerFile peerId relPath data purpose oldData autoPush tid =>
      simp only [FileOp.apply, FileTransferManager.offerFileWithId]
      by_cases hlarge : data.length > inlineMax
      · simp only [if_pos hlarge]
        exact h
      · simp only [if_neg hlarge]
        exact h.insertOffer _ _ _ _ _
    | offerFileFromPath peerId relPath path purpose autoPush tid =>
      simp only [FileOp.apply, FileTransferManager.offerFileFromPathWithId]
      rcases Option.eq_none_or_eq_some disk[path]? with hpath | ⟨content, hpath⟩
      · simp only [hpath]
        exact h
      · simp only [hpath]
        by_cases hlarge : content.length > maxTransferSize
        · simp only [if_pos hlarge]
          exact h
        · simp only [if_neg hlarge]
          exact h.insertOffer _ _ _ _ _
    | onTransferAccepted t =>
      rcases Option.eq_none_or_eq_some m.outbound[t]? with hx | ⟨x, hx⟩
      · simp only [FileOp.apply, FileTransferManager.onTransferAccepted, hx]
        exact h
      · by_cases hpending : x.state = .pending
        · obtain ⟨budget, haccept⟩ := onTransferAccepted_cases P env disk hx hpending
          simp only [FileOp.apply, haccept]
          exact h.set (.slice budget fun heq => by cases heq)
        · simp only [FileOp.apply, FileTransferManager.onTransferAccepted, hx, ne_eq, hpending,
            not_false_eq_true, if_true]
          exact h
    | onTransferRejected t =>
      simp only [FileOp.apply, FileTransferManager.onTransferRejected]
      split
      · exact h
      · exact h.set (.answered fun heq => by cases heq)
    | onTransferAck t =>
      simp only [FileOp.apply, FileTransferManager.onTransferAck]
      split
      · exact h
      · exact h.set (.answered fun heq => by cases heq)
    | onTransferError t reason =>
      simp only [FileOp.apply, FileTransferManager.onTransferError]
      split
      · exact h
      · exact h.set (.answered fun heq => by cases heq)
    | cancelTransfer t =>
      simp only [FileOp.apply, FileTransferManager.cancelTransfer]
      split
      · exact h.cancelOutbound
      · split
        · exact h.same (outbound_rejectTransfer m t "cancelled").1
        · exact h.same rfl
        · exact h.cancelOutbound
    | _ => cases hinward

end FileTransferManager.Unsent

theorem unsent_start (disk : Disk) : (FileLog.start disk).manager.Unsent := by
  intro t x hx
  simp [FileLog.start, FileTransferManager.new] at hx

theorem unsent_run (P : Platform) (Z : Zlib) (disk : Disk) (steps : List (FileEnv × FileOp)) :
    (run (FileLog.step P Z) (.start disk) steps).manager.Unsent :=
  run_inv (fun L : FileLog => L.manager.Unsent) (unsent_start disk) fun _ s hL => hL.apply s.2

end Offers

/-! ## Runs of the pump -/

/-- A peer accepts an offer that waits for its answer; a member may ask at any time. -/
def StreamStart.Opens (x : OutboundTransfer) : StreamStart → Prop
  | requested _ _ => True
  | accepted => x.state = .pending

/-- The invariant of a run: the stream of a file is in order. -/
structure StreamInv (t : String) (x : OutboundTransfer)
    (s : FileTransferManager × List FileMessage) : Prop where
  keyed : s.1.Keyed
  record : ∃ x', s.1.outbound[t]? = some x' ∧ SameFile x' x ∧ x'.chunksSent ≤ x'.totalChunks ∧
    InOrder t x' s.2

section Run

variable {P : Platform} {m : FileTransferManager} {t : String} {c : TurnContext}
  {x : OutboundTransfer} {s : FileTransferManager × List FileMessage} {turn : PumpTurn}

theorem Readable.of_sameFile {env : FileEnv} {disk : Disk} {x' : OutboundTransfer}
    (h : Readable env disk x) (hsame : SameFile x' x) : Readable env disk x' := by
  intro i hi
  rw [hsame.source]
  exact h i (hsame.totalChunks ▸ hi)

theorem dispatch_nil : c.dispatch P m [] = (m, []) := by
  unfold TurnContext.dispatch
  cases c.carriage with
  | direct => rfl
  | room => rfl

theorem dispatch_touches (hkeyed : m.Keyed) (hx : m.outbound[t]? = some x)
    {x₀ : OutboundTransfer} (hid : x₀.transferId = x.transferId) (budget : Nat)
    {evs : List TransferEvent} (hmessages : messagesOf evs = fileFrames evs)
    (hframes : fileFrames evs = fileFrames (nextChunkEvents P c.env c.disk budget x₀).2.1) :
    Touches t m (c.dispatch P (m.setOutbound t (nextChunkEvents P c.env c.disk budget x₀).1)
        evs).1 ∧
      ∀ f ∈ (c.dispatch P (m.setOutbound t (nextChunkEvents P c.env c.disk budget x₀).1) evs).2,
        frameId f = t := by
  obtain ⟨hnext, hof⟩ := nextChunkEvents_transferId P c.env c.disk budget x₀
  have hframeId : ∀ f ∈ fileFrames evs, frameId f = t := by
    intro f hf
    rw [hframes] at hf
    exact (hof f hf).trans (hid.trans (hkeyed t x hx))
  rw [dispatch_eq hmessages]
  exact ⟨(Touches.set hx (hnext.trans hid)).trans (touches_dispatchBatch hframeId),
    fun f hf => hframeId f (mem_of_mem_sent hf)⟩

theorem step_idle (hidle : ∀ y, s.1.outbound[turn.transferId]? = some y → y.state ≠ .transferring) :
    turn.step P s = s := by
  unfold PumpTurn.step FileTransferManager.pumpStream
  cases hy : s.1.outbound[turn.transferId]? with
  | none => simp only [dispatch_nil, List.append_nil]
  | some y => simp only [ne_eq, hidle y hy, not_false_eq_true, if_true, dispatch_nil,
      List.append_nil]

theorem step_running {y : OutboundTransfer} (hy : s.1.outbound[turn.transferId]? = some y)
    (hstate : y.state = .transferring) :
    turn.step P s =
      let next := nextChunkEvents P turn.context.env turn.context.disk turn.budget y
      let out := turn.context.dispatch P (s.1.setOutbound turn.transferId next.1) next.2.1
      (out.1, s.2 ++ out.2) := by
  simp only [PumpTurn.step, FileTransferManager.pumpStream, hy, hstate, ne_eq, not_true_eq_false,
    if_false]

theorem StreamInv.step (h : StreamInv t x s) (hne : t ≠ "")
    (hread : turn.transferId = t → Readable turn.context.env turn.context.disk x) :
    StreamInv t x (turn.step P s) := by
  obtain ⟨hkeyed, x₁, hx₁, hsame, hle, horder⟩ := h
  by_cases hrunning : ∃ y, s.1.outbound[turn.transferId]? = some y ∧ y.state = .transferring
  · obtain ⟨y, hy, hstate⟩ := hrunning
    obtain ⟨htouches, hframes⟩ := dispatch_touches (P := P) (c := turn.context) hkeyed hy rfl
      turn.budget (messagesOf_nextChunkEvents _ _ _ _ _) rfl
    rw [step_running hy hstate]
    refine ⟨keyed_of_touches htouches hkeyed, ?_⟩
    by_cases hthis : turn.transferId = t
    · rw [hthis] at hy ⊢
      cases hx₁.symm.trans hy
      obtain ⟨x₂, hx₂, hstream, hle₂, horder₂⟩ := dispatch_inOrder (P := P) (c := turn.context)
        (m := s.1) hne (hkeyed t x₁ hx₁) hstate hle ((hread hthis).of_sameFile hsame) turn.budget
        (messagesOf_nextChunkEvents _ _ _ _ _) rfl horder
      exact ⟨x₂, hx₂, ⟨hstream.transferId.trans hsame.transferId,
        hstream.source.trans hsame.source, hstream.totalChunks.trans hsame.totalChunks⟩,
        hle₂, horder₂⟩
    · refine ⟨x₁, (htouches.elsewhere t (Ne.symm hthis)).trans hx₁, hsame, hle, ?_,
        horder.complete⟩
      rw [handedOf_append, handedOf_eq_nil hthis hframes, List.append_nil]
      exact horder.handed
  · rw [step_idle fun y hy hstate => hrunning ⟨y, hy, hstate⟩]
    exact ⟨hkeyed, x₁, hx₁, hsame, hle, horder⟩

theorem begin_eq (hunsent : m.Unsent) (hx : m.outbound[t]? = some x) {start : StreamStart}
    (hopens : start.Opens x) :
    ∃ x₀ budget evs, start.begin P m t c =
        (m.setOutbound t (nextChunkEvents P c.env c.disk budget x₀).1, evs) ∧
      messagesOf evs = fileFrames evs ∧
      fileFrames evs = fileFrames (nextChunkEvents P c.env c.disk budget x₀).2.1 ∧
      SameFile x₀ x ∧ x₀.state = .transferring ∧ x₀.chunksSent = 0 := by
  cases start with
  | requested requester budget =>
    refine ⟨{ x with chunksSent := 0, toPeer := requester, state := .transferring,
                     finishedAt := none }, budget, _, ?_, ?_, rfl, ⟨rfl, rfl, rfl⟩, rfl, rfl⟩
    · simp only [StreamStart.begin, FileTransferManager.startStreamFor, hx]
    · exact messagesOf_nextChunkEvents _ _ _ _ _
  | accepted =>
    have hpending : x.state = .pending := hopens
    have hzero : x.chunksSent = 0 := hunsent t x hx hpending
    refine ⟨{ x with state := .transferring },
      if x.source.isStreaming then roomFileChunkBudget else x.totalChunks,
      .stateChanged t .transferring :: (nextChunkEvents P c.env c.disk
        (if x.source.isStreaming then roomFileChunkBudget else x.totalChunks)
        { x with state := .transferring }).2.1, ?_, ?_, rfl, ⟨rfl, rfl, rfl⟩, rfl, hzero⟩
    · simp only [StreamStart.begin, FileTransferManager.onTransferAccepted, hx, hpending, ne_eq,
        not_true_eq_false, if_false]
      split
      · rfl
      · rfl
    · exact messagesOf_nextChunkEvents P c.env c.disk _ { x with state := .transferring }

theorem StreamInv.begin (hkeyed : m.Keyed) (hunsent : m.Unsent) (hne : t ≠ "")
    (hx : m.outbound[t]? = some x) {start : StreamStart} (hopens : start.Opens x)
    (hread : Readable c.env c.disk x) :
    StreamInv t x (start.turn P m t c) := by
  obtain ⟨x₀, budget, evs, hbegin, hmessages, hframes, hsame, hstate, hzero⟩ :=
    begin_eq (P := P) (c := c) hunsent hx hopens
  have hid : x₀.transferId = t := hsame.transferId.trans (hkeyed t x hx)
  have hnothing : InOrder t x₀ [] := by
    refine ⟨?_, ?_⟩
    · rw [hzero, hstate]
      rfl
    · intro hcomplete
      rw [hstate] at hcomplete
      cases hcomplete
  obtain ⟨htouches, -⟩ := dispatch_touches (P := P) (c := c) hkeyed hx hsame.transferId budget
    hmessages hframes
  obtain ⟨x', hx', hstream, hle, horder⟩ := dispatch_inOrder (P := P) (c := c) (m := m) hne hid
    hstate (by rw [hzero]; exact Nat.zero_le _) (hread.of_sameFile hsame) budget hmessages hframes
    hnothing
  unfold StreamStart.turn
  rw [hbegin]
  exact ⟨keyed_of_touches htouches hkeyed, x', hx', ⟨hstream.transferId.trans hsame.transferId,
    hstream.source.trans hsame.source, hstream.totalChunks.trans hsame.totalChunks⟩, hle, horder⟩

end Run

/-- Once a stream has started, whatever turns of the pump follow and whatever of them
goes out: the chunks handed over are the first so many in order, as many as are counted,
and COMPLETE comes after them all. -/
theorem stream_inOrder (P : Platform) (Z : Zlib) (disk : Disk) (steps : List (FileEnv × FileOp))
    {t : String} (hne : t ≠ "") {x : OutboundTransfer}
    (hx : (run (FileLog.step P Z) (.start disk) steps).manager.outbound[t]? = some x)
    (start : StreamStart) (hopens : start.Opens x) (c : TurnContext)
    (hread : Readable c.env c.disk x) (turns : List PumpTurn)
    (hreads : ∀ turn ∈ turns, turn.transferId = t →
      Readable turn.context.env turn.context.disk x) :
    ∃ x', (run (PumpTurn.step P)
          (start.turn P (run (FileLog.step P Z) (.start disk) steps).manager t c)
          turns).1.outbound[t]? = some x' ∧ x'.totalChunks = x.totalChunks ∧
      InOrder t x' (run (PumpTurn.step P)
        (start.turn P (run (FileLog.step P Z) (.start disk) steps).manager t c) turns).2 := by
  have hstart : StreamInv t x
      (start.turn P (run (FileLog.step P Z) (.start disk) steps).manager t c) :=
    .begin (keyed_run P Z disk steps) (unsent_run P Z disk steps) hne hx hopens hread
  have hrun : ∀ s, StreamInv t x s → StreamInv t x (run (PumpTurn.step P) s turns) := by
    intro s hs
    induction turns generalizing s with
    | nil => exact hs
    | cons turn turns ih =>
      exact ih (fun u hu => hreads u (List.mem_cons_of_mem _ hu)) _
        (hs.step hne (hreads turn List.mem_cons_self))
  obtain ⟨-, x', hx', hsame, -, horder⟩ := hrun _ hstart
  exact ⟨x', hx', hsame.totalChunks, horder⟩

def hiAdvertised : List (FileEnv × FileOp) :=
  [(hiEnv, .offerFile "room" "hi.txt" hiBytes "room_file" none false (some "t"))]

/-- A turn in the room, while the transport is up or down. -/
def hiContext (up : Bool) : TurnContext where
  env := hiEnv
  disk := ∅
  net := allOrNone up
  carriage := .room

/-- Alice asks while the transport is down, and a later turn finds it up. -/
def hiStream : FileTransferManager × List FileMessage :=
  run (PumpTurn.step hiPlatform)
    ((StreamStart.requested alice.text 8).turn hiPlatform
      (run (FileLog.step hiPlatform storeZlib) (.start ∅) hiAdvertised).manager "t" (hiContext false))
    [⟨"t", 8, hiContext true⟩]

theorem stream_inOrder_hi : handedOf "t" hiStream.2 = [.chunk 0, .complete] ∧
    ∃ x', hiStream.1.outbound["t"]? = some x' ∧ x'.totalChunks = hiShared.totalChunks ∧
      InOrder "t" x' hiStream.2 := by
  have hoffered : (run (FileLog.step hiPlatform storeZlib) (.start ∅) hiAdvertised).manager.outbound[
      "t"]? = some hiShared := by
    have hpayload : FileTransferManager.payloadFor hiPlatform storeZlib hiBytes none =
        (hiBytes, false, false, "") := by decide +kernel
    have hfits : ¬ hiBytes.length > inlineMax := by decide
    simp only [hiAdvertised, run, List.foldl_cons, List.foldl_nil, FileLog.step, FileOp.apply,
      FileTransferManager.offerFileWithId, if_neg hfits, hpayload, FileOp.offered]
    exact getElem?_setOutbound _ _ _
  have hread : Readable hiEnv ∅ hiShared := by
    intro i hi
    obtain rfl : i = 0 := Nat.lt_one_iff.mp hi
    decide +kernel
  refine ⟨by decide +kernel, ?_⟩
  exact stream_inOrder hiPlatform storeZlib ∅ hiAdvertised (by decide) hoffered
    (.requested alice.text 8) trivial (hiContext false) hread [⟨"t", 8, hiContext true⟩]
    fun turn hturn _ => by
      cases List.mem_singleton.mp hturn
      exact hread

end ConquerD.Client
