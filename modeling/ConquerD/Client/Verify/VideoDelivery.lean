import ConquerD.Client.Verify.VideoReassembly

/-!
# Client: video frames that are handed out twice

The reassembler remembers the newest frame it handed out, and lets fragments of
frames at most two behind it in. A copy of a frame just behind the newest is
therefore put together and handed out again. No other frame is: without a restart
of the stream, and with all numbers within half the range, the rest is refused as
superseded.
-/

namespace ConquerD.Client.Video

open Std (ExtTreeMap)
open Lib Lib.Encoding

/-! ## Runs -/

/-- A reassembler and the frames it has handed out, the last one first. -/
structure Delivery where
  reassembler : Reassembler := {}
  frames : List ReassembledFrame := []

namespace Delivery

def handedOut (d : Delivery) : List UInt32 :=
  d.frames.map fun frame => frame.frameSeq

def step (d : Delivery) (a : Arrival) : Delivery :=
  let (reassembler, result) := d.reassembler.push a.order a.buf a.now
  { reassembler := reassembler, frames := result.toOption.toList ++ d.frames }

/-- The state a sender is in when a fragment of its comes in. -/
def stateOf (d : Delivery) (a : Arrival) (sender : String) : SenderState :=
  ((d.reassembler.evictExpired a.now).senders[sender]?).getD {}

/-- The fragment is taken for the start of a new stream. -/
def restarts (d : Delivery) (a : Arrival) : Bool :=
  (parseFragment a.buf).any fun (hdr, _) =>
    (d.stateOf a hdr.sender).lastCompleted.any fun last =>
      isSuperseded last hdr.frameSeq && isStreamRestart last hdr

/-- What comes in is of one sender, its numbers are less than half the range above
`base`, and it is not taken for the start of a new stream. -/
def Plain (sender : String) (base : UInt32) (d : Delivery) (a : Arrival) : Prop :=
  ((parseFragment a.buf).all fun (hdr, _) =>
    hdr.sender == sender && hdr.frameSeq - base < 0x80000000) = true ∧ d.restarts a = false

instance (sender : String) (base : UInt32) (d : Delivery) (a : Arrival) :
    Decidable (Plain sender base d a) :=
  inferInstanceAs (Decidable (_ ∧ _))

/-- All other fragments of the frame are there. -/
def isLastMissing (s : SenderState) (hdr : FragmentHeader) : Bool :=
  match s.partials.lookup hdr.frameSeq with
  | some p => (p.refuses hdr).isNone && p.received + 1 == hdr.fragCount
  | none => hdr.fragCount == 1

/-- The fragment is the last one missing of a frame that was handed out before, and the
frame is at most two behind the newest. -/
def Refills (d : Delivery) (a : Arrival) : Prop :=
  ((parseFragment a.buf).any fun (hdr, _) =>
    (d.stateOf a hdr.sender).lastCompleted.any fun last =>
      d.handedOut.contains hdr.frameSeq && hdr.frameSeq != last &&
        last - hdr.frameSeq ≤ monotonicLag && isLastMissing (d.stateOf a hdr.sender) hdr) = true

instance (d : Delivery) (a : Arrival) : Decidable (d.Refills a) :=
  inferInstanceAs (Decidable (_ = true))

end Delivery

/-! ## Serial numbers -/

section Serial

variable {base a b : UInt32}

theorem toNat_sub_sub (base a b : UInt32) :
    (a - b).toNat = (2 ^ 32 - (b - base).toNat + (a - base).toNat) % 2 ^ 32 := by
  simp only [UInt32.toNat_sub]
  have ha := a.toNat_lt
  have hb := b.toNat_lt
  have hbase := base.toNat_lt
  omega

theorem seqNewer_iff_toNat : seqNewer a b = true ↔ a ≠ b ∧ (a - b).toNat < 2 ^ 31 := by
  rw [seqNewer, Bool.and_eq_true, bne_iff_ne, decide_eq_true_iff, UInt32.lt_iff_toNat_lt]
  rfl

theorem seqNewer_iff (ha : (a - base).toNat < 2 ^ 31) (hb : (b - base).toNat < 2 ^ 31) :
    seqNewer a b = true ↔ (b - base).toNat < (a - base).toNat := by
  have hne : a ≠ b ↔ (a - base).toNat ≠ (b - base).toNat := by
    rw [ne_eq, ne_eq, UInt32.toNat_inj, UInt32.sub_left_inj]
  rw [seqNewer_iff_toNat, hne, toNat_sub_sub base a b]
  omega

/-- A frame that is not newer than the newest and not superseded is one or two behind. -/
theorem sub_le_of_not_superseded (ha : (a - base).toNat < 2 ^ 31)
    (hle : (b - base).toNat ≤ (a - base).toNat) (h : isSuperseded a b = false) :
    b ≠ a ∧ a - b ≤ monotonicLag := by
  rw [isSuperseded, Bool.or_eq_false_iff, beq_eq_false_iff_ne] at h
  obtain ⟨hnotNewer, hne⟩ := h
  refine ⟨hne, ?_⟩
  rw [Bool.eq_false_iff, ne_eq, seqNewer_iff_toNat, not_and_or, not_not] at hnotNewer
  have hdist := toNat_sub_sub base a b
  have hplain := UInt32.toNat_sub a b
  have hback := UInt32.toNat_sub a monotonicLag
  have hshift := UInt32.toNat_sub (a - monotonicLag) b
  have haSize := a.toNat_lt
  have hbSize := b.toNat_lt
  have hlag : monotonicLag.toNat = 2 := rfl
  rw [hlag] at hback
  rw [UInt32.le_iff_toNat_le, hlag]
  rcases hnotNewer with heq | hfar
  · have hnat := congrArg UInt32.toNat heq
    omega
  · omega

end Serial

/-! ## A fragment and the newest frame -/

namespace SenderState

variable {v : VisitOrder} {s g : SenderState} {hdr : FragmentHeader} {chunk : Bytes} {now : Nat}
  {seq : UInt32}

theorem lastCompleted_foldl_dropPartial (s : SenderState) (seqs : List UInt32) :
    (seqs.foldl dropPartial s).lastCompleted = s.lastCompleted := by
  induction seqs generalizing s with
  | nil => rfl
  | cons seq seqs ih => rw [List.foldl_cons, ih, lastCompleted_dropPartial]

theorem lastCompleted_evictExpired (s : SenderState) (now : Nat) :
    (s.evictExpired now).lastCompleted = s.lastCompleted :=
  lastCompleted_foldl_dropPartial s _

theorem lastCompleted_makeRoom (v : VisitOrder) (s : SenderState) (seq : UInt32) :
    (s.makeRoom v seq).lastCompleted = s.lastCompleted := by
  unfold makeRoom
  split
  · exact lastCompleted_evictOldest v s
  · rfl

theorem lastCompleted_openPartial (s : SenderState) (hdr : FragmentHeader) (now : Nat) :
    (s.openPartial hdr now).2.lastCompleted = s.lastCompleted := by
  unfold openPartial
  split
  · rfl
  · rfl

theorem lastCompleted_makeBudget {len : Nat} {fits : Bool} {b : SenderState}
    (h : s.makeBudget v seq len = (b, fits)) : b.lastCompleted = s.lastCompleted := by
  rcases makeBudget_cases v s seq len with ⟨b', hb', -, hlast, -⟩ | ⟨b', hb', hlast, -⟩
  · rw [hb'] at h
    cases h
    exact hlast
  · rw [hb'] at h
    cases h
    rw [lastCompleted_dropPartial, hlast]

theorem lastCompleted_noteCompleted (s : SenderState) (seq : UInt32) :
    (s.noteCompleted seq).lastCompleted =
      if s.lastCompleted.all fun last => seqNewer seq last then some seq else s.lastCompleted := by
  unfold noteCompleted
  split
  · exact lastCompleted_foldl_dropPartial _ _
  · rfl

theorem gate_of_not_restart
    (hno : (s.lastCompleted.any fun last =>
      isSuperseded last hdr.frameSeq && isStreamRestart last hdr) = false)
    (hgate : s.gate hdr = some g) :
    g = s ∧ ∀ last ∈ s.lastCompleted, isSuperseded last hdr.frameSeq = false := by
  unfold gate at hgate
  cases hlast : s.lastCompleted with
  | none =>
    rw [hlast] at hgate
    cases hgate
    exact ⟨rfl, nofun⟩
  | some last =>
    rw [hlast] at hgate hno
    rw [Option.any_some] at hno
    dsimp only at hgate
    cases hsuperseded : isSuperseded last hdr.frameSeq with
    | true =>
      rw [hsuperseded, Bool.true_and] at hno
      rw [hsuperseded, if_pos rfl, hno] at hgate
      cases hgate
    | false =>
      rw [hsuperseded] at hgate
      cases hgate
      refine ⟨rfl, fun other hother => ?_⟩
      cases hother
      exact hsuperseded

theorem lookup_makeRoom (v : VisitOrder) (s : SenderState) (seq : UInt32) :
    (s.makeRoom v seq).partials.lookup seq = s.partials.lookup seq := by
  unfold makeRoom
  split
  · next hfull =>
    have hnone := AList.lookup_eq_none.mpr hfull.1
    rw [hnone, Option.eq_none_iff_forall_ne_some]
    intro p hp
    have hold := lookup_of_lookup_evictOldest hp
    rw [hnone] at hold
    cases hold
  · rfl

theorem isLastMissing_of_completed (h : s.Sound) (hvalid : hdr.Valid) {entry : PartialFrame}
    (hentry : ((s.makeRoom v hdr.frameSeq).openPartial hdr now).1 = entry)
    (hrefuses : entry.refuses hdr = none)
    (hlast : ¬ (entry.store hdr chunk).received < hdr.fragCount) :
    Delivery.isLastMissing s hdr = true := by
  have hreceived : (entry.store hdr chunk).received = entry.received + 1 := rfl
  obtain ⟨hlen, -⟩ := PartialFrame.slot_of_refuses hvalid hrefuses
  unfold openPartial at hentry
  rw [lookup_makeRoom] at hentry
  unfold Delivery.isLastMissing
  cases hlookup : s.partials.lookup hdr.frameSeq with
  | none =>
    rw [hlookup] at hentry
    dsimp only at hentry ⊢
    have hzero : entry.received = 0 := by rw [← hentry]; rfl
    have hpos := hvalid.count_pos
    rw [beq_iff_eq]
    omega
  | some p =>
    rw [hlookup] at hentry
    dsimp only at hentry ⊢
    subst hentry
    have hopen := (h.partials _ _ hlookup).isOpen
    rw [hrefuses, Option.isNone_none, Bool.true_and, beq_iff_eq]
    omega

theorem push_cases (h : s.Sound) (hvalid : hdr.Valid) (v : VisitOrder) (chunk : Bytes) (now : Nat)
    (hno : (s.lastCompleted.any fun last =>
      isSuperseded last hdr.frameSeq && isStreamRestart last hdr) = false) :
    (∃ why, (s.push v hdr chunk now).2 = .error why ∧
      (s.push v hdr chunk now).1.lastCompleted = s.lastCompleted) ∨
    (∃ frame, (s.push v hdr chunk now).2 = .ok frame ∧ frame.frameSeq = hdr.frameSeq ∧
      (∀ last ∈ s.lastCompleted, isSuperseded last hdr.frameSeq = false) ∧
      Delivery.isLastMissing s hdr = true ∧
      (s.push v hdr chunk now).1.lastCompleted =
        if s.lastCompleted.all fun last => seqNewer hdr.frameSeq last then some hdr.frameSeq
        else s.lastCompleted) := by
  have hpushed := pushed v s hdr chunk now
  generalize s.push v hdr chunk now = after at *
  cases hpushed with
  | superseded hgate => exact .inl ⟨_, rfl, rfl⟩
  | refused hgate hrefuses =>
    obtain ⟨rfl, -⟩ := gate_of_not_restart hno hgate
    exact .inl ⟨_, rfl, by rw [lastCompleted_openPartial, lastCompleted_makeRoom]⟩
  | overBudget hgate hb =>
    obtain ⟨rfl, -⟩ := gate_of_not_restart hno hgate
    exact .inl ⟨_, rfl, by
      rw [lastCompleted_makeBudget hb, lastCompleted_openPartial, lastCompleted_makeRoom]⟩
  | evicted hgate hb =>
    obtain ⟨rfl, -⟩ := gate_of_not_restart hno hgate
    exact .inl ⟨_, rfl, by
      rw [lastCompleted_makeBudget hb, lastCompleted_openPartial, lastCompleted_makeRoom]⟩
  | @stored g b entry hgate hentry hrefuses hb hlookup hmore =>
    obtain ⟨rfl, -⟩ := gate_of_not_restart hno hgate
    have hkept : (b.storeChunk hdr entry chunk).lastCompleted = b.lastCompleted := rfl
    exact .inl ⟨_, rfl, by
      rw [hkept, lastCompleted_makeBudget hb, lastCompleted_openPartial, lastCompleted_makeRoom]⟩
  | completed hgate hentry hrefuses hb hlookup hlast =>
    obtain ⟨rfl, hnew⟩ := gate_of_not_restart hno hgate
    have hsound := ((h.opened hvalid v now hgate).makeBudget hb).1
    obtain ⟨hall, hsigned⟩ :=
      PartialFrame.all_of_store chunk (hsound.partials _ _ hlookup) hvalid hrefuses hlast
    obtain ⟨signature, -, heq⟩ := complete_eq hall hsigned
    rw [heq, dropPartial_storeChunk hlookup]
    refine .inr ⟨_, rfl, rfl, hnew, isLastMissing_of_completed h hvalid hentry hrefuses hlast, ?_⟩
    dsimp only
    rw [lastCompleted_noteCompleted, lastCompleted_dropPartial, lastCompleted_makeBudget hb,
      lastCompleted_openPartial, lastCompleted_makeRoom]

end SenderState

/-! ## The frames handed out -/

namespace Delivery

variable {sender : String} {base : UInt32} {d : Delivery} {a : Arrival}

/-- The newest frame of the sender. -/
def newest (d : Delivery) (sender : String) : Option UInt32 :=
  (d.reassembler.senders[sender]?.getD {}).lastCompleted

/-- No frame was handed out twice, and none is newer than the newest. -/
structure Once (sender : String) (base : UInt32) (d : Delivery) : Prop where
  sound : d.reassembler.Sound
  nodup : d.handedOut.Nodup
  untouched : d.newest sender = none → d.handedOut = []
  window : ∀ last ∈ d.newest sender, (last - base).toNat < 2 ^ 31
  older : ∀ last ∈ d.newest sender, ∀ seq ∈ d.handedOut,
    (seq - base).toNat ≤ (last - base).toNat

theorem once_start (sender : String) (base : UInt32) : Once sender base {} where
  sound := Reassembler.sound_new
  nodup := List.nodup_nil
  untouched _ := rfl
  window := by simp [newest]
  older := by simp [newest]

theorem lastCompleted_stateOf (d : Delivery) (a : Arrival) (sender : String) :
    (d.stateOf a sender).lastCompleted = d.newest sender := by
  unfold stateOf newest
  rw [Reassembler.getElem?_evictExpired]
  cases hs : d.reassembler.senders[sender]? with
  | none => rfl
  | some s =>
    rw [Option.bind_some, Option.getD_some]
    split
    · next hgone =>
      have hnone := Option.isNone_iff_eq_none.mp (Bool.and_eq_true_iff.mp hgone).2
      rw [SenderState.lastCompleted_evictExpired] at hnone
      rw [hnone]
      rfl
    · rw [Option.getD_some, SenderState.lastCompleted_evictExpired]

theorem Once.same (h : d.Once sender base) {d' : Delivery} (hsound : d'.reassembler.Sound)
    (hframes : d'.frames = d.frames) (hnewest : d'.newest sender = d.newest sender) :
    d'.Once sender base := by
  have hout : d'.handedOut = d.handedOut := by
    unfold handedOut
    rw [hframes]
  exact ⟨hsound, hout ▸ h.nodup, hnewest ▸ hout ▸ h.untouched, hnewest ▸ h.window,
    hnewest ▸ hout ▸ h.older⟩

theorem Once.completed (h : d.Once sender base) {d' : Delivery} {frame : ReassembledFrame}
    {seq : UInt32} (hsound : d'.reassembler.Sound) (hseq : frame.frameSeq = seq)
    (hframes : d'.frames = frame :: d.frames) (hwindow : (seq - base).toNat < 2 ^ 31)
    (hfresh : seq ∉ d.handedOut)
    (hnewest : d'.newest sender = if (d.newest sender).all fun last => seqNewer seq last then
      some seq else d.newest sender) : d'.Once sender base := by
  have hout : d'.handedOut = seq :: d.handedOut := by
    unfold handedOut
    rw [hframes, List.map_cons, hseq]
  cases hlast : d.newest sender with
  | none =>
    rw [hlast, Option.all_none, if_pos rfl] at hnewest
    have hempty := h.untouched hlast
    rw [hempty] at hout
    refine ⟨hsound, ?_, ?_, ?_, ?_⟩
    · rw [hout]
      exact List.nodup_singleton seq
    · rw [hnewest]
      exact nofun
    · intro last hmem
      rw [hnewest] at hmem
      cases hmem
      exact hwindow
    · intro last hmem other hother
      rw [hnewest] at hmem
      cases hmem
      rw [hout, List.mem_singleton] at hother
      rw [hother]
  | some last =>
    have hlastWindow := h.window last hlast
    have holder := h.older last hlast
    rw [hlast, Option.all_some] at hnewest
    have hnodup : d'.handedOut.Nodup := by
      rw [hout]
      exact List.nodup_cons.mpr ⟨hfresh, h.nodup⟩
    by_cases hnewer : seqNewer seq last = true
    · rw [if_pos hnewer] at hnewest
      have hlt := (seqNewer_iff hwindow hlastWindow).mp hnewer
      refine ⟨hsound, hnodup, ?_, ?_, ?_⟩
      · rw [hnewest]
        exact nofun
      · intro l hl
        rw [hnewest] at hl
        cases hl
        exact hwindow
      · intro l hl other hother
        rw [hnewest] at hl
        cases hl
        rw [hout] at hother
        rcases List.mem_cons.mp hother with rfl | hother
        · exact le_rfl
        · exact (holder other hother).trans hlt.le
    · rw [if_neg hnewer] at hnewest
      have hge : ¬ (last - base).toNat < (seq - base).toNat := fun hlt =>
        hnewer ((seqNewer_iff hwindow hlastWindow).mpr hlt)
      refine ⟨hsound, hnodup, ?_, ?_, ?_⟩
      · rw [hnewest]
        exact nofun
      · intro l hl
        rw [hnewest] at hl
        cases hl
        exact hlastWindow
      · intro l hl other hother
        rw [hnewest] at hl
        cases hl
        rw [hout] at hother
        rcases List.mem_cons.mp hother with rfl | hother
        · exact Nat.not_lt.mp hge
        · exact holder other hother

theorem Once.fresh (h : d.Once sender base) {hdr : FragmentHeader} {chunk : Bytes}
    (hparse : parseFragment a.buf = some (hdr, chunk)) (hsender : hdr.sender = sender)
    (hnew : ∀ last ∈ d.newest sender, isSuperseded last hdr.frameSeq = false)
    (hmissing : isLastMissing (d.stateOf a hdr.sender) hdr = true) (hcond : ¬ d.Refills a) :
    hdr.frameSeq ∉ d.handedOut := by
  intro hmem
  apply hcond
  cases hlast : d.newest sender with
  | none =>
    rw [h.untouched hlast] at hmem
    cases hmem
  | some last =>
    obtain ⟨hne, hlag⟩ := sub_le_of_not_superseded (h.window last hlast)
      (h.older last hlast hdr.frameSeq hmem) (hnew last hlast)
    unfold Refills
    rw [hparse, Option.any_some]
    dsimp only
    rw [lastCompleted_stateOf, hsender, hlast, Option.any_some, ← hsender, hmissing]
    simp [hmem, hne, hlag]

theorem Once.step (h : d.Once sender base) (hplain : d.Plain sender base a)
    (hcond : ¬ d.Refills a) : (d.step a).Once sender base := by
  obtain ⟨hof, hno⟩ := hplain
  have hsound : (d.step a).reassembler.Sound := (h.sound.push a.order a.buf a.now).1
  unfold restarts at hno
  unfold Delivery.step Reassembler.push at hsound ⊢
  cases hparse : parseFragment a.buf with
  | none =>
    exact h
  | some parsed =>
    obtain ⟨hdr, chunk⟩ := parsed
    rw [hparse, Option.all_some, Bool.and_eq_true, beq_iff_eq, decide_eq_true_iff] at hof
    rw [hparse, Option.any_some] at hno
    rw [hparse] at hsound
    obtain ⟨hsender, hwindow⟩ := hof
    dsimp only at hno hsound ⊢
    split
    · next hfull =>
      rw [if_pos hfull] at hsound
      refine h.same hsound rfl ?_
      have hstate := lastCompleted_stateOf d a sender
      exact hstate
    · next hroom =>
      rw [if_neg hroom] at hsound
      subst hsender
      have hstate : (d.stateOf a hdr.sender).Sound := (h.sound.evictExpired a.now).getD hdr.sender
      have hcases := SenderState.push_cases hstate (valid_of_parseFragment hparse) a.order chunk a.now
        hno
      have hinserted : ∀ (r : Reassembler) (s : SenderState) (frames : List ReassembledFrame),
          newest ⟨⟨r.senders.insert hdr.sender s⟩, frames⟩ hdr.sender = s.lastCompleted := by
        intro r s frames
        unfold newest
        rw [ExtTreeMap.getElem?_insert_self, Option.getD_some]
      rcases hcases with ⟨why, hresult, hlast⟩ | ⟨frame, hresult, hseq, hnew, hmissing, hlast⟩
      · refine h.same hsound ?_ ((hinserted _ _ _).trans (hlast.trans (lastCompleted_stateOf ..)))
        exact congrArg (fun result => result.toOption.toList ++ d.frames) hresult
      · rw [lastCompleted_stateOf] at hnew hlast
        refine h.completed hsound hseq ?_ hwindow (h.fresh hparse rfl hnew hmissing hcond)
          ((hinserted _ _ _).trans hlast)
        exact congrArg (fun result => result.toOption.toList ++ d.frames) hresult

end Delivery

/-- In a run without a restart, with all numbers within half the range, no frame is handed
out twice if no fragment is the last one missing of a frame handed out before, one or two
behind the newest. -/
theorem delivered_once {sender : String} {base : UInt32} {as : List Arrival}
    (hplain : Run.Along Delivery.step (Delivery.Plain sender base) {} as)
    (hcond : Run.Along Delivery.step (fun d a => ¬ d.Refills a) {} as) :
    (Run.run Delivery.step {} as).handedOut.Nodup := by
  have honce := (hplain.and hcond).run_inv (Delivery.Once sender base)
    (Delivery.once_start sender base) fun d a hinv hstep => hinv.step hstep.1 hstep.2
  exact honce.nodup

/-! ## Copies that come in late -/

def twoFragments (seq : UInt32) : List Arrival :=
  let signature : FrameSignature := ⟨List.replicate 64 7, List.length_replicate⟩
  let frags := (fragmentFrame "alice" seq false .h264 5 signature [1, 2, 3, 4] 91).getD []
  frags.map fun buf => ⟨⟨fun l => l, fun l => .refl l⟩, buf, 0⟩

/-- Frames nine and ten cross, a copy of ten comes in whole and of nine in part. -/
def crossedArrivals : List Arrival :=
  (twoFragments 9).take 1 ++ twoFragments 10 ++ (twoFragments 9).drop 1 ++ twoFragments 10 ++
    (twoFragments 9).take 1

theorem delivered_once_crossed :
    (Run.run Delivery.step {} crossedArrivals).handedOut.Nodup :=
  have hplain : Run.Along Delivery.step (Delivery.Plain "alice" 0) {} crossedArrivals := by
    decide +kernel
  delivered_once hplain (by decide +kernel)

/-- Frame nine, frame ten, and a copy of frame nine. -/
def copiedArrivals : List Arrival :=
  twoFragments 9 ++ twoFragments 10 ++ twoFragments 9

theorem late_copy_is_handed_out :
    Run.Along Delivery.step (Delivery.Plain "alice" 0) {} copiedArrivals ∧
      (Run.run Delivery.step {} copiedArrivals).handedOut = [9, 10, 9] := by
  decide +kernel

end ConquerD.Client.Video
