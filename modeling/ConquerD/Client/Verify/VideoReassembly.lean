import ConquerD.Client.VideoFragment

/-!
# Client: bounds of the reassembler

Whatever comes in, and at whatever times, the reassembler keeps to its caps and
its counters count what is there. A frame whose last fragment has come in has all
its slots filled and a signature.
-/

namespace ConquerD.Client.Video

open Std (ExtTreeMap)
open Lib Lib.Encoding

/-! ## What parsing promises -/

/-- The counts of a header are in range, and the first fragment alone is signed. -/
structure FragmentHeader.Valid (hdr : FragmentHeader) : Prop where
  count_pos : 0 < hdr.fragCount
  count_le : hdr.fragCount ≤ maxFragsPerFrame
  idx_lt : hdr.fragIdx < hdr.fragCount
  signed : hdr.signature.isSome = (hdr.fragIdx == 0)

theorem isSome_of_takeSignature {hasSig : Bool} {rest chunk : Bytes}
    {signature : Option FrameSignature}
    (h : takeSignature hasSig rest = some (signature, chunk)) : signature.isSome = hasSig := by
  unfold takeSignature at h
  split at h
  · next hsig =>
    split at h
    · cases h
      exact hsig.symm
    · cases h
  · next hsig =>
    cases h
    exact (Bool.eq_false_iff.mpr hsig).symm

theorem guard_eq_some_iff {p : Prop} [Decidable p] {u : Unit} :
    (guard p : Option Unit) = some u ↔ p := by
  by_cases hp : p
  · simp [hp]
  · simp [hp]

theorem valid_of_parseFragment {buf chunk : Bytes} {hdr : FragmentHeader}
    (h : parseFragment buf = some (hdr, chunk)) : hdr.Valid := by
  unfold parseFragment at h
  simp only [Option.bind_eq_bind, Option.bind_eq_some_iff, guard_eq_some_iff, Option.pure_def,
    Option.some.injEq, Prod.mk.injEq, exists_const] at h
  obtain ⟨-, -, flags, -, _, -, codec, -, lenByte, -, -, -, sender, -, ⟨hcount, hle⟩, hidx, hsig,
    ⟨signature, rest⟩, htake, rfl, -⟩ := h
  exact ⟨Nat.pos_of_ne_zero hcount, hle, hidx, (isSome_of_takeSignature htake).trans hsig⟩

/-! ## Partial frames -/

namespace PartialFrame

/-- The bytes in the slots. -/
def stored (p : PartialFrame) : Nat :=
  (p.chunks.map fun c => (c.getD []).length).sum

/-- The filled slots. -/
def filled (p : PartialFrame) : Nat :=
  p.chunks.countP Option.isSome

/-- The counters count what is there, and a slot is open. -/
structure Sound (p : PartialFrame) : Prop where
  slots : p.chunks.length ≤ maxFragsPerFrame
  received : p.received = p.filled
  isOpen : p.received < p.chunks.length
  bytes : p.bytes = p.stored
  signed : p.hasChunk 0 = true → p.signature.isSome = true

variable {p : PartialFrame} {hdr : FragmentHeader} {chunk : Bytes}

theorem sound_new (hdr : FragmentHeader) (hvalid : hdr.Valid) (now : Nat) : (new hdr now).Sound where
  slots := by
    rw [new, List.length_replicate]
    exact hvalid.count_le
  received := by simp [new, filled, List.countP_replicate]
  isOpen := by
    rw [new, List.length_replicate]
    exact hvalid.count_pos
  bytes := by simp [new, stored]
  signed h := by simp [new, hasChunk, hvalid.count_pos] at h

theorem stored_new (hdr : FragmentHeader) (now : Nat) : (new hdr now).stored = 0 := by
  simp [new, stored]

theorem slot_of_refuses (hvalid : hdr.Valid) (h : p.refuses hdr = none) :
    p.chunks.length = hdr.fragCount ∧ p.chunks[hdr.fragIdx]? = some none := by
  unfold refuses at h
  split at h
  · cases h
  · next hlen =>
    rw [not_not] at hlen
    refine ⟨hlen, ?_⟩
    split at h
    · cases h
    · split at h
      · cases h
      · split at h
        · cases h
        · next hslot =>
          have hlt : hdr.fragIdx < p.chunks.length := hlen ▸ hvalid.idx_lt
          unfold hasChunk at hslot
          rw [List.getElem?_eq_getElem hlt, Option.getD_some, Option.not_isSome_iff_eq_none] at hslot
          rw [List.getElem?_eq_getElem hlt, hslot]

theorem why_of_refuses {why : Dropped} (h : p.refuses hdr = some why) :
    why = .otherCount ∨ why = .otherCodec ∨ why = .otherPts ∨ why = .duplicate := by
  unfold refuses at h
  grind

@[simp] theorem length_chunks_store : (p.store hdr chunk).chunks.length = p.chunks.length :=
  List.length_set

theorem stored_store (chunk : Bytes) (h : p.chunks[hdr.fragIdx]? = some none) :
    (p.store hdr chunk).stored = p.stored + chunk.length :=
  Tally.sum_map_set (w := fun c : Option Bytes => (c.getD []).length) h (some chunk)

theorem filled_store (chunk : Bytes) (h : p.chunks[hdr.fragIdx]? = some none) :
    (p.store hdr chunk).filled = p.filled + 1 := by
  obtain ⟨hlt, hslot⟩ := List.getElem?_eq_some_iff.mp h
  unfold filled store
  dsimp only
  rw [List.countP_set hlt, hslot]
  rfl

theorem signed_store (hvalid : hdr.Valid) (hp : p.Sound)
    (h : (p.store hdr chunk).hasChunk 0 = true) :
    (p.store hdr chunk).signature.isSome = true := by
  have hsigned := hvalid.signed
  unfold store
  dsimp only
  by_cases hidx : hdr.fragIdx = 0
  · rw [hidx, beq_self_eq_true] at hsigned
    rw [Option.isSome_or, hsigned, Bool.true_or]
  · have hold : p.hasChunk 0 = true := by
      unfold hasChunk store at h
      dsimp only at h
      rwa [List.getElem?_set_ne hidx] at h
    rw [Option.isSome_or, hp.signed hold, Bool.or_true]

theorem Sound.store (hp : p.Sound) (hvalid : hdr.Valid) (hrefuses : p.refuses hdr = none)
    (hmore : (p.store hdr chunk).received < hdr.fragCount) : (p.store hdr chunk).Sound := by
  obtain ⟨hlen, hslot⟩ := slot_of_refuses hvalid hrefuses
  refine ⟨?_, ?_, ?_, ?_, signed_store hvalid hp⟩
  · rw [length_chunks_store]
    exact hp.slots
  · rw [filled_store _ hslot, ← hp.received]
    rfl
  · rw [length_chunks_store, hlen]
    exact hmore
  · rw [stored_store _ hslot, ← hp.bytes]
    rfl

theorem all_of_store (chunk : Bytes) (hp : p.Sound) (hvalid : hdr.Valid) (hrefuses : p.refuses hdr = none)
    (hlast : ¬ (p.store hdr chunk).received < hdr.fragCount) :
    (p.store hdr chunk).chunks.all Option.isSome = true ∧
      (p.store hdr chunk).signature.isSome = true := by
  obtain ⟨hlen, hslot⟩ := slot_of_refuses hvalid hrefuses
  have hreceived : (p.store hdr chunk).received = p.received + 1 := rfl
  have hopen := hp.isOpen
  have hall : (p.store hdr chunk).chunks.all Option.isSome = true := by
    rw [List.all_eq_true, ← List.countP_eq_length, length_chunks_store]
    have hfilled := filled_store chunk hslot
    have hcount : (p.store hdr chunk).chunks.countP Option.isSome = p.filled + 1 := hfilled
    rw [hcount, ← hp.received]
    omega
  refine ⟨hall, signed_store hvalid hp ?_⟩
  have hfirst : 0 < (p.store hdr chunk).chunks.length := by
    rw [length_chunks_store]
    omega
  unfold hasChunk
  rw [List.getElem?_eq_getElem hfirst]
  exact List.all_eq_true.mp hall _ (List.getElem_mem hfirst)

end PartialFrame

/-! ## Senders -/

namespace SenderState

/-- A sender keeps to its caps, and its counter counts the bytes of its partials. -/
structure Sound (s : SenderState) : Prop where
  inFlight : Tally.size s.partials ≤ maxInFlightPerSender
  bytes : s.bytes = Tally.total PartialFrame.stored s.partials
  budget : s.bytes ≤ maxPartialBytesPerSender
  partials : ∀ seq p, s.partials.lookup seq = some p → p.Sound

variable {v : VisitOrder} {s : SenderState} {hdr : FragmentHeader} {chunk : Bytes} {now : Nat}
  {seq other : UInt32} {p : PartialFrame}

theorem sound_new : Sound {} where
  inFlight := Nat.zero_le _
  bytes := rfl
  budget := Nat.zero_le _
  partials seq p h := by cases h

@[simp] theorem partials_dropPartial (s : SenderState) (seq : UInt32) :
    (s.dropPartial seq).partials = s.partials.erase seq := by
  unfold dropPartial
  cases h : s.partials.lookup seq with
  | none => exact (Tally.erase_of_lookup_eq_none h).symm
  | some p => rfl

@[simp] theorem lastCompleted_dropPartial (s : SenderState) (seq : UInt32) :
    (s.dropPartial seq).lastCompleted = s.lastCompleted := by
  unfold dropPartial
  split
  · rfl
  · rfl

theorem Sound.dropPartial (h : s.Sound) (seq : UInt32) : (s.dropPartial seq).Sound := by
  refine ⟨?_, ?_, ?_, ?_⟩
  · rw [partials_dropPartial]
    exact (Tally.size_erase_le seq).trans h.inFlight
  · rw [partials_dropPartial]
    unfold SenderState.dropPartial
    cases hp : s.partials.lookup seq with
    | none =>
      rw [Tally.erase_of_lookup_eq_none hp]
      exact h.bytes
    | some p =>
      have hsum := Tally.total_erase_add (w := PartialFrame.stored) hp
      have hbytes := (h.partials seq p hp).bytes
      have htotal := h.bytes
      dsimp only
      omega
  · have hbudget := h.budget
    unfold SenderState.dropPartial
    split
    · dsimp only
      omega
    · exact hbudget
  · intro other p hp
    rw [partials_dropPartial] at hp
    exact h.partials other p (Tally.lookup_of_lookup_erase hp).2

theorem Sound.foldl_dropPartial (h : s.Sound) (seqs : List UInt32) :
    (seqs.foldl SenderState.dropPartial s).Sound := by
  induction seqs generalizing s with
  | nil => exact h
  | cons seq seqs ih => exact ih (h.dropPartial seq)

theorem Sound.evictExpired (h : s.Sound) (now : Nat) : (s.evictExpired now).Sound :=
  h.foldl_dropPartial _

theorem mem_of_oldest? (h : s.oldest? v = some seq) : seq ∈ s.partials := by
  obtain ⟨e, he, rfl⟩ := Option.map_eq_some_iff.mp h
  have hmem := (v.perm _).mem_iff.mp (List.argmin_mem he)
  exact AList.mem_keys.mpr (List.mem_map_of_mem hmem)

theorem exists_oldest? (v : VisitOrder) (h : 0 < Tally.size s.partials) :
    ∃ seq, s.oldest? v = some seq := by
  unfold oldest?
  cases hmin : (v.order s.partials.entries).argmin fun e => e.2.firstSeen with
  | none =>
    rw [List.argmin_eq_none] at hmin
    have hlen := (v.perm s.partials.entries).length_eq
    rw [hmin] at hlen
    exact absurd h (by rw [Tally.size, ← hlen]; exact Nat.lt_irrefl 0)
  | some e => exact ⟨e.1, rfl⟩

theorem evictOldest_cases (v : VisitOrder) (s : SenderState) :
    s.evictOldest v = s ∨ ∃ seq, s.oldest? v = some seq ∧ s.evictOldest v = s.dropPartial seq := by
  unfold evictOldest
  cases h : s.oldest? v with
  | none => exact .inl rfl
  | some seq => exact .inr ⟨seq, rfl, rfl⟩

theorem Sound.evictOldest (h : s.Sound) (v : VisitOrder) : (s.evictOldest v).Sound := by
  rcases evictOldest_cases v s with heq | ⟨seq, -, heq⟩
  · rw [heq]
    exact h
  · rw [heq]
    exact h.dropPartial seq

theorem size_evictOldest (v : VisitOrder) (h : 0 < Tally.size s.partials) :
    Tally.size (s.evictOldest v).partials + 1 = Tally.size s.partials := by
  obtain ⟨seq, hseq⟩ := exists_oldest? v h
  unfold evictOldest
  rw [hseq]
  dsimp only
  rw [partials_dropPartial]
  exact Tally.size_erase_add_one (mem_of_oldest? hseq)

theorem Sound.gate (h : s.Sound) {s' : SenderState} (hgate : s.gate hdr = some s') : s'.Sound := by
  unfold SenderState.gate at hgate
  split at hgate
  · cases hgate
    exact h
  · split at hgate
    · split at hgate
      · cases hgate
        exact sound_new
      · cases hgate
    · cases hgate
      exact h

theorem Sound.makeRoom (h : s.Sound) (v : VisitOrder) (seq : UInt32) :
    (s.makeRoom v seq).Sound := by
  unfold SenderState.makeRoom
  split
  · exact h.evictOldest v
  · exact h

theorem Sound.room (h : s.Sound) (v : VisitOrder)
    (hnone : (s.makeRoom v seq).partials.lookup seq = none) :
    Tally.size (s.makeRoom v seq).partials < maxInFlightPerSender := by
  have hcap := h.inFlight
  unfold SenderState.makeRoom at hnone ⊢
  split at hnone
  · next hfull =>
    rw [if_pos hfull]
    have hpos : 0 < Tally.size s.partials := lt_of_lt_of_le (by decide) hfull.2
    have hsize := size_evictOldest v hpos
    omega
  · next hroom =>
    rw [if_neg hroom]
    have hlt : ¬ maxInFlightPerSender ≤ Tally.size s.partials := fun hfull =>
      hroom ⟨AList.lookup_eq_none.mp hnone, hfull⟩
    omega

/-! ### Opening and shedding -/

theorem lookup_openPartial (s : SenderState) (hdr : FragmentHeader) (now : Nat) :
    (s.openPartial hdr now).2.partials.lookup hdr.frameSeq = some (s.openPartial hdr now).1 := by
  unfold openPartial
  cases h : s.partials.lookup hdr.frameSeq with
  | none => exact AList.lookup_insert s.partials
  | some entry => exact h

theorem Sound.openPartial (h : s.Sound) (hvalid : hdr.Valid) (now : Nat)
    (hroom : s.partials.lookup hdr.frameSeq = none →
      Tally.size s.partials < maxInFlightPerSender) : (s.openPartial hdr now).2.Sound := by
  unfold SenderState.openPartial
  cases hnone : s.partials.lookup hdr.frameSeq with
  | some entry => exact h
  | none =>
    have hsize := Tally.size_insert_of_lookup_eq_none (v := PartialFrame.new hdr now) hnone
    have hcap := hroom hnone
    refine ⟨?_, ?_, h.budget, ?_⟩
    · dsimp only
      omega
    · dsimp only
      rw [Tally.total_insert, PartialFrame.stored_new, Tally.erase_of_lookup_eq_none hnone,
        Nat.zero_add]
      exact h.bytes
    · intro other p hp
      dsimp only at hp
      by_cases hother : other = hdr.frameSeq
      · subst hother
        rw [AList.lookup_insert] at hp
        cases hp
        exact PartialFrame.sound_new hdr hvalid now
      · rw [Tally.lookup_insert_of_ne hother] at hp
        exact h.partials other p hp

theorem Sound.shed (h : s.Sound) (v : VisitOrder) (len fuel : Nat) :
    (SenderState.shed v len fuel s).Sound := by
  induction fuel generalizing s with
  | zero => exact h
  | succ fuel ih =>
    rw [SenderState.shed]
    split
    · exact ih (h.evictOldest v)
    · exact h

theorem lookup_of_lookup_evictOldest (h : (s.evictOldest v).partials.lookup seq = some p) :
    s.partials.lookup seq = some p := by
  rcases evictOldest_cases v s with heq | ⟨other, -, heq⟩
  · rw [heq] at h
    exact h
  · rw [heq, partials_dropPartial] at h
    exact (Tally.lookup_of_lookup_erase h).2

theorem lookup_of_lookup_shed {len fuel : Nat}
    (h : (shed v len fuel s).partials.lookup seq = some p) : s.partials.lookup seq = some p := by
  induction fuel generalizing s with
  | zero => exact h
  | succ fuel ih =>
    rw [shed] at h
    split at h
    · exact lookup_of_lookup_evictOldest (ih h)
    · exact h

theorem lastCompleted_evictOldest (v : VisitOrder) (s : SenderState) :
    (s.evictOldest v).lastCompleted = s.lastCompleted := by
  rcases evictOldest_cases v s with heq | ⟨other, -, heq⟩
  · rw [heq]
  · rw [heq, lastCompleted_dropPartial]

theorem lastCompleted_shed (v : VisitOrder) (len fuel : Nat) (s : SenderState) :
    (shed v len fuel s).lastCompleted = s.lastCompleted := by
  induction fuel generalizing s with
  | zero => rfl
  | succ fuel ih =>
    rw [shed]
    split
    · rw [ih, lastCompleted_evictOldest]
    · rfl

theorem makeBudget_cases (v : VisitOrder) (s : SenderState) (seq : UInt32) (len : Nat) :
    (∃ s' : SenderState, s.makeBudget v seq len = (s', true) ∧ s'.bytes + len ≤ maxPartialBytesPerSender ∧
      s'.lastCompleted = s.lastCompleted ∧ (s.Sound → s'.Sound) ∧
      ∀ other p, s'.partials.lookup other = some p → s.partials.lookup other = some p) ∨
    (∃ s' : SenderState, s.makeBudget v seq len = (s'.dropPartial seq, false) ∧
      s'.lastCompleted = s.lastCompleted ∧ (s.Sound → s'.Sound) ∧
      ∀ other p, s'.partials.lookup other = some p → s.partials.lookup other = some p) := by
  unfold makeBudget
  split
  · dsimp only
    split
    · exact .inr ⟨_, rfl, lastCompleted_shed v len _ s, fun h => h.shed v len _,
        fun _ _ => lookup_of_lookup_shed⟩
    · next hfits =>
      exact .inl ⟨_, rfl, Nat.not_lt.mp hfits, lastCompleted_shed v len _ s,
        fun h => h.shed v len _, fun _ _ => lookup_of_lookup_shed⟩
  · next hfits => exact .inl ⟨s, rfl, Nat.not_lt.mp hfits, rfl, id, fun _ _ => id⟩

/-! ### Storing -/

theorem Sound.storeChunk (h : s.Sound) (hvalid : hdr.Valid)
    (hentry : s.partials.lookup hdr.frameSeq = some p) (hrefuses : p.refuses hdr = none)
    (hbudget : s.bytes + chunk.length ≤ maxPartialBytesPerSender)
    (hmore : (p.store hdr chunk).received < hdr.fragCount) :
    (s.storeChunk hdr p chunk).Sound := by
  obtain ⟨-, hslot⟩ := PartialFrame.slot_of_refuses hvalid hrefuses
  refine ⟨?_, ?_, hbudget, ?_⟩
  · unfold SenderState.storeChunk
    dsimp only
    rw [Tally.size_insert_of_mem (Tally.mem_of_lookup hentry)]
    exact h.inFlight
  · have hsum := Tally.total_erase_add (w := PartialFrame.stored) hentry
    have hbytes := h.bytes
    unfold SenderState.storeChunk
    dsimp only
    rw [Tally.total_insert, PartialFrame.stored_store _ hslot]
    omega
  · intro other q hq
    unfold SenderState.storeChunk at hq
    dsimp only at hq
    by_cases hother : other = hdr.frameSeq
    · subst hother
      rw [AList.lookup_insert] at hq
      cases hq
      exact (h.partials _ p hentry).store hvalid hrefuses hmore
    · rw [Tally.lookup_insert_of_ne hother] at hq
      exact h.partials other q hq

theorem dropPartial_storeChunk (hentry : s.partials.lookup hdr.frameSeq = some p) :
    (s.storeChunk hdr p chunk).dropPartial hdr.frameSeq = s.dropPartial hdr.frameSeq := by
  have hstored : (s.storeChunk hdr p chunk).partials.lookup hdr.frameSeq =
      some (p.store hdr chunk) := AList.lookup_insert s.partials
  unfold dropPartial
  rw [hstored, hentry]
  have hbytes : s.bytes + chunk.length - (p.store hdr chunk).bytes = s.bytes - p.bytes := by
    unfold PartialFrame.store
    dsimp only
    omega
  unfold storeChunk
  dsimp only
  rw [Tally.erase_insert, hbytes]

theorem Sound.noteCompleted (h : s.Sound) (seq : UInt32) : (s.noteCompleted seq).Sound := by
  unfold SenderState.noteCompleted
  split
  · have hnoted : Sound { s with lastCompleted := some seq } :=
      ⟨h.inFlight, h.bytes, h.budget, h.partials⟩
    exact hnoted.foldl_dropPartial _
  · exact h

theorem complete_eq {entry : PartialFrame} (hall : entry.chunks.all Option.isSome = true)
    (hsigned : entry.signature.isSome = true) :
    ∃ signature, entry.signature = some signature ∧
      s.complete hdr entry = ((s.dropPartial hdr.frameSeq).noteCompleted hdr.frameSeq, .ok {
        sender := hdr.sender
        frameSeq := hdr.frameSeq
        keyframe := entry.keyframe
        codec := entry.codec
        ptsUs := entry.ptsUs
        signature := signature
        sealedFrame := (entry.chunks.filterMap id).flatten }) := by
  obtain ⟨signature, hsignature⟩ := Option.isSome_iff_exists.mp hsigned
  refine ⟨signature, hsignature, ?_⟩
  unfold complete
  rw [hsignature]
  dsimp only
  rw [if_pos hall]

/-! ### A fragment -/

/-- What a fragment of a sender does. -/
inductive Pushed (v : VisitOrder) (s : SenderState) (hdr : FragmentHeader) (chunk : Bytes)
    (now : Nat) : SenderState × PushResult → Prop
  | superseded : s.gate hdr = none → Pushed v s hdr chunk now (s, .error .superseded)
  | refused {g : SenderState} {why : Dropped} : s.gate hdr = some g →
      ((g.makeRoom v hdr.frameSeq).openPartial hdr now).1.refuses hdr = some why →
      Pushed v s hdr chunk now
        (((g.makeRoom v hdr.frameSeq).openPartial hdr now).2, .error why)
  | overBudget {g b : SenderState} : s.gate hdr = some g →
      ((g.makeRoom v hdr.frameSeq).openPartial hdr now).2.makeBudget v hdr.frameSeq
        chunk.length = (b, false) → Pushed v s hdr chunk now (b, .error .overBudget)
  | evicted {g b : SenderState} : s.gate hdr = some g →
      ((g.makeRoom v hdr.frameSeq).openPartial hdr now).2.makeBudget v hdr.frameSeq
        chunk.length = (b, true) → b.partials.lookup hdr.frameSeq = none →
      Pushed v s hdr chunk now (b, .error .evicted)
  | stored {g b : SenderState} {entry : PartialFrame} : s.gate hdr = some g →
      ((g.makeRoom v hdr.frameSeq).openPartial hdr now).1 = entry →
      entry.refuses hdr = none →
      ((g.makeRoom v hdr.frameSeq).openPartial hdr now).2.makeBudget v hdr.frameSeq
        chunk.length = (b, true) → b.partials.lookup hdr.frameSeq = some entry →
      (entry.store hdr chunk).received < hdr.fragCount →
      Pushed v s hdr chunk now (b.storeChunk hdr entry chunk, .error .incomplete)
  | completed {g b : SenderState} {entry : PartialFrame} : s.gate hdr = some g →
      ((g.makeRoom v hdr.frameSeq).openPartial hdr now).1 = entry →
      entry.refuses hdr = none →
      ((g.makeRoom v hdr.frameSeq).openPartial hdr now).2.makeBudget v hdr.frameSeq
        chunk.length = (b, true) → b.partials.lookup hdr.frameSeq = some entry →
      ¬ (entry.store hdr chunk).received < hdr.fragCount →
      Pushed v s hdr chunk now
        ((b.storeChunk hdr entry chunk).complete hdr (entry.store hdr chunk))

theorem pushed (v : VisitOrder) (s : SenderState) (hdr : FragmentHeader) (chunk : Bytes)
    (now : Nat) : Pushed v s hdr chunk now (s.push v hdr chunk now) := by
  unfold push
  cases hgate : s.gate hdr with
  | none => exact .superseded hgate
  | some g =>
    dsimp only
    cases hrefuses : ((g.makeRoom v hdr.frameSeq).openPartial hdr now).1.refuses hdr with
    | some why => exact .refused hgate hrefuses
    | none =>
      have hopen := lookup_openPartial (g.makeRoom v hdr.frameSeq) hdr now
      dsimp only
      rcases makeBudget_cases v ((g.makeRoom v hdr.frameSeq).openPartial hdr now).2 hdr.frameSeq
        chunk.length with ⟨b, hb, -, -, -, hsub⟩ | ⟨b, hb, -⟩
      · rw [hb]
        dsimp only
        rw [if_pos rfl]
        cases hlookup : b.partials.lookup hdr.frameSeq with
        | none => exact .evicted hgate hb hlookup
        | some entry =>
          have hentry := hsub _ _ hlookup
          rw [hopen] at hentry
          have hsame := Option.some.inj hentry
          rw [hsame] at hrefuses
          dsimp only
          split
          · next hmore => exact .stored hgate hsame hrefuses hb hlookup hmore
          · next hlast => exact .completed hgate hsame hrefuses hb hlookup hlast
      · rw [hb]
        exact .overBudget hgate hb

theorem Sound.opened (h : s.Sound) (hvalid : hdr.Valid) (v : VisitOrder) (now : Nat)
    {g : SenderState} (hgate : s.gate hdr = some g) :
    ((g.makeRoom v hdr.frameSeq).openPartial hdr now).2.Sound :=
  ((h.gate hgate).makeRoom v hdr.frameSeq).openPartial hvalid now ((h.gate hgate).room v)

theorem Sound.makeBudget (h : s.Sound) {len : Nat} {b : SenderState} {fits : Bool}
    (hb : s.makeBudget v seq len = (b, fits)) :
    b.Sound ∧ (fits = true → b.bytes + len ≤ maxPartialBytesPerSender) := by
  rcases makeBudget_cases v s seq len with ⟨b', hb', hle, -, hsound, -⟩ | ⟨b', hb', -, hsound, -⟩
  · rw [hb'] at hb
    cases hb
    exact ⟨hsound h, fun _ => hle⟩
  · rw [hb'] at hb
    cases hb
    exact ⟨(hsound h).dropPartial seq, fun hfits => nomatch hfits⟩

/-- A fragment keeps a sender to its caps, and a frame without a signature or with a slot
missing never gets to its end. -/
theorem Sound.push (h : s.Sound) (hvalid : hdr.Valid) (v : VisitOrder) (chunk : Bytes)
    (now : Nat) : (s.push v hdr chunk now).1.Sound ∧
      (s.push v hdr chunk now).2 ≠ .error .noSignature ∧
      (s.push v hdr chunk now).2 ≠ .error .missingSlot := by
  have hpushed := pushed v s hdr chunk now
  generalize s.push v hdr chunk now = after at *
  cases hpushed with
  | superseded hgate => exact ⟨h, nofun, nofun⟩
  | @refused g why hgate hrefuses =>
    have hwhy : why ≠ .noSignature ∧ why ≠ .missingSlot := by
      rcases PartialFrame.why_of_refuses hrefuses with rfl | rfl | rfl | rfl
      all_goals exact ⟨nofun, nofun⟩
    exact ⟨h.opened hvalid v now hgate, fun heq => hwhy.1 (Except.error.inj heq),
      fun heq => hwhy.2 (Except.error.inj heq)⟩
  | overBudget hgate hb => exact ⟨((h.opened hvalid v now hgate).makeBudget hb).1, nofun, nofun⟩
  | evicted hgate hb => exact ⟨((h.opened hvalid v now hgate).makeBudget hb).1, nofun, nofun⟩
  | stored hgate hentry hrefuses hb hlookup hmore =>
    obtain ⟨hbSound, hfits⟩ := (h.opened hvalid v now hgate).makeBudget hb
    exact ⟨hbSound.storeChunk hvalid hlookup hrefuses (hfits rfl) hmore, nofun, nofun⟩
  | completed hgate hentry hrefuses hb hlookup hlast =>
    obtain ⟨hbSound, -⟩ := (h.opened hvalid v now hgate).makeBudget hb
    obtain ⟨hall, hsigned⟩ :=
      PartialFrame.all_of_store chunk (hbSound.partials _ _ hlookup) hvalid hrefuses
        hlast
    obtain ⟨signature, -, heq⟩ := complete_eq hall hsigned
    rw [heq, dropPartial_storeChunk hlookup]
    exact ⟨(hbSound.dropPartial _).noteCompleted _, nofun, nofun⟩

end SenderState

/-! ## The reassembler -/

namespace Reassembler

/-- Few senders are tracked, each within its caps. -/
structure Sound (r : Reassembler) : Prop where
  tracked : r.trackedSenders ≤ maxSenders
  senders : ∀ (sender : String) (s : SenderState), r.senders[sender]? = some s → s.Sound

variable {r : Reassembler}

theorem sound_new : Sound {} where
  tracked := Nat.zero_le _
  senders sender s h := by simp at h

theorem getElem?_evictExpired (r : Reassembler) (now : Nat) (sender : String) :
    (r.evictExpired now).senders[sender]? = r.senders[sender]?.bind fun s =>
      if (s.evictExpired now).partials.entries.isEmpty &&
        (s.evictExpired now).lastCompleted.isNone then none else some (s.evictExpired now) :=
  ExtTreeMap.getElem?_filterMap'

theorem Sound.evictExpired (h : r.Sound) (now : Nat) : (r.evictExpired now).Sound where
  tracked := ExtTreeMap.size_filterMap_le_size.trans h.tracked
  senders sender s hs := by
    rw [getElem?_evictExpired] at hs
    obtain ⟨old, hold, hkept⟩ := Option.bind_eq_some_iff.mp hs
    split at hkept
    · cases hkept
    · cases hkept
      exact (h.senders sender old hold).evictExpired now

theorem Sound.insert (h : r.Sound) {sender : String} {s : SenderState} (hs : s.Sound)
    (hroom : ¬ (sender ∉ r.senders ∧ maxSenders ≤ r.senders.size)) :
    Sound { senders := r.senders.insert sender s } where
  tracked := by
    have hcap := h.tracked
    unfold trackedSenders at hcap ⊢
    rw [ExtTreeMap.size_insert]
    split
    · exact hcap
    · next hnew =>
      have hlt : ¬ maxSenders ≤ r.senders.size := fun hfull => hroom ⟨hnew, hfull⟩
      omega
  senders other s' hs' := by
    rw [ExtTreeMap.getElem?_insert] at hs'
    split at hs'
    · cases hs'
      exact hs
    · exact h.senders other s' hs'

theorem Sound.getD (h : r.Sound) (sender : String) : (r.senders[sender]?.getD {}).Sound := by
  cases hs : r.senders[sender]? with
  | none => exact SenderState.sound_new
  | some s => exact h.senders sender s hs

theorem Sound.push (h : r.Sound) (v : VisitOrder) (buf : Bytes) (now : Nat) :
    (r.push v buf now).1.Sound ∧ (r.push v buf now).2 ≠ .error .noSignature ∧
      (r.push v buf now).2 ≠ .error .missingSlot := by
  unfold Reassembler.push
  cases hparse : parseFragment buf with
  | none => exact ⟨h, nofun, nofun⟩
  | some parsed =>
    obtain ⟨hdr, chunk⟩ := parsed
    have hevicted := h.evictExpired now
    dsimp only
    split
    · exact ⟨hevicted, nofun, nofun⟩
    · next hroom =>
      obtain ⟨hsound, hexits⟩ :=
        (hevicted.getD hdr.sender).push (valid_of_parseFragment hparse) v chunk now
      exact ⟨hevicted.insert hsound hroom, hexits⟩

theorem Sound.step (h : r.Sound) (e : ReassemblerEvent) : (r.step e).Sound := by
  cases e with
  | push a => exact (h.push a.order a.buf a.now).1
  | evictExpired now => exact h.evictExpired now
  | clear => exact sound_new

end Reassembler

/-- Whatever came in so far, the caps hold and the counters are right, and whatever comes
in next, no frame is found complete without a signature or with a slot missing. -/
theorem reassembler_bounded (events : List ReassemblerEvent) :
    (Run.run Reassembler.step {} events).Sound ∧
      ∀ (v : VisitOrder) (buf : Bytes) (now : Nat),
        ((Run.run Reassembler.step {} events).push v buf now).2 ≠ .error .noSignature ∧
          ((Run.run Reassembler.step {} events).push v buf now).2 ≠ .error .missingSlot := by
  have hsound : (Run.run Reassembler.step {} events).Sound :=
    Run.run_inv Reassembler.Sound Reassembler.sound_new fun _ e h => h.step e
  exact ⟨hsound, fun v buf now => (hsound.push v buf now).2⟩

end ConquerD.Client.Video
