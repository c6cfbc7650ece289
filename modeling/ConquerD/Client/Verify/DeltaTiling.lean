import ConquerD.Client.FileTransfer
import ConquerD.Client.Verify.Delta

/-!
# The opcodes of a delta tile the new file

The search for matches comes to its end, and what it wrote reads as opcodes: copies
that lie inside the old file and inserts that are not empty, together as long as the
new one.
-/

namespace ConquerD.Client

open Lib.Encoding

/-! ## Opcodes -/

inductive Opcode where
  | copy (src len : Nat)
  | insert (seg : Bytes)

namespace Opcode

def encode : Opcode → Bytes
  | copy src len => 0 :: (toBeBytes src ++ toBeBytes len)
  | insert seg => 1 :: (toBeBytes seg.length ++ seg)

/-- Length of what the opcode writes. -/
def size : Opcode → Nat
  | copy _ len => len
  | insert seg => seg.length

/-- A copy inside the old file or an insert of something. -/
def Inside (old : Bytes) : Opcode → Prop
  | copy src len => src + len ≤ old.length
  | insert seg => seg ≠ []

/-- The numbers of the opcode fit in four bytes. -/
def Fits : Opcode → Prop
  | copy src len => src < 2 ^ 32 ∧ len < 2 ^ 32
  | insert seg => seg.length < 2 ^ 32

end Opcode

/-- The opcodes of a stream. Every opcode takes a byte, so as many turns as there are
bytes are enough. -/
def readOpcodes : (turns : Nat) → (raw : Bytes) → Option (List Opcode)
  | _, [] => some []
  | 0, _ :: _ => none
  | turns + 1, tag :: raw =>
    if tag = 0 then
      if raw.length < 8 then none
      else
        (readOpcodes turns (raw.drop 8)).map
          (.copy (fromBeBytes (raw.take 4)) (fromBeBytes ((raw.drop 4).take 4)) :: ·)
    else if tag = 1 then
      let len := fromBeBytes (raw.take 4)
      if raw.length < 4 + len then none
      else (readOpcodes turns (raw.drop (4 + len))).map (.insert ((raw.drop 4).take len) :: ·)
    else none

section Read

variable {turns : Nat} {rest : Bytes}

theorem readOpcodes_copy {src len : Nat} (hsrc : src < 2 ^ 32) (hlen : len < 2 ^ 32) :
    readOpcodes (turns + 1) ((Opcode.copy src len).encode ++ rest) =
      (readOpcodes turns rest).map (.copy src len :: ·) := by
  have hraw : ¬ (toBeBytes src ++ toBeBytes len ++ rest).length < 8 := by
    simp only [List.length_append, length_toBeBytes]
    omega
  have ha : (toBeBytes src ++ toBeBytes len ++ rest).take 4 = toBeBytes src := rfl
  have hb : ((toBeBytes src ++ toBeBytes len ++ rest).drop 4).take 4 = toBeBytes len := rfl
  have hdrop : (toBeBytes src ++ toBeBytes len ++ rest).drop 8 = rest := rfl
  simp only [Opcode.encode, List.cons_append, readOpcodes, if_true]
  rw [if_neg hraw, ha, hb, hdrop, fromBeBytes_toBeBytes hsrc, fromBeBytes_toBeBytes hlen]

theorem readOpcodes_insert {seg : Bytes} (hlen : seg.length < 2 ^ 32) :
    readOpcodes (turns + 1) ((Opcode.insert seg).encode ++ rest) =
      (readOpcodes turns rest).map (.insert seg :: ·) := by
  have hnum : (toBeBytes seg.length ++ seg ++ rest).take 4 = toBeBytes seg.length := rfl
  have hfour : (toBeBytes seg.length ++ seg ++ rest).drop 4 = seg ++ rest := rfl
  have hdrop : (toBeBytes seg.length ++ seg ++ rest).drop (4 + seg.length) = rest := by
    rw [← List.drop_drop, hfour, List.drop_left]
  have hraw : ¬ (toBeBytes seg.length ++ seg ++ rest).length < 4 + seg.length := by
    simp only [List.length_append, length_toBeBytes]
    omega
  have htag : (1 : UInt8) ≠ 0 := by decide
  simp only [Opcode.encode, List.cons_append, readOpcodes, if_neg htag, if_true]
  rw [hnum, fromBeBytes_toBeBytes hlen, if_neg hraw, hfour, hdrop, List.take_left]

theorem readOpcodes_encode {ops : List Opcode} (hfits : ∀ op ∈ ops, op.Fits)
    (hturns : (ops.flatMap Opcode.encode).length ≤ turns) :
    readOpcodes turns (ops.flatMap Opcode.encode) = some ops := by
  induction ops generalizing turns with
  | nil => cases turns <;> rfl
  | cons op ops ih =>
    have hrest : ∀ op ∈ ops, op.Fits := fun op hop => hfits op (List.mem_cons_of_mem _ hop)
    have hpos : op.encode.length ≠ 0 := by cases op <;> simp [Opcode.encode]
    rw [List.flatMap_cons] at hturns ⊢
    rw [List.length_append] at hturns
    obtain ⟨turns, rfl⟩ := Nat.exists_eq_succ_of_ne_zero (show turns ≠ 0 by omega)
    have hread : readOpcodes turns (ops.flatMap Opcode.encode) = some ops := ih hrest (by omega)
    cases op with
    | copy src len =>
      obtain ⟨hsrc, hlen⟩ := hfits _ List.mem_cons_self
      rw [readOpcodes_copy hsrc hlen, hread, Option.map_some]
    | insert seg =>
      rw [readOpcodes_insert (hfits _ List.mem_cons_self), hread, Option.map_some]

end Read

/-! ## What the search writes -/

/-- The buffer is written by opcodes that lie inside the files and are as long as the
part of the new file. -/
def Tiles (old : Bytes) (n : Nat) (buf : Bytes) : Prop :=
  ∃ ops : List Opcode, buf = ops.flatMap Opcode.encode ∧
    (∀ op ∈ ops, op.Inside old ∧ op.Fits) ∧ (ops.map Opcode.size).sum = n

section Search

variable {old new buf : Bytes} {n j pendingStart : Nat}

theorem Tiles.nil (old : Bytes) : Tiles old 0 [] :=
  ⟨[], rfl, by simp, rfl⟩

theorem Tiles.snoc (h : Tiles old n buf) (op : Opcode) (hin : op.Inside old) (hfits : op.Fits) :
    Tiles old (n + op.size) (buf ++ op.encode) := by
  obtain ⟨ops, rfl, hops, rfl⟩ := h
  refine ⟨ops ++ [op], by simp, ?_, by simp⟩
  intro op' hop'
  rcases List.mem_append.mp hop' with hop' | hop'
  · exact hops op' hop'
  · cases List.mem_singleton.mp hop'
    exact ⟨hin, hfits⟩

theorem Tiles.flush (h : Tiles old pendingStart buf) (hlt : pendingStart < j)
    (hj : j ≤ new.length) (hlen : new.length < 2 ^ 32) :
    Tiles old j (writeInsert buf ((new.drop pendingStart).take (j - pendingStart))) := by
  generalize hseg : (new.drop pendingStart).take (j - pendingStart) = seg
  have hsize : seg.length = j - pendingStart := by
    rw [← hseg, List.length_take, List.length_drop]
    omega
  have hne : seg ≠ [] := by
    rw [← List.length_pos_iff]
    omega
  have hfits : seg.length < 2 ^ 32 := by omega
  have htiles := h.snoc (.insert seg) hne hfits
  have hend : pendingStart + (Opcode.insert seg).size = j := by
    simp only [Opcode.size]
    omega
  rw [hend] at htiles
  simpa [writeInsert, hne, Opcode.encode] using htiles

theorem Tiles.copy (h : Tiles old pendingStart buf) (hle : pendingStart ≤ j)
    (hlen : new.length < 2 ^ 32) {src len : Nat} (hmatch : matchAt old new j = some (src, len)) :
    Tiles old (j + len) (writeCopy (if pendingStart < j then
      writeInsert buf ((new.drop pendingStart).take (j - pendingStart)) else buf) src len) := by
  obtain ⟨-, hsrc, hold, hnew, -⟩ := matchAt_spec hmatch
  have hflushed : Tiles old j (if pendingStart < j then
      writeInsert buf ((new.drop pendingStart).take (j - pendingStart)) else buf) := by
    split
    · next hlt => exact h.flush hlt (by omega) hlen
    · obtain rfl : pendingStart = j := by omega
      exact h
  exact hflushed.snoc (.copy src len) hold ⟨hsrc, by omega⟩

theorem diffOpcodes_tiles (old : Bytes) {new : Bytes} (hlen : new.length < 2 ^ 32) :
    Tiles old new.length (diffOpcodes old new) := by
  unfold diffOpcodes
  split
  · next hsame =>
    subst hsame
    have hwhole : (Opcode.copy 0 old.length).Inside old := by simp [Opcode.Inside]
    have hcopy := (Tiles.nil old).snoc (.copy 0 old.length) hwhole ⟨by decide, hlen⟩
    rwa [Nat.zero_add] at hcopy
  · obtain ⟨htiles, hin⟩ := diffLoop_inv (Tiles old)
      (fun _ _ _ _ _ hle hmatch h => h.copy hle hlen hmatch) new.length (Tiles.nil old)
      (le_refl 0) (Nat.zero_le _)
    generalize diffLoop old new new.length 0 0 [] = r at htiles hin
    obtain ⟨pendingStart, buf⟩ := r
    simp only at htiles hin ⊢
    split
    · next hlt =>
      have hflushed := htiles.flush hlt (le_refl _) hlen
      rwa [List.take_of_length_le (l := new.drop pendingStart) (by rw [List.length_drop])]
        at hflushed
    · next hnot =>
      obtain rfl : pendingStart = new.length := by omega
      exact htiles

end Search

/-! ## The end of the search -/

/-- The loop of the search, turn by turn until no window is left. -/
inductive DiffRuns (old new : Bytes) : (j pendingStart : Nat) → (buf : Bytes) → Nat × Bytes → Prop
  | done {j pendingStart buf} (hend : ¬ j + window ≤ new.length) :
      DiffRuns old new j pendingStart buf (pendingStart, buf)
  | copy {j pendingStart buf src len r} (hwindow : j + window ≤ new.length)
      (hmatch : matchAt old new j = some (src, len))
      (hrest : DiffRuns old new (j + len) (j + len)
        (writeCopy (if pendingStart < j then
          writeInsert buf ((new.drop pendingStart).take (j - pendingStart)) else buf) src len) r) :
      DiffRuns old new j pendingStart buf r
  | skip {j pendingStart buf r} (hwindow : j + window ≤ new.length)
      (hmatch : matchAt old new j = none) (hrest : DiffRuns old new (j + 1) pendingStart buf r) :
      DiffRuns old new j pendingStart buf r

theorem diffLoop_runs {old new : Bytes} {turns j : Nat} (pendingStart : Nat) (buf : Bytes)
    (hturns : new.length ≤ turns + j) :
    DiffRuns old new j pendingStart buf (diffLoop old new turns j pendingStart buf) := by
  induction turns generalizing j pendingStart buf with
  | zero =>
    refine .done ?_
    simp only [window]
    omega
  | succ turns ih =>
    unfold diffLoop
    split
    · next hwindow =>
      cases hmatch : matchAt old new j with
      | some m =>
        obtain ⟨src, len⟩ := m
        obtain ⟨hlong, -⟩ := matchAt_spec hmatch
        refine .copy hwindow hmatch (ih _ _ ?_)
        simp only [window] at hlong
        omega
      | none => exact .skip hwindow hmatch (ih _ _ (by omega))
    · next hend => exact .done hend

/-! ## The codec -/

/-- A delta, where it pays, gives the new file back. The search for its opcodes comes to
its end, and they are copies inside the old file and inserts of something, together as
long as the new one. -/
theorem delta_tiles {Z : Zlib} (hZ : Z.RoundTrips) (old : Bytes) {new : Bytes}
    (hnew : new.length ≤ inlineMax) :
    (∀ delta, createDelta Z old new = some delta →
        (∃ compressed, Z.compress (diffOpcodes old new) 6 = .ok compressed ∧
          delta = deltaMagic ++ compressed) ∧
        applyDelta Z old delta = .ok new) ∧
      DiffRuns old new 0 0 [] (diffLoop old new new.length 0 0 []) ∧
      ∃ ops, readOpcodes (diffOpcodes old new).length (diffOpcodes old new) = some ops ∧
        (∀ op ∈ ops, op.Inside old) ∧ (ops.map Opcode.size).sum = new.length := by
  have hmax : new.length + 9 ≤ maxTransferSize := by
    simp only [inlineMax, maxTransferSize] at hnew ⊢
    omega
  have hshort : new.length < 2 ^ 32 := by
    simp only [inlineMax] at hnew
    omega
  refine ⟨?_, diffLoop_runs 0 [] (Nat.le_add_right _ _), ?_⟩
  · intro delta hdelta
    refine ⟨?_, applyDelta_createDelta hZ hmax hdelta⟩
    unfold createDelta at hdelta
    split at hdelta
    · cases hdelta
    · next compressed hcompressed =>
      refine ⟨compressed, hcompressed, ?_⟩
      simp only at hdelta
      split at hdelta
      · cases hdelta
      · split at hdelta
        · exact (Option.some.inj hdelta).symm
        · cases hdelta
  · obtain ⟨ops, hbuf, hops, hsum⟩ := diffOpcodes_tiles old hshort
    refine ⟨ops, ?_, fun op hop => (hops op hop).1, hsum⟩
    rw [hbuf]
    exact readOpcodes_encode (fun op hop => (hops op hop).2) (le_refl _)

/-- A file of which the first bytes have changed: the rest is copied. -/
def headOld : Bytes := List.replicate 40 7

def headNew : Bytes := [1, 2] ++ List.replicate 40 7

theorem delta_tiles_head :
    ∃ delta, createDelta storeZlib headOld headNew = some delta ∧
      applyDelta storeZlib headOld delta = .ok headNew := by
  have hdelta : (createDelta storeZlib headOld headNew).isSome = true := by decide +kernel
  obtain ⟨delta, hdelta⟩ := Option.isSome_iff_exists.mp hdelta
  have htiles := delta_tiles storeZlib_roundTrips headOld (show headNew.length ≤ inlineMax by decide)
  exact ⟨delta, hdelta, (htiles.1 delta hdelta).2⟩

end ConquerD.Client
