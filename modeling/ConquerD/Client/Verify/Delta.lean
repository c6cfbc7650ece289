import ConquerD.Client.Delta

/-!
# A delta gives the new file back

The opcodes for two files, run on the old one, write the new one. The search
keeps three things: what it wrote so far runs to the part of the new file before
the pending bytes, it wrote no more bytes than that part has, and it wrote
nothing only if that part is empty.
-/

namespace ConquerD.Client

open Lib.Encoding

/-! ## Numbers in four bytes -/

theorem length_toBeBytes (n : Nat) : (toBeBytes n).length = 4 := rfl

theorem fromBeBytes_toBeBytes {n : Nat} (h : n < 2 ^ 32) : fromBeBytes (toBeBytes n) = n := by
  simp only [fromBeBytes, toBeBytes, List.foldl_cons, List.foldl_nil, UInt8.toNat_ofNat']
  omega

/-! ## Running opcodes -/

section Run

variable {old raw out seg seg' buf buf' : Bytes}

theorem applyOpcodes_turns {n m : Nat} (hn : raw.length ≤ n) (hm : raw.length ≤ m) :
    applyOpcodes old n raw out = applyOpcodes old m raw out := by
  induction n generalizing raw out m with
  | zero =>
    have hnil := List.length_eq_zero_iff.mp (Nat.le_zero.mp hn)
    subst hnil
    cases m with
    | zero => rfl
    | succ m => rfl
  | succ n ih =>
    cases raw with
    | nil =>
      cases m with
      | zero => rfl
      | succ m => rfl
    | cons tag raw =>
      cases m with
      | zero => simp at hm
      | succ m =>
        have hrest : ∀ (k : Nat) (out : Bytes),
            applyOpcodes old n (raw.drop k) out = applyOpcodes old m (raw.drop k) out := by
          intro k out
          refine ih ?_ ?_
          · simp only [List.length_drop, List.length_cons] at hn ⊢
            omega
          · simp only [List.length_drop, List.length_cons] at hm ⊢
            omega
        simp only [applyOpcodes, hrest]

/-- Run to the end. -/
def runOpcodes (old raw out : Bytes) : Except String Bytes :=
  applyOpcodes old raw.length raw out

theorem runOpcodes_nil : runOpcodes old [] out = .ok out := rfl

/-- The opcodes write the bytes and go on with what follows them. -/
def Writes (old buf seg : Bytes) : Prop :=
  ∀ rest out, out.length + seg.length ≤ maxTransferSize →
    runOpcodes old (buf ++ rest) out = runOpcodes old rest (out ++ seg)

theorem Writes.nil (old : Bytes) : Writes old [] [] := by
  intro rest out _
  rw [List.nil_append, List.append_nil]

theorem Writes.append (h : Writes old buf seg) (h' : Writes old buf' seg') :
    Writes old (buf ++ buf') (seg ++ seg') := by
  intro rest out hlen
  rw [List.length_append] at hlen
  rw [List.append_assoc, h _ _ (by omega), h' _ _ (by rw [List.length_append]; omega),
    List.append_assoc]

theorem runOpcodes_copy {a b : Bytes} (ha : a.length = 4) (hb : b.length = 4)
    (hin : fromBeBytes a + fromBeBytes b ≤ old.length)
    (hout : out.length + fromBeBytes b ≤ maxTransferSize) (rest : Bytes) :
    runOpcodes old (0 :: (a ++ b) ++ rest) out =
      runOpcodes old rest (out ++ (old.drop (fromBeBytes a)).take (fromBeBytes b)) := by
  have hsrc : (a ++ b ++ rest).take 4 = a := by
    rw [List.append_assoc, ← ha, List.take_left]
  have hlen : ((a ++ b ++ rest).drop 4).take 4 = b := by
    rw [List.append_assoc, ← ha, List.drop_left, ha, ← hb, List.take_left]
  have hdrop : (a ++ b ++ rest).drop 8 = rest := by
    rw [show 8 = (a ++ b).length by rw [List.length_append, ha, hb], List.drop_left]
  have hraw : ¬ (a ++ b ++ rest).length < 8 := by
    simp only [List.length_append]
    omega
  simp only [runOpcodes, List.cons_append, List.length_cons, applyOpcodes, if_true, hsrc, hlen,
    hdrop]
  rw [if_neg hraw, if_neg (not_lt.mpr hin), if_neg (not_lt.mpr hout)]
  refine applyOpcodes_turns ?_ (le_refl _)
  rw [List.length_append]
  exact Nat.le_add_left _ _

theorem runOpcodes_insert {a rest : Bytes} (ha : a.length = 4) (hlen : fromBeBytes a = seg.length)
    (hout : out.length + seg.length ≤ maxTransferSize) :
    runOpcodes old (1 :: (a ++ seg) ++ rest) out = runOpcodes old rest (out ++ seg) := by
  have hnum : (a ++ seg ++ rest).take 4 = a := by
    rw [List.append_assoc, ← ha, List.take_left]
  have hseg : ((a ++ seg ++ rest).drop 4).take seg.length = seg := by
    rw [List.append_assoc, ← ha, List.drop_left, List.take_left]
  have hdrop : (a ++ seg ++ rest).drop (4 + seg.length) = rest := by
    rw [← ha, ← List.length_append, List.drop_left]
  have hraw : ¬ (a ++ seg ++ rest).length < 4 := by
    simp only [List.length_append]
    omega
  have hpast : ¬ 4 + seg.length > (a ++ seg ++ rest).length := by
    simp only [List.length_append]
    omega
  simp only [runOpcodes, List.cons_append, List.length_cons, applyOpcodes, if_true, hnum, hlen,
    hseg, hdrop]
  rw [if_neg (by decide), if_neg hraw, if_neg hpast, if_neg (not_lt.mpr hout)]
  refine applyOpcodes_turns ?_ (le_refl _)
  rw [List.length_append]
  exact Nat.le_add_left _ _

theorem Writes.copy {src len : Nat} (hsrc : src < 2 ^ 32) (hlen : len < 2 ^ 32)
    (hin : src + len ≤ old.length) :
    Writes old (0 :: (toBeBytes src ++ toBeBytes len)) ((old.drop src).take len) := by
  intro rest out hout
  have hseg : ((old.drop src).take len).length = len := by
    rw [List.length_take, List.length_drop]
    omega
  rw [hseg] at hout
  have hfrom := fromBeBytes_toBeBytes hsrc
  have hfrom' := fromBeBytes_toBeBytes hlen
  rw [← hfrom'] at hout
  have hrun := runOpcodes_copy (length_toBeBytes src) (length_toBeBytes len)
    (by rw [hfrom, hfrom']; exact hin) hout
  rw [hfrom, hfrom'] at hrun
  exact hrun rest

theorem Writes.insert (old : Bytes) {seg : Bytes} (hlen : seg.length < 2 ^ 32) :
    Writes old (1 :: (toBeBytes seg.length ++ seg)) seg :=
  fun _ _ hout => runOpcodes_insert (length_toBeBytes _) (fromBeBytes_toBeBytes hlen) hout

end Run

/-! ## Matches -/

theorem take_commonPrefix (xs ys : Bytes) :
    xs.take (commonPrefix xs ys) = ys.take (commonPrefix xs ys) := by
  induction xs generalizing ys with
  | nil => simp [commonPrefix]
  | cons x xs ih =>
    cases ys with
    | nil => simp [commonPrefix]
    | cons y ys =>
      unfold commonPrefix
      split
      · next h => rw [List.take_succ_cons, List.take_succ_cons, ih, h]
      · rfl

theorem commonPrefix_le (xs ys : Bytes) :
    commonPrefix xs ys ≤ xs.length ∧ commonPrefix xs ys ≤ ys.length := by
  induction xs generalizing ys with
  | nil => simp [commonPrefix]
  | cons x xs ih =>
    cases ys with
    | nil => simp [commonPrefix]
    | cons y ys =>
      unfold commonPrefix
      obtain ⟨hxs, hys⟩ := ih ys
      split
      · simp only [List.length_cons]
        omega
      · simp

theorem matchAt_spec {old new : Bytes} {j src len : Nat} (h : matchAt old new j = some (src, len)) :
    window ≤ len ∧ src < 2 ^ 32 ∧ src + len ≤ old.length ∧ j + len ≤ new.length ∧
      (old.drop src).take len = (new.drop j).take len := by
  unfold matchAt at h
  obtain ⟨src', hindex, hmatch⟩ := Option.bind_eq_some_iff.mp h
  simp only at hmatch
  split at hmatch
  · next hlong =>
    cases hmatch
    obtain ⟨pos, -, hpos⟩ := Option.map_eq_some_iff.mp hindex
    obtain ⟨hold, hnew⟩ := commonPrefix_le (old.drop src) (new.drop j)
    rw [List.length_drop] at hold hnew
    simp only [extendMatch, window, ge_iff_le] at hlong ⊢
    refine ⟨hlong, ?_, ?_, ?_, take_commonPrefix _ _⟩
    · rw [← hpos]
      exact Nat.mod_lt _ (by decide)
    · omega
    · omega
  · cases hmatch

/-! ## The search -/

/-- What the search wrote so far. -/
structure Wrote (old new : Bytes) (pendingStart : Nat) (buf : Bytes) : Prop where
  writes : Writes old buf (new.take pendingStart)
  small : buf.length ≤ pendingStart
  nothing : buf = [] → pendingStart = 0

theorem Wrote.start (old new : Bytes) : Wrote old new 0 [] :=
  ⟨by rw [List.take_zero]; exact .nil old, le_refl _, fun _ => rfl⟩

section Search

variable {old new buf : Bytes} {pendingStart j : Nat}

theorem take_append_between (hle : pendingStart ≤ j) :
    new.take pendingStart ++ (new.drop pendingStart).take (j - pendingStart) = new.take j := by
  rw [← List.take_add, Nat.add_sub_cancel' hle]

theorem Wrote.flush (h : Wrote old new pendingStart buf) (hlt : pendingStart < j)
    (hj : j ≤ new.length) (hlen : new.length < 2 ^ 32) :
    Writes old (writeInsert buf ((new.drop pendingStart).take (j - pendingStart)))
        (new.take j) ∧
      (writeInsert buf ((new.drop pendingStart).take (j - pendingStart))).length ≤ j + 5 ∧
      writeInsert buf ((new.drop pendingStart).take (j - pendingStart)) ≠ [] := by
  have hseg : ((new.drop pendingStart).take (j - pendingStart)).length = j - pendingStart := by
    rw [List.length_take, List.length_drop]
    omega
  have hshort : ((new.drop pendingStart).take (j - pendingStart)).length < 2 ^ 32 := by
    rw [hseg]
    omega
  have hwrites := h.writes.append (Writes.insert old hshort)
  rw [take_append_between hlt.le] at hwrites
  have hne : ((new.drop pendingStart).take (j - pendingStart)).isEmpty = false := by
    rw [List.isEmpty_eq_false_iff, ← List.length_pos_iff, hseg]
    omega
  simp only [writeInsert, hne, Bool.false_eq_true, if_false]
  refine ⟨hwrites, ?_, by simp⟩
  have hsmall := h.small
  simp only [List.length_append, List.length_cons, length_toBeBytes, hseg]
  omega

theorem Wrote.copy (h : Wrote old new pendingStart buf) (hle : pendingStart ≤ j)
    (hlen : new.length < 2 ^ 32) {src len : Nat} (hmatch : matchAt old new j = some (src, len)) :
    Wrote old new (j + len)
      (writeCopy (if pendingStart < j then
        writeInsert buf ((new.drop pendingStart).take (j - pendingStart)) else buf) src len) := by
  obtain ⟨hwindow, hsrc, hold, hnew, hsame⟩ := matchAt_spec hmatch
  have hbuf : ∃ buf', (if pendingStart < j then
      writeInsert buf ((new.drop pendingStart).take (j - pendingStart)) else buf) = buf' ∧
      Writes old buf' (new.take j) ∧ buf'.length ≤ j + 5 := by
    by_cases hlt : pendingStart < j
    · obtain ⟨hwrites, hsmall, -⟩ := h.flush hlt (by omega) hlen
      exact ⟨_, if_pos hlt, hwrites, hsmall⟩
    · obtain rfl : pendingStart = j := by omega
      exact ⟨buf, if_neg hlt, h.writes, h.small.trans (Nat.le_add_right _ _)⟩
  obtain ⟨buf', heq, hwrites, hsmall⟩ := hbuf
  rw [heq]
  have hcopy := hwrites.append (Writes.copy hsrc (by omega) hold)
  rw [hsame, ← List.take_add] at hcopy
  refine ⟨hcopy, ?_, fun hnil => ?_⟩
  · simp only [window] at hwindow
    simp only [writeCopy, List.length_append, List.length_cons, length_toBeBytes]
    omega
  · simp [writeCopy] at hnil

theorem diffLoop_inv (I : Nat → Bytes → Prop)
    (hcopy : ∀ pendingStart j buf src len, pendingStart ≤ j →
      matchAt old new j = some (src, len) → I pendingStart buf →
      I (j + len) (writeCopy (if pendingStart < j then
        writeInsert buf ((new.drop pendingStart).take (j - pendingStart)) else buf) src len))
    (turns : Nat) (h : I pendingStart buf) (hle : pendingStart ≤ j)
    (hin : pendingStart ≤ new.length) :
    I (diffLoop old new turns j pendingStart buf).1
        (diffLoop old new turns j pendingStart buf).2 ∧
      (diffLoop old new turns j pendingStart buf).1 ≤ new.length := by
  induction turns generalizing j pendingStart buf with
  | zero => exact ⟨h, hin⟩
  | succ turns ih =>
    unfold diffLoop
    split
    · split
      · next src len hmatch =>
        obtain ⟨-, -, -, hnew, -⟩ := matchAt_spec hmatch
        exact ih (hcopy _ _ _ _ _ hle hmatch h) (le_refl _) hnew
      · exact ih h (hle.trans (Nat.le_succ j)) hin
    · exact ⟨h, hin⟩

theorem diffLoop_wrote (hlen : new.length < 2 ^ 32) (turns : Nat)
    (h : Wrote old new pendingStart buf) (hle : pendingStart ≤ j)
    (hin : pendingStart ≤ new.length) :
    Wrote old new (diffLoop old new turns j pendingStart buf).1
        (diffLoop old new turns j pendingStart buf).2 ∧
      (diffLoop old new turns j pendingStart buf).1 ≤ new.length :=
  diffLoop_inv (Wrote old new) (fun _ _ _ _ _ hle hmatch h => h.copy hle hlen hmatch) turns h hle hin

end Search

theorem diffOpcodes_spec (old : Bytes) {new : Bytes} (hlen : new.length < 2 ^ 32) :
    Writes old (diffOpcodes old new) new ∧ (diffOpcodes old new).length ≤ new.length + 9 ∧
      (diffOpcodes old new = [] → new = []) := by
  unfold diffOpcodes
  split
  · next hsame =>
    subst hsame
    have hwhole : 0 + old.length ≤ old.length := by omega
    have hcopy := Writes.copy (by decide) hlen hwhole
    rw [List.drop_zero, List.take_length] at hcopy
    refine ⟨hcopy, ?_, fun hnil => ?_⟩
    · simp [writeCopy, length_toBeBytes]
    · simp [writeCopy] at hnil
  · obtain ⟨hwrote, hin⟩ := diffLoop_wrote hlen new.length (Wrote.start old new) (le_refl 0)
      (Nat.zero_le _)
    generalize diffLoop old new new.length 0 0 [] = r at hwrote hin
    obtain ⟨pendingStart, buf⟩ := r
    simp only at hwrote hin ⊢
    split
    · next hlt =>
      obtain ⟨hwrites, hsmall, hne⟩ := hwrote.flush hlt (le_refl _) hlen
      rw [List.take_of_length_le (l := new.drop pendingStart) (by rw [List.length_drop]),
        List.take_length] at hwrites
      rw [List.take_of_length_le (l := new.drop pendingStart) (by rw [List.length_drop])]
        at hsmall hne
      exact ⟨hwrites, by omega, fun hnil => absurd hnil hne⟩
    · next hnot =>
      obtain rfl : pendingStart = new.length := by omega
      have hwrites := hwrote.writes
      have hsmall := hwrote.small
      rw [List.take_length] at hwrites
      refine ⟨hwrites, by omega, fun hnil => ?_⟩
      exact List.length_eq_zero_iff.mp (hwrote.nothing hnil)

/-! ## The round trip -/

/-- Reading from a decoder of compressed bytes gives the bytes. -/
def Zlib.RoundTrips (Z : Zlib) : Prop :=
  ∀ data compressed, Z.compress data 6 = .ok compressed →
    ∀ n, Z.read compressed n = .ok (data.take n)

/-- A library that stores what it is given. -/
def storeZlib : Zlib where
  compress data _ := .ok data
  read compressed n := .ok (compressed.take n)

theorem storeZlib_roundTrips : storeZlib.RoundTrips := by
  rintro data compressed ⟨⟩ n
  rfl

theorem zlibDecompress_of_roundTrips {Z : Zlib} (hZ : Z.RoundTrips) {data compressed : Bytes}
    (h : zlibCompress Z data 6 = .ok compressed) (hlen : data.length ≤ maxTransferSize) :
    zlibDecompress Z compressed = .ok data := by
  unfold zlibDecompress
  rw [hZ data compressed h, List.take_of_length_le (Nat.le_succ_of_le hlen)]
  exact if_neg (not_lt.mpr hlen)

theorem applyDelta_createDelta {Z : Zlib} (hZ : Z.RoundTrips) {old new delta : Bytes}
    (hlen : new.length + 9 ≤ maxTransferSize) (h : createDelta Z old new = some delta) :
    applyDelta Z old delta = .ok new := by
  unfold createDelta at h
  split at h
  · cases h
  · next compressed hcompressed =>
    simp only at h
    split at h
    · cases h
    · next full hfull =>
      split at h
      · next hsmaller =>
        cases h
        have hshort : new.length < 2 ^ 32 := by
          simp only [maxTransferSize] at hlen
          omega
        obtain ⟨hwrites, hsmall, hempty⟩ := diffOpcodes_spec old hshort
        have hne : (diffOpcodes old new).isEmpty = false := by
          rw [List.isEmpty_eq_false_iff]
          intro hnil
          rw [hnil] at hcompressed
          rw [hempty hnil, hcompressed] at hfull
          cases hfull
          rw [List.length_append] at hsmaller
          omega
        have hmagic : (deltaMagic ++ compressed).take 4 = deltaMagic := by simp [deltaMagic]
        have hrest : (deltaMagic ++ compressed).drop 4 = compressed := by simp [deltaMagic]
        have hheader : ¬ ((deltaMagic ++ compressed).length < deltaMagic.length ∨
            (deltaMagic ++ compressed).take 4 ≠ deltaMagic) := by
          rw [hmagic, List.length_append]
          simp
        unfold applyDelta
        rw [if_neg hheader, hrest, zlibDecompress_of_roundTrips hZ hcompressed (by omega)]
        simp only [hne, Bool.false_eq_true, if_false]
        have hrun := hwrites [] [] (by simp only [List.length_nil]; omega)
        rw [List.append_nil, List.nil_append, runOpcodes_nil] at hrun
        exact hrun
      · cases h

end ConquerD.Client
