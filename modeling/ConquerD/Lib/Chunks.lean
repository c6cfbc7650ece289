import Mathlib.Data.List.Basic
import Mathlib.Order.Nat

/-!
# Lists cut into chunks

A list cut into chunks of one size, its last chunk short. The chunks in order
give the list back. They also give it back when each is written at its own place
of another list, in any order and however often, and the result is cut to the
length of the original.
-/

namespace ConquerD.Lib.Chunks

variable {α : Type*} {size n i k : Nat} {xs ys zs : List α}

/-- Chunk `i` of `size` elements. -/
def chunk (size : Nat) (xs : List α) (i : Nat) : List α :=
  (xs.drop (i * size)).take size

/-- How many chunks a list of the length takes: one at least. -/
def chunkCount (size length : Nat) : Nat :=
  max ((length + (size - 1)) / size) 1

theorem chunkCount_pos (size length : Nat) : 0 < chunkCount size length :=
  lt_of_lt_of_le Nat.one_pos (le_max_right _ _)

theorem length_chunk (size : Nat) (xs : List α) (i : Nat) :
    (chunk size xs i).length = min size (xs.length - i * size) := by
  simp [chunk]

theorem le_chunkCount_mul (hsize : 0 < size) (length : Nat) :
    length ≤ chunkCount size length * size := by
  have hdiv : length ≤ (length + (size - 1)) / size * size := by
    have hmod := Nat.div_add_mod (length + (size - 1)) size
    have hlt := Nat.mod_lt (length + (size - 1)) hsize
    rw [Nat.mul_comm] at hmod
    omega
  exact hdiv.trans (Nat.mul_le_mul_right _ (le_max_left _ _))

theorem mul_le_of_lt_chunkCount {length : Nat} (hsize : 0 < size) (h : i < chunkCount size length) :
    i * size ≤ length := by
  cases i with
  | zero =>
    rw [Nat.zero_mul]
    exact Nat.zero_le _
  | succ i =>
    have hlt : i + 1 < (length + (size - 1)) / size := by
      unfold chunkCount at h
      omega
    have hmul := (Nat.le_div_iff_mul_le hsize).mp (Nat.succ_le_of_lt hlt)
    rw [Nat.succ_mul] at hmul
    omega

theorem chunkCount_mono {a b : Nat} (h : a ≤ b) : chunkCount size a ≤ chunkCount size b := by
  have hdiv : (a + (size - 1)) / size ≤ (b + (size - 1)) / size :=
    Nat.div_le_div_right (Nat.add_le_add_right h _)
  exact max_le (hdiv.trans (le_max_left _ _)) (le_max_right _ _)

theorem chunkCount_add_size (hsize : 0 < size) (length : Nat) :
    chunkCount size (length + size) ≤ chunkCount size length + 1 := by
  unfold chunkCount
  have hdiv : (length + size + (size - 1)) / size = (length + (size - 1)) / size + 1 := by
    rw [Nat.add_right_comm, Nat.add_div_right _ hsize]
  rw [hdiv]
  omega

/-! ## Chunks in order -/

theorem take_append_chunk (size : Nat) (xs : List α) (i : Nat) :
    xs.take (i * size) ++ chunk size xs i = xs.take ((i + 1) * size) := by
  rw [chunk, Nat.succ_mul, List.take_add]

theorem flatMap_chunk (size : Nat) (xs : List α) (n : Nat) :
    (List.range n).flatMap (chunk size xs) = xs.take (n * size) := by
  induction n with
  | zero => simp
  | succ n ih =>
    rw [List.range_succ, List.flatMap_append, ih, List.flatMap_singleton, take_append_chunk]

theorem flatMap_chunk_eq (h : xs.length ≤ n * size) :
    (List.range n).flatMap (chunk size xs) = xs := by
  rw [flatMap_chunk, List.take_of_length_le h]

theorem getElem?_chunk (hk : k < size) : (chunk size xs i)[k]? = xs[i * size + k]? := by
  rw [chunk, List.getElem?_take_of_lt hk, List.getElem?_drop]

/-! ## Chunks at their places -/

/-- The list with `ys` written over it from `off` on, padded with `z` up to
there. -/
def writeAt (z : α) (xs : List α) (off : Nat) (ys : List α) : List α :=
  (xs ++ List.replicate (off - xs.length) z).take off ++ ys ++ xs.drop (off + ys.length)

/-- The list cut or padded to a length. -/
def setLen (z : α) (xs : List α) (n : Nat) : List α :=
  (xs ++ List.replicate (n - xs.length) z).take n

theorem length_padded (z : α) (xs : List α) (off : Nat) :
    ((xs ++ List.replicate (off - xs.length) z).take off).length = off := by
  simp only [List.length_take, List.length_append, List.length_replicate]
  omega

theorem length_setLen (z : α) (xs : List α) (n : Nat) : (setLen z xs n).length = n :=
  length_padded z xs n

theorem getElem?_writeAt (z : α) {off : Nat} (h : k < ys.length) :
    (writeAt z xs off ys)[off + k]? = ys[k]? := by
  unfold writeAt
  rw [List.append_assoc, List.getElem?_append_right (by rw [length_padded]; omega), length_padded,
    Nat.add_sub_cancel_left, List.getElem?_append_left h]

theorem getElem?_writeAt_of_outside (z : α) {off : Nat} (h : k < xs.length)
    (hout : k < off ∨ off + ys.length ≤ k) : (writeAt z xs off ys)[k]? = xs[k]? := by
  unfold writeAt
  rcases hout with hbefore | hafter
  · rw [List.append_assoc, List.getElem?_append_left (by rw [length_padded]; exact hbefore),
      List.getElem?_take_of_lt hbefore, List.getElem?_append_left h]
  · have hlen : ((xs ++ List.replicate (off - xs.length) z).take off ++ ys).length =
        off + ys.length := by rw [List.length_append, length_padded]
    rw [List.getElem?_append_right (by rw [hlen]; exact hafter), hlen, List.getElem?_drop]
    congr 1
    omega

/-- The list holds chunk `i` of another at its place. -/
def HasChunk (size : Nat) (xs : List α) (i : Nat) (zs : List α) : Prop :=
  ∀ k < (chunk size xs i).length, zs[i * size + k]? = (chunk size xs i)[k]?

theorem hasChunk_writeAt (z : α) (size : Nat) (xs zs : List α) (i : Nat) :
    HasChunk size xs i (writeAt z zs (i * size) (chunk size xs i)) :=
  fun _ hk => getElem?_writeAt z hk

theorem HasChunk.writeAt {j : Nat} (h : HasChunk size xs i zs) (z : α) (hij : i ≠ j) :
    HasChunk size xs i (writeAt z zs (j * size) (chunk size xs j)) := by
  intro k hk
  have hheld := h k hk
  have hin : i * size + k < zs.length := by
    by_contra hout
    rw [List.getElem?_eq_none (not_lt.mp hout), List.getElem?_eq_getElem hk] at hheld
    cases hheld
  have hks : k < size := lt_of_lt_of_le hk (by rw [length_chunk]; exact min_le_left _ _)
  have hlen : (chunk size xs j).length ≤ size := by rw [length_chunk]; exact min_le_left _ _
  rw [getElem?_writeAt_of_outside z hin, hheld]
  rcases lt_or_gt_of_ne hij with hlt | hgt
  · left
    have hmul : (i + 1) * size ≤ j * size := Nat.mul_le_mul_right _ hlt
    rw [Nat.succ_mul] at hmul
    omega
  · right
    have hmul : (j + 1) * size ≤ i * size := Nat.mul_le_mul_right _ hgt
    rw [Nat.succ_mul] at hmul
    omega

theorem setLen_eq (z : α) (hsize : 0 < size) (hcover : xs.length ≤ n * size)
    (h : ∀ i < n, HasChunk size xs i zs) : setLen z zs xs.length = xs := by
  apply List.ext_getElem?
  intro k
  by_cases hk : k < xs.length
  · have hlt : k % size < size := Nat.mod_lt _ hsize
    have hplace : k / size * size + k % size = k := by
      rw [Nat.mul_comm]
      exact Nat.div_add_mod k size
    have hi : k / size < n := (Nat.div_lt_iff_lt_mul hsize).mpr (lt_of_lt_of_le hk hcover)
    have hin : k % size < (chunk size xs (k / size)).length := by
      rw [length_chunk]
      omega
    have hheld := h (k / size) hi (k % size) hin
    rw [getElem?_chunk hlt, hplace, List.getElem?_eq_getElem hk] at hheld
    have hkz : k < zs.length := by
      by_contra hout
      rw [List.getElem?_eq_none (not_lt.mp hout)] at hheld
      cases hheld
    unfold setLen
    rw [List.getElem?_take_of_lt hk, List.getElem?_append_left hkz, hheld,
      List.getElem?_eq_getElem hk]
  · rw [List.getElem?_eq_none (by rw [length_setLen]; exact not_lt.mp hk),
      List.getElem?_eq_none (not_lt.mp hk)]

end ConquerD.Lib.Chunks
