import ConquerD.Lib.Slice

/-!
# Rows in a strided buffer

A plane of a picture lies in a buffer row by row, every row a stride after the
one before it. What is between two rows is padding, which a writer leaves as it
is and a reader skips. Rows are written and read one at a time here, with the
sums of a machine word and the bounds of the buffer checked at each.
-/

namespace ConquerD.Lib.Stride

open Lib.Encoding Lib.Slice

/-- The bytes in place of those from `i` on; nothing when they do not fit. -/
def copyInto? (dst : Bytes) (i : Nat) (bytes : Bytes) : Option Bytes :=
  if i + bytes.length ≤ dst.length then
    some (dst.take i ++ (bytes ++ dst.drop (i + bytes.length)))
  else none

/-- Where a row starts. -/
def rowStart? (base stride row : Nat) : Option Nat :=
  mulUsize row stride >>= fun offset => addUsize base offset

def putRow (base stride w : Nat) (content : Nat → Option Bytes) (dst : Bytes) (row : Nat) :
    Option Bytes :=
  rowStart? base stride row >>= fun start =>
    addUsize start w >>= fun _ =>
      content row >>= fun bytes => copyInto? dst start bytes

/-- The rows one by one, up to the first that the buffer does not hold. -/
def readRows (src : Bytes) (base stride w : Nat) : List Nat → Option (Option (List Bytes))
  | [] => some (some [])
  | row :: rows =>
    rowStart? base stride row >>= fun start =>
      addUsize start w >>= fun stop =>
        if src.length < stop then some none
        else
          slice? src start stop >>= fun bytes =>
            (readRows src base stride w rows).map (Option.map (bytes :: ·))

theorem rowStart?_of_lt {base stride row : Nat} (h : base + row * stride < usizeBound) :
    rowStart? base stride row = some (base + row * stride) := by
  rw [rowStart?, mulUsize_of_lt (by omega)]
  exact addUsize_of_lt h

theorem row_overflows {base stride row w : Nat} (h : usizeBound ≤ base + row * stride + w) :
    rowStart? base stride row = none ∨
      ∃ start, rowStart? base stride row = some start ∧ addUsize start w = none := by
  by_cases hmul : row * stride < usizeBound
  · by_cases hstart : base + row * stride < usizeBound
    · exact .inr ⟨_, rowStart?_of_lt hstart, if_neg (by omega)⟩
    · left
      rw [rowStart?, mulUsize_of_lt hmul]
      exact if_neg hstart
  · left
    rw [rowStart?, mulUsize, if_neg hmul]
    rfl

/-! ## Writing -/

theorem getElem?_copied {dst bytes : Bytes} {i : Nat} (h : i + bytes.length ≤ dst.length) {k : Nat}
    (hk : k < i ∨ i + bytes.length ≤ k) :
    (dst.take i ++ (bytes ++ dst.drop (i + bytes.length)))[k]? = dst[k]? := by
  have htake : (dst.take i).length = i := List.length_take_of_le (by omega)
  rcases hk with hk | hk
  · rw [List.getElem?_append_left (by omega), List.getElem?_take_of_lt hk]
  · rw [List.getElem?_append_right (by omega), List.getElem?_append_right (by omega),
      List.getElem?_drop, htake]
    congr 1
    omega

theorem slice_copied {dst bytes : Bytes} {i : Nat} (h : i + bytes.length ≤ dst.length) :
    ((dst.take i ++ (bytes ++ dst.drop (i + bytes.length))).drop i).take bytes.length = bytes := by
  rw [List.drop_append_of_le_length (by rw [List.length_take]; omega),
    List.drop_eq_nil_of_le (List.length_take_le i dst), List.nil_append, List.take_left]

theorem slice_congr {xs ys : Bytes} {i j w : Nat} (h : ∀ k, k < w → xs[i + k]? = ys[j + k]?) :
    (xs.drop i).take w = (ys.drop j).take w := by
  refine List.ext_getElem? fun k => ?_
  by_cases hk : k < w
  · rw [List.getElem?_take_of_lt hk, List.getElem?_take_of_lt hk, List.getElem?_drop,
      List.getElem?_drop, h k hk]
  · rw [List.getElem?_eq_none (by rw [List.length_take]; omega),
      List.getElem?_eq_none (by rw [List.length_take]; omega)]

/-- The first `n` rows have been written and nothing else has. -/
structure RowsWritten (base stride w n : Nat) (content : Nat → Bytes) (dst dst' : Bytes) :
    Prop where
  length_eq : dst'.length = dst.length
  row : ∀ k, k < n → (dst'.drop (base + k * stride)).take w = content k
  rest : ∀ i, (∀ k, k < n → i < base + k * stride ∨ base + k * stride + w ≤ i) → dst'[i]? = dst[i]?

theorem row_end_le {stride w k n : Nat} (hw : w ≤ stride) (hk : k < n) :
    k * stride + w ≤ n * stride := by
  have hmul : (k + 1) * stride ≤ n * stride := Nat.mul_le_mul_right stride hk
  rw [Nat.add_mul] at hmul
  omega

theorem slice_length {xs : Bytes} {i w n k : Nat} (hlen : w * n ≤ xs.length) (hk : k < n)
    (hi : i = k * w) : i + w ≤ xs.length ∧ ((xs.drop i).take w).length = w := by
  have hrow := row_end_le (Nat.le_refl w) hk
  rw [Nat.mul_comm] at hlen
  subst hi
  refine ⟨by omega, ?_⟩
  rw [List.length_take, List.length_drop]
  omega

theorem length_of_putRow {base stride w row : Nat} {content : Nat → Option Bytes}
    {dst dst' : Bytes} (h : putRow base stride w content dst row = some dst') :
    dst'.length = dst.length := by
  obtain ⟨start, -, h⟩ := Option.bind_eq_some_iff.mp h
  obtain ⟨-, -, h⟩ := Option.bind_eq_some_iff.mp h
  obtain ⟨bytes, -, h⟩ := Option.bind_eq_some_iff.mp h
  rw [copyInto?] at h
  split at h
  · next hfit =>
    cases h
    rw [List.length_append, List.length_append, List.length_take, List.length_drop]
    omega
  · cases h

theorem length_foldlM_putRow {base stride w : Nat} {content : Nat → Option Bytes}
    {rows : List Nat} {dst dst' : Bytes}
    (h : rows.foldlM (putRow base stride w content) dst = some dst') :
    dst'.length = dst.length := by
  induction rows generalizing dst with
  | nil =>
    cases h
    rfl
  | cons row rows ih =>
    rw [List.foldlM_cons] at h
    obtain ⟨mid, hmid, h⟩ := Option.bind_eq_some_iff.mp h
    exact (ih h).trans (length_of_putRow hmid)

theorem exists_putRows (base : Nat) (content : Nat → Bytes) (content? : Nat → Option Bytes)
    {stride w n : Nat} {dst : Bytes} (hw : w ≤ stride)
    (hcontent : ∀ k, k < n → content? k = some (content k) ∧ (content k).length = w)
    (hfit : ∀ k, k < n → base + k * stride + w ≤ dst.length) (hsize : dst.length < usizeBound) :
    ∃ dst', (List.range n).foldlM (putRow base stride w content?) dst = some dst' ∧
      RowsWritten base stride w n content dst dst' := by
  induction n with
  | zero => exact ⟨dst, rfl, rfl, fun k hk => absurd hk (Nat.not_lt_zero k), fun _ _ => rfl⟩
  | succ n ih =>
    obtain ⟨mid, hmid, hrows⟩ :=
      ih (fun k hk => hcontent k (by omega)) fun k hk => hfit k (by omega)
    obtain ⟨hsome, hlen⟩ := hcontent n (Nat.lt_succ_self n)
    have hend : base + n * stride + (content n).length ≤ mid.length := by
      rw [hlen, hrows.length_eq]
      exact hfit n (Nat.lt_succ_self n)
    have hput : putRow base stride w content? mid n =
        some (mid.take (base + n * stride) ++
          (content n ++ mid.drop (base + n * stride + (content n).length))) := by
      have hword : base + n * stride + w < usizeBound := by
        rw [← hlen]
        exact Nat.lt_of_le_of_lt (hrows.length_eq ▸ hend) hsize
      rw [putRow, rowStart?_of_lt (by omega), some_bind,
        addUsize_of_lt hword, some_bind, hsome, some_bind, copyInto?, if_pos hend]
    refine ⟨mid.take (base + n * stride) ++
      (content n ++ mid.drop (base + n * stride + (content n).length)), ?_, ?_, ?_, ?_⟩
    · rw [List.range_succ, List.foldlM_append, hmid, some_bind,
        List.foldlM_cons, hput]
      rfl
    · have htake : (mid.take (base + n * stride)).length = base + n * stride :=
        List.length_take_of_le (by omega)
      rw [List.length_append, List.length_append, List.length_drop, htake, ← hrows.length_eq]
      omega
    · intro k hk
      rcases Nat.lt_succ_iff_lt_or_eq.mp hk with hlt | rfl
      · -- the row lies before the one that is written
        rw [← hrows.row k hlt]
        refine slice_congr fun j hj => getElem?_copied hend (.inl ?_)
        have hbefore := row_end_le hw hlt
        omega
      · rw [← hlen]
        exact slice_copied hend
    · intro i hi
      have hn := hi n (Nat.lt_succ_self n)
      rw [← hlen] at hn
      rw [getElem?_copied hend hn]
      exact hrows.rest i fun k hk => hi k (by omega)

/-! ## Reading -/

theorem readRows_of_fit {src : Bytes} {base stride w : Nat} {rows : List Nat}
    (hsize : src.length < usizeBound)
    (hfit : ∀ k ∈ rows, base + k * stride + w ≤ src.length) :
    readRows src base stride w rows =
      some (some (rows.map fun k => (src.drop (base + k * stride)).take w)) := by
  induction rows with
  | nil => rfl
  | cons k rows ih =>
    have hk := hfit k List.mem_cons_self
    rw [readRows, rowStart?_of_lt (by omega), some_bind,
      addUsize_of_lt (by omega), some_bind, if_neg (by omega),
      slice?_add hk, some_bind,
      ih fun r hr => hfit r (List.mem_cons_of_mem _ hr)]
    rfl

/-- Reading stops the program at the first row that is not in the buffer, when
the end of that row is no machine word. -/
theorem readRows_eq_none_iff {src : Bytes} {base stride w : Nat} (s n : Nat) :
    readRows src base stride w (List.range' s n) = none ↔
      ∃ k, s ≤ k ∧ k < s + n ∧ (∀ r, s ≤ r → r < k → base + r * stride + w ≤ src.length) ∧
        usizeBound ≤ base + k * stride + w := by
  induction n generalizing s with
  | zero =>
    constructor
    · intro h
      cases h
    · rintro ⟨k, hle, hlt, -⟩
      omega
  | succ n ih =>
    rw [List.range'_succ, readRows]
    by_cases hword : base + s * stride + w < usizeBound
    · rw [rowStart?_of_lt (by omega), some_bind, addUsize_of_lt hword,
        some_bind]
      by_cases hfit : base + s * stride + w ≤ src.length
      · rw [if_neg (by omega), slice?_add hfit, some_bind,
          Option.map_eq_none_iff, ih (s + 1)]
        constructor
        · rintro ⟨k, hle, hlt, hbefore, hend⟩
          refine ⟨k, by omega, by omega, fun r hr hrk => ?_, hend⟩
          rcases Nat.lt_or_eq_of_le hr with hlt' | rfl
          · exact hbefore r hlt' hrk
          · exact hfit
        · rintro ⟨k, hle, hlt, hbefore, hend⟩
          have hne : s ≠ k := by
            rintro rfl
            omega
          exact ⟨k, by omega, by omega, fun r hr => hbefore r (by omega), hend⟩
      · rw [if_pos (by omega)]
        constructor
        · intro h
          cases h
        · rintro ⟨k, hle, hlt, hbefore, hend⟩
          have hne : s ≠ k := by
            rintro rfl
            omega
          exact absurd (hbefore s (Nat.le_refl s) (by omega)) hfit
    · constructor
      · intro _
        exact ⟨s, Nat.le_refl s, by omega, fun r hr hrs => by omega, Nat.le_of_not_lt hword⟩
      · intro _
        rcases row_overflows (Nat.le_of_not_lt hword) with hnone | ⟨start, hstart, hnone⟩
        · rw [hnone]
          rfl
        · rw [hstart, some_bind, hnone]
          rfl

theorem flatten_rows (xs : Bytes) (w n : Nat) :
    ((List.range n).map fun k => (xs.drop (k * w)).take w).flatten = xs.take (n * w) := by
  induction n with
  | zero => simp
  | succ n ih =>
    rw [List.range_succ, List.map_append, List.flatten_append, ih, Nat.succ_mul, List.take_add]
    simp

/-! ## Bytes that take turns -/

def interleave : Bytes → Bytes → Bytes
  | u :: us, v :: vs => u :: v :: interleave us vs
  | _, _ => []

/-- The first of every two bytes. -/
def evens : Bytes → Bytes
  | u :: _ :: uv => u :: evens uv
  | _ => []

/-- The second of every two bytes. -/
def odds : Bytes → Bytes
  | _ :: v :: uv => v :: odds uv
  | _ => []

theorem interleave_spec {us vs : Bytes} (h : us.length = vs.length) :
    (interleave us vs).length = us.length * 2 ∧ evens (interleave us vs) = us ∧
      odds (interleave us vs) = vs := by
  induction us generalizing vs with
  | nil =>
    cases vs with
    | nil => exact ⟨rfl, rfl, rfl⟩
    | cons v vs => cases h
  | cons u us ih =>
    cases vs with
    | nil => cases h
    | cons v vs =>
      obtain ⟨hlen, hevens, hodds⟩ := ih (Nat.succ.inj h)
      refine ⟨?_, congrArg (u :: ·) hevens, congrArg (v :: ·) hodds⟩
      rw [interleave, List.length_cons, List.length_cons, List.length_cons, hlen]
      omega

end ConquerD.Lib.Stride
