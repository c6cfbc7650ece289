import ConquerD.Lib.Stride

/-!
# Client: chroma layouts

Cameras and encoders hand over pictures as NV12 or YUY2, the rest of the client
works with three packed planes (I420). The conversions copy row by row between
buffers with strides of their own. A result of nothing stands for a program that
stopped: an index out of a buffer, a sum past a machine word, or a plane larger
than any allocation.
-/

namespace ConquerD.Client.Nv12

open Lib.Encoding Lib.Slice Lib.Stride

/-- The planes of a picture. -/
abbrev Planes : Type := Bytes × Bytes × Bytes

/-- No picture with chroma for every four pixels has this size. -/
def refused (w h : Nat) : Bool :=
  w == 0 || h == 0 || w % 2 != 0 || h % 2 != 0

def i420ToNv12 (y u v : Bytes) (width height : UInt32) (dst : Bytes) (dstStride : Nat) :
    Option (Bool × Bytes) :=
  let w := width.toNat
  let h := height.toNat
  let cw := w / 2
  let ch := h / 2
  if refused w h then some (false, dst)
  else if y.length < w * h || u.length < cw * ch || v.length < cw * ch then some (false, dst)
  else if dstStride < w then some (false, dst)
  else
    mulUsize dstStride h >>= fun luma =>
      mulUsize dstStride ch >>= fun chroma =>
        addUsize luma chroma >>= fun total =>
          if dst.length < total then some (false, dst)
          else
            (List.range h).foldlM
              (putRow 0 dstStride w fun row => slice? y (row * w) (row * w + w)) dst >>= fun dst =>
              (List.range ch).foldlM
                (putRow luma dstStride (cw * 2) fun row =>
                  slice? u (row * cw) (row * cw + cw) >>= fun us =>
                    slice? v (row * cw) (row * cw + cw) >>= fun vs => some (interleave us vs))
                dst >>= fun dst => some (true, dst)

def nv12ToI420 (src : Bytes) (srcStride uvOffset : Nat) (width height : UInt32) :
    Option (Option Planes) :=
  let w := width.toNat
  let h := height.toNat
  let cw := w / 2
  let ch := h / 2
  if refused w h || srcStride < w then some none
  else
    mulUsize srcStride (ch - 1) >>= fun rows =>
      addUsize uvOffset rows >>= fun lastRow =>
        addUsize lastRow (cw * 2) >>= fun uvEnd =>
          -- the source makes this check twice
          if src.length < uvEnd then some none
          else
            withCapacity (w * h) >>= fun _ =>
              readRows src 0 srcStride w (List.range h) >>= fun
                | none => some none
                | some y =>
                  withCapacity (cw * ch) >>= fun _ =>
                    (readRows src uvOffset srcStride (cw * 2) (List.range ch)).map
                      (Option.map fun uv =>
                        (y.flatten, (uv.map evens).flatten, (uv.map odds).flatten))

def byteAt? (src : Bytes) (base i : Nat) : Option UInt8 :=
  addUsize base i >>= fun k => src[k]?

/-- The mean, rounded down; the sum is taken in sixteen bits. -/
def mean (a b : UInt8) : UInt8 :=
  UInt8.ofNat ((a.toNat + b.toNat) / 2)

def yuy2Luma (src : Bytes) (srcStride w row : Nat) : Option Bytes :=
  mulUsize row srcStride >>= fun base =>
    (List.range w).mapM fun col => byteAt? src base (col * 2)

/-- The chroma of a pair of rows, U and V of every macropixel. -/
def yuy2Chroma (src : Bytes) (srcStride cw crow : Nat) : Option (List (UInt8 × UInt8)) :=
  mulUsize (crow * 2) srcStride >>= fun r0 =>
    mulUsize (crow * 2 + 1) srcStride >>= fun r1 =>
      (List.range cw).mapM fun ccol =>
        byteAt? src r0 (ccol * 4 + 1) >>= fun u0 =>
          byteAt? src r0 (ccol * 4 + 3) >>= fun v0 =>
            byteAt? src r1 (ccol * 4 + 1) >>= fun u1 =>
              byteAt? src r1 (ccol * 4 + 3) >>= fun v1 => some (mean u0 u1, mean v0 v1)

def yuy2ToI420 (src : Bytes) (srcStride : Nat) (width height : UInt32) : Option (Option Planes) :=
  let w := width.toNat
  let h := height.toNat
  let cw := w / 2
  let ch := h / 2
  if refused w h || srcStride < w * 2 then some none
  else
    mulUsize srcStride (h - 1) >>= fun rows =>
      addUsize rows (w * 2) >>= fun total =>
        if src.length < total then some none
        else
          withCapacity (w * h) >>= fun _ =>
            (List.range h).mapM (yuy2Luma src srcStride w) >>= fun y =>
              withCapacity (cw * ch) >>= fun _ =>
                (List.range ch).mapM (yuy2Chroma src srcStride cw) >>= fun uv =>
                  some (some (y.flatten, (uv.map (List.map Prod.fst)).flatten,
                    (uv.map (List.map Prod.snd)).flatten))

/-! ## Sizes -/

theorem refused_eq_false_iff {w h : Nat} :
    refused w h = false ↔ 0 < w ∧ 0 < h ∧ w % 2 = 0 ∧ h % 2 = 0 := by
  simp [refused, Nat.pos_iff_ne_zero, and_assoc]

theorem exists_halves {w h : Nat} (hsize : refused w h = false) :
    0 < w / 2 ∧ 0 < h / 2 ∧ w = w / 2 * 2 ∧ h = h / 2 * 2 := by
  obtain ⟨hw, hh, hweven, hheven⟩ := refused_eq_false_iff.mp hsize
  omega

/-! ## From three planes -/

/-- What is checked before anything is written. -/
structure Writable (y u v : Bytes) (w h stride : Nat) : Prop where
  size : refused w h = false
  luma : w * h ≤ y.length
  blue : w / 2 * (h / 2) ≤ u.length
  red : w / 2 * (h / 2) ≤ v.length
  stride : w ≤ stride

section Writing

variable {y u v dst : Bytes} {width height : UInt32} {stride : Nat}

theorem i420ToNv12_of_not_writable (h : ¬ Writable y u v width.toNat height.toNat stride) :
    i420ToNv12 y u v width height dst stride = some (false, dst) := by
  unfold i420ToNv12
  by_cases hsize : refused width.toNat height.toNat = true
  · exact if_pos hsize
  · rw [if_neg hsize]
    by_cases hplanes : (decide (y.length < width.toNat * height.toNat) ||
        decide (u.length < width.toNat / 2 * (height.toNat / 2)) ||
        decide (v.length < width.toNat / 2 * (height.toNat / 2))) = true
    · exact if_pos hplanes
    · rw [if_neg hplanes]
      refine if_pos ?_
      by_contra hstride
      simp only [Bool.or_eq_true, decide_eq_true_eq, not_or, not_lt] at hplanes
      exact h ⟨by simpa using hsize, hplanes.1.1, hplanes.1.2, hplanes.2, by omega⟩

theorem i420ToNv12_of_writable (h : Writable y u v width.toNat height.toNat stride) :
    i420ToNv12 y u v width height dst stride =
      (mulUsize stride height.toNat >>= fun luma =>
        mulUsize stride (height.toNat / 2) >>= fun chroma =>
          addUsize luma chroma >>= fun total =>
            if dst.length < total then some (false, dst)
            else
              (List.range height.toNat).foldlM (putRow 0 stride width.toNat fun row =>
                slice? y (row * width.toNat) (row * width.toNat + width.toNat)) dst >>= fun dst =>
                (List.range (height.toNat / 2)).foldlM
                  (putRow luma stride (width.toNat / 2 * 2) fun row =>
                    slice? u (row * (width.toNat / 2)) (row * (width.toNat / 2) + width.toNat / 2)
                      >>= fun us =>
                    slice? v (row * (width.toNat / 2)) (row * (width.toNat / 2) + width.toNat / 2)
                      >>= fun vs => some (interleave us vs))
                  dst >>= fun dst => some (true, dst)) := by
  have hplanes : ¬ (decide (y.length < width.toNat * height.toNat) ||
      decide (u.length < width.toNat / 2 * (height.toNat / 2)) ||
      decide (v.length < width.toNat / 2 * (height.toNat / 2))) = true := by
    simp only [Bool.or_eq_true, decide_eq_true_eq, not_or, not_lt]
    exact ⟨⟨h.luma, h.blue⟩, h.red⟩
  unfold i420ToNv12
  rw [if_neg (by rw [h.size]; decide), if_neg hplanes, if_neg (Nat.not_lt.mpr h.stride)]

/-- Row `k` of the chroma that is written. -/
def chromaRow (u v : Bytes) (cw k : Nat) : Bytes :=
  interleave ((u.drop (k * cw)).take cw) ((v.drop (k * cw)).take cw)

/-- Everything that is in the buffer after the planes have been written. -/
structure Written (y u v : Bytes) (w h stride : Nat) (dst dst' : Bytes) : Prop where
  length_eq : dst'.length = dst.length
  luma : ∀ k, k < h → (dst'.drop (k * stride)).take w = (y.drop (k * w)).take w
  chroma : ∀ k, k < h / 2 →
    (dst'.drop (stride * h + k * stride)).take w = chromaRow u v (w / 2) k
  padding : ∀ i, (∀ k, k < h + h / 2 → i < k * stride ∨ k * stride + w ≤ i) → dst'[i]? = dst[i]?

theorem i420ToNv12_written (h : Writable y u v width.toNat height.toNat stride)
    (hfit : stride * height.toNat + stride * (height.toNat / 2) ≤ dst.length)
    (hsize : dst.length < usizeBound) :
    ∃ dst', i420ToNv12 y u v width height dst stride = some (true, dst') ∧
      Written y u v width.toNat height.toNat stride dst dst' := by
  have hwritable := h
  obtain ⟨hsizes, hy, hu, hv, hstride⟩ := h
  rw [i420ToNv12_of_writable hwritable, mulUsize_of_lt (by omega), some_bind, mulUsize_of_lt (by omega),
    some_bind, addUsize_of_lt (by omega), some_bind, if_neg (by omega)]
  clear hwritable
  generalize width.toNat = w at *
  generalize height.toNat = h at *
  obtain ⟨hcw, hch, hw, hh⟩ := exists_halves hsizes
  have hlumaFit : ∀ k, k < h → 0 + k * stride + w ≤ dst.length := fun k hk => by
    have hrow := row_end_le hstride hk
    rw [Nat.mul_comm h] at hrow
    omega
  obtain ⟨mid, hmid, hluma⟩ := exists_putRows 0 (fun k => (y.drop (k * w)).take w)
    (fun row => slice? y (row * w) (row * w + w)) hstride
    (fun k hk => ⟨slice?_add (slice_length hy hk rfl).1, (slice_length hy hk rfl).2⟩)
    hlumaFit hsize
  have hchromaFit : ∀ k, k < h / 2 → stride * h + k * stride + w / 2 * 2 ≤ mid.length :=
    fun k hk => by
      have hrow := row_end_le hstride hk
      rw [Nat.mul_comm (h / 2)] at hrow
      rw [hluma.length_eq]
      omega
  obtain ⟨dst', hdst', hchroma⟩ := exists_putRows (stride * h) (chromaRow u v (w / 2))
    (fun row =>
      slice? u (row * (w / 2)) (row * (w / 2) + w / 2) >>= fun us =>
        slice? v (row * (w / 2)) (row * (w / 2) + w / 2) >>= fun vs => some (interleave us vs))
    (hw ▸ hstride : w / 2 * 2 ≤ stride)
    (fun k hk => by
      obtain ⟨huend, hulen⟩ := slice_length hu hk rfl
      obtain ⟨hvend, hvlen⟩ := slice_length hv hk rfl
      constructor
      · rw [slice?_add huend, some_bind, slice?_add hvend]
        rfl
      · rw [chromaRow, (interleave_spec (hulen.trans hvlen.symm)).1, hulen])
    hchromaFit (by rw [hluma.length_eq]; exact hsize)
  refine ⟨dst', ?_, hchroma.length_eq.trans hluma.length_eq, ?_, ?_, ?_⟩
  · rw [hmid, some_bind, hdst']
    rfl
  · intro k hk
    have hrow := hluma.row k hk
    rw [Nat.zero_add] at hrow
    rw [← hrow]
    -- the chroma lies behind the luma
    refine slice_congr fun j hj => hchroma.rest _ fun k' _ => .inl ?_
    have hend := row_end_le hstride hk
    rw [Nat.mul_comm h] at hend
    omega
  · intro k hk
    have hrow := hchroma.row k hk
    rwa [← hw] at hrow
  · intro i hi
    rw [hchroma.rest i fun k hk => ?_, hluma.rest i fun k hk => ?_]
    · rw [Nat.zero_add]
      exact hi k (by omega)
    · have hki := hi (h + k) (by omega)
      rw [Nat.add_mul, Nat.mul_comm h] at hki
      omega

/-- Writing stops the program exactly when the size of the result is no machine word. -/
theorem i420ToNv12_eq_none_iff (hsize : dst.length < usizeBound) :
    i420ToNv12 y u v width height dst stride = none ↔
      Writable y u v width.toNat height.toNat stride ∧
        usizeBound ≤ stride * height.toNat + stride * (height.toNat / 2) := by
  by_cases h : Writable y u v width.toNat height.toNat stride
  · constructor
    · intro hnone
      refine ⟨h, Nat.le_of_not_lt fun hlt => ?_⟩
      by_cases hfit : stride * height.toNat + stride * (height.toNat / 2) ≤ dst.length
      · obtain ⟨dst', hsome, -⟩ := i420ToNv12_written h hfit hsize
        rw [hsome] at hnone
        cases hnone
      · rw [i420ToNv12_of_writable h, mulUsize_of_lt (by omega), some_bind, mulUsize_of_lt (by omega), some_bind,
          addUsize_of_lt hlt, some_bind, if_pos (by omega)] at hnone
        cases hnone
    · rintro ⟨-, hover⟩
      rw [i420ToNv12_of_writable h]
      by_cases hluma : stride * height.toNat < usizeBound
      · rw [mulUsize_of_lt hluma, some_bind]
        by_cases hchroma : stride * (height.toNat / 2) < usizeBound
        · rw [mulUsize_of_lt hchroma, some_bind, addUsize,
            if_neg (by omega)]
          rfl
        · rw [mulUsize, if_neg hchroma]
          rfl
      · rw [mulUsize, if_neg hluma]
        rfl
  · rw [i420ToNv12_of_not_writable h]
    constructor
    · intro hnone
      cases hnone
    · rintro ⟨hwritable, -⟩
      exact absurd hwritable h

theorem of_i420ToNv12_true {dst' : Bytes} (hsize : dst.length < usizeBound)
    (h : i420ToNv12 y u v width height dst stride = some (true, dst')) :
    Writable y u v width.toNat height.toNat stride ∧
      stride * height.toNat + stride * (height.toNat / 2) ≤ dst.length ∧
      Written y u v width.toNat height.toNat stride dst dst' := by
  by_cases hw : Writable y u v width.toNat height.toNat stride
  · by_cases hfit : stride * height.toNat + stride * (height.toNat / 2) ≤ dst.length
    · obtain ⟨out, hout, hwritten⟩ := i420ToNv12_written hw hfit hsize
      rw [hout] at h
      have heq : out = dst' := congrArg Prod.snd (Option.some.inj h)
      exact ⟨hw, hfit, heq ▸ hwritten⟩
    · by_cases hlt : stride * height.toNat + stride * (height.toNat / 2) < usizeBound
      · rw [i420ToNv12_of_writable hw, mulUsize_of_lt (by omega), some_bind, mulUsize_of_lt (by omega), some_bind,
          addUsize_of_lt hlt, some_bind, if_pos (by omega)] at h
        cases h
      · rw [(i420ToNv12_eq_none_iff hsize).mpr ⟨hw, Nat.le_of_not_lt hlt⟩] at h
        cases h
  · rw [i420ToNv12_of_not_writable hw] at h
    cases h

end Writing

/-! ## From interleaved chroma -/

/-- The bytes that are there for the last row of chroma. -/
def chromaEnd (w h stride uvOffset : Nat) : Nat :=
  uvOffset + stride * (h / 2 - 1) + w

/-- The planes of a picture that lies in the buffer. -/
def planesOf (src : Bytes) (w h stride uvOffset : Nat) : Planes :=
  (((List.range h).map fun k => (src.drop (k * stride)).take w).flatten,
    ((List.range (h / 2)).map fun k =>
      evens ((src.drop (uvOffset + k * stride)).take w)).flatten,
    ((List.range (h / 2)).map fun k =>
      odds ((src.drop (uvOffset + k * stride)).take w)).flatten)

section Reading

variable {src : Bytes} {width height : UInt32} {stride uvOffset : Nat}

/-- The program stops, after the checks of the size: at a sum, at an allocation
or, in a picture of two rows, at the end of the second. -/
def ReadingStops (src : Bytes) (w h stride uvOffset : Nat) : Prop :=
  usizeBound ≤ chromaEnd w h stride uvOffset ∨
    chromaEnd w h stride uvOffset ≤ src.length ∧
      (2 ^ 63 ≤ w * h ∨ h = 2 ∧ usizeBound ≤ stride + w)

theorem nv12ToI420_of_refused
    (h : (refused width.toNat height.toNat || decide (stride < width.toNat)) = true) :
    nv12ToI420 src stride uvOffset width height = some none :=
  if_pos h

theorem chroma_fit {w h : Nat} (hw : w = w / 2 * 2)
    (hend : chromaEnd w h stride uvOffset ≤ src.length) :
    ∀ k ∈ List.range (h / 2), uvOffset + k * stride + w / 2 * 2 ≤ src.length := by
  intro k hk
  have hle : k ≤ h / 2 - 1 := by
    have hlt := List.mem_range.mp hk
    omega
  have hmul : k * stride ≤ stride * (h / 2 - 1) := by
    rw [Nat.mul_comm]
    exact Nat.mul_le_mul_left stride hle
  rw [chromaEnd] at hend
  omega

theorem nv12ToI420_of_sums
    (h : ¬ (refused width.toNat height.toNat || decide (stride < width.toNat)) = true)
    (hsum : chromaEnd width.toNat height.toNat stride uvOffset < usizeBound) :
    nv12ToI420 src stride uvOffset width height =
      if src.length < chromaEnd width.toNat height.toNat stride uvOffset then some none
      else
        withCapacity (width.toNat * height.toNat) >>= fun _ =>
          readRows src 0 stride width.toNat (List.range height.toNat) >>= fun
            | none => some none
            | some y =>
              withCapacity (width.toNat / 2 * (height.toNat / 2)) >>= fun _ =>
                (readRows src uvOffset stride (width.toNat / 2 * 2)
                    (List.range (height.toNat / 2))).map
                  (Option.map fun uv =>
                    (y.flatten, (uv.map evens).flatten, (uv.map odds).flatten)) := by
  have hw : width.toNat / 2 * 2 = width.toNat := by
    have hsize : refused width.toNat height.toNat = false := by
      simp only [Bool.or_eq_true, not_or, Bool.not_eq_true] at h
      exact h.1
    exact (exists_halves hsize).2.2.1.symm
  have hsum' := hsum
  unfold chromaEnd at hsum'
  unfold nv12ToI420
  rw [if_neg h, mulUsize_of_lt (by omega), some_bind,
    addUsize_of_lt (by omega), some_bind, hw, addUsize_of_lt hsum',
    some_bind]
  rfl

theorem nv12ToI420_of_fit
    (hguard : ¬ (refused width.toNat height.toNat || decide (stride < width.toNat)) = true)
    (hlen : src.length < usizeBound)
    (hend : chromaEnd width.toNat height.toNat stride uvOffset ≤ src.length)
    (hluma : ∀ k, k < height.toNat → k * stride + width.toNat ≤ src.length)
    (hcap : width.toNat * height.toNat < 2 ^ 63) :
    nv12ToI420 src stride uvOffset width height =
      some (some (planesOf src width.toNat height.toNat stride uvOffset)) := by
  have hsize : refused width.toNat height.toNat = false := by
    simp only [Bool.or_eq_true, not_or, Bool.not_eq_true] at hguard
    exact hguard.1
  rw [nv12ToI420_of_sums hguard (by omega), if_neg (by omega), withCapacity_of_lt hcap,
    some_bind]
  obtain ⟨-, -, hw, hh⟩ := exists_halves hsize
  clear hguard
  generalize width.toNat = w at *
  generalize height.toNat = h at *
  have hquarter : w / 2 * (h / 2) < 2 ^ 63 :=
    Nat.lt_of_le_of_lt (Nat.mul_le_mul (by omega) (by omega)) hcap
  have hlumaFit : ∀ k ∈ List.range h, 0 + k * stride + w ≤ src.length := fun k hk => by
    rw [Nat.zero_add]
    exact hluma k (List.mem_range.mp hk)
  have hchroma := readRows_of_fit hlen (chroma_fit hw hend)
  rw [← hw] at hchroma
  rw [← hw, readRows_of_fit hlen hlumaFit, some_bind]
  simp only [withCapacity_of_lt hquarter, some_bind, hchroma, Option.map_some, List.map_map,
    planesOf, Nat.zero_add]
  rfl

theorem lumaRows_eq_none_iff {w h : Nat} (hsize : refused w h = false)
    (hlen : src.length < 2 ^ 63) (hend : chromaEnd w h stride uvOffset ≤ src.length) :
    readRows src 0 stride w (List.range h) = none ↔ h = 2 ∧ usizeBound ≤ stride + w := by
  have hbound : usizeBound = 2 ^ 63 + 2 ^ 63 := by decide
  obtain ⟨-, hch, -, hh⟩ := exists_halves hsize
  unfold chromaEnd at hend
  rw [List.range_eq_range', readRows_eq_none_iff]
  constructor
  · rintro ⟨k, -, hk, hbefore, hover⟩
    cases k with
    | zero => omega
    | succ k =>
      have hlast := hbefore k (Nat.zero_le k) (Nat.lt_succ_self k)
      rw [Nat.add_mul] at hover
      by_cases htwo : h = 2
      · refine ⟨htwo, ?_⟩
        have hk0 : k = 0 := by omega
        subst hk0
        omega
      · -- with four rows or more the stride is no longer than the buffer
        have hstride : stride ≤ stride * (h / 2 - 1) := Nat.le_mul_of_pos_right stride (by omega)
        omega
  · rintro ⟨rfl, hover⟩
    refine ⟨1, Nat.zero_le 1, by omega, fun r _ hr => ?_, by omega⟩
    have hr0 : r = 0 := by omega
    subst hr0
    omega

theorem nv12ToI420_eq_none_iff (hlen : src.length < 2 ^ 63) :
    nv12ToI420 src stride uvOffset width height = none ↔
      (refused width.toNat height.toNat = false ∧ width.toNat ≤ stride) ∧
        ReadingStops src width.toNat height.toNat stride uvOffset := by
  have hbound : usizeBound = 2 ^ 63 + 2 ^ 63 := by decide
  by_cases hguard : (refused width.toNat height.toNat || decide (stride < width.toNat)) = true
  · rw [nv12ToI420_of_refused hguard]
    constructor
    · intro hnone
      cases hnone
    · rintro ⟨⟨hsize, hstride⟩, -⟩
      rw [hsize, Bool.false_or, decide_eq_true_eq] at hguard
      omega
  · have hpair : refused width.toNat height.toNat = false ∧ width.toNat ≤ stride := by
      simpa only [Bool.or_eq_true, not_or, Bool.not_eq_true, decide_eq_false_iff_not, not_lt]
        using hguard
    rw [and_iff_right hpair]
    by_cases hsum : chromaEnd width.toNat height.toNat stride uvOffset < usizeBound
    · rw [nv12ToI420_of_sums hguard hsum, ReadingStops, or_iff_right (by omega)]
      by_cases hend : chromaEnd width.toNat height.toNat stride uvOffset ≤ src.length
      · rw [if_neg (by omega), and_iff_right hend, ← lumaRows_eq_none_iff hpair.1 hlen hend]
        by_cases hcap : width.toNat * height.toNat < 2 ^ 63
        · rw [withCapacity_of_lt hcap, some_bind,
            or_iff_right (by omega)]
          cases hread : readRows src 0 stride width.toNat (List.range height.toNat) with
          | none => exact ⟨fun _ => rfl, fun _ => rfl⟩
          | some rows =>
            refine ⟨fun hnone => ?_, fun hnone => by cases hnone⟩
            cases rows with
            | none => cases hnone
            | some y =>
              obtain ⟨-, -, hw, hh⟩ := exists_halves hpair.1
              have hquarter : width.toNat / 2 * (height.toNat / 2) < 2 ^ 63 :=
                Nat.lt_of_le_of_lt (Nat.mul_le_mul (by omega) (by omega)) hcap
              rw [some_bind] at hnone
              simp only [withCapacity_of_lt hquarter, some_bind,
                readRows_of_fit (by omega) (chroma_fit hw hend)] at hnone
              cases hnone
        · exact ⟨fun _ => .inl (by omega), fun _ => by rw [withCapacity, if_neg hcap]; rfl⟩
      · rw [if_pos (by omega)]
        constructor
        · intro hnone
          cases hnone
        · rintro ⟨hle, -⟩
          exact absurd hle hend
    · constructor
      · intro _
        exact .inl (by omega)
      · intro _
        have hw := (exists_halves hpair.1).2.2.1
        unfold chromaEnd at hsum
        unfold nv12ToI420
        rw [if_neg hguard]
        by_cases hmul : stride * (height.toNat / 2 - 1) < usizeBound
        · rw [mulUsize_of_lt hmul, some_bind]
          by_cases hrow : uvOffset + stride * (height.toNat / 2 - 1) < usizeBound
          · rw [addUsize_of_lt hrow, some_bind, addUsize,
              if_neg (by omega)]
            rfl
          · rw [addUsize, if_neg hrow]
            rfl
        · rw [mulUsize, if_neg hmul]
          rfl

end Reading

theorem planesOf_written {y u v dst dst' : Bytes} {w h stride : Nat}
    (hwritable : Writable y u v w h stride) (hwritten : Written y u v w h stride dst dst') :
    planesOf dst' w h stride (stride * h) =
      (y.take (w * h), u.take (w / 2 * (h / 2)), v.take (w / 2 * (h / 2))) := by
  obtain ⟨hcw, -, hw, -⟩ := exists_halves hwritable.size
  have hlen : ∀ k, k < h / 2 → ((u.drop (k * (w / 2))).take (w / 2)).length =
      ((v.drop (k * (w / 2))).take (w / 2)).length := fun k hk =>
    (slice_length hwritable.blue hk rfl).2.trans (slice_length hwritable.red hk rfl).2.symm
  have hluma : ((List.range h).map fun k => (dst'.drop (k * stride)).take w) =
      (List.range h).map fun k => (y.drop (k * w)).take w :=
    List.map_congr_left fun k hk => hwritten.luma k (List.mem_range.mp hk)
  have hblue : ((List.range (h / 2)).map fun k =>
      evens ((dst'.drop (stride * h + k * stride)).take w)) =
      (List.range (h / 2)).map fun k => (u.drop (k * (w / 2))).take (w / 2) :=
    List.map_congr_left fun k hk => by
      rw [hwritten.chroma k (List.mem_range.mp hk), chromaRow,
        (interleave_spec (hlen k (List.mem_range.mp hk))).2.1]
  have hred : ((List.range (h / 2)).map fun k =>
      odds ((dst'.drop (stride * h + k * stride)).take w)) =
      (List.range (h / 2)).map fun k => (v.drop (k * (w / 2))).take (w / 2) :=
    List.map_congr_left fun k hk => by
      rw [hwritten.chroma k (List.mem_range.mp hk), chromaRow,
        (interleave_spec (hlen k (List.mem_range.mp hk))).2.2]
  rw [planesOf, hluma, hblue, hred, flatten_rows, flatten_rows, flatten_rows, Nat.mul_comm h,
    Nat.mul_comm (h / 2)]

theorem nv12ToI420_of_written {y u v : Buffer} {dst : Buffer} {width height : UInt32}
    {stride : Nat} {dst' : Bytes}
    (h : i420ToNv12 y.1 u.1 v.1 width height dst.1 stride = some (true, dst')) :
    nv12ToI420 dst' stride (stride * height.toNat) width height =
      some (some (y.1.take (width.toNat * height.toNat),
        u.1.take (width.toNat / 2 * (height.toNat / 2)),
        v.1.take (width.toNat / 2 * (height.toNat / 2)))) := by
  have hbound : usizeBound = 2 ^ 63 + 2 ^ 63 := by decide
  have hdst := dst.2
  have hy := y.2
  obtain ⟨hwritable, hfit, hwritten⟩ := of_i420ToNv12_true (by omega) h
  obtain ⟨hcw, hch, hw, hh⟩ := exists_halves hwritable.size
  have hstride := hwritable.stride
  have hlast := row_end_le hstride (by omega : height.toNat / 2 - 1 < height.toNat / 2)
  rw [Nat.mul_comm, Nat.mul_comm (height.toNat / 2)] at hlast
  rw [nv12ToI420_of_fit, planesOf_written hwritable hwritten]
  · rw [hwritable.size, Bool.false_or, decide_eq_true_eq]
    omega
  · rw [hwritten.length_eq]
    omega
  · rw [hwritten.length_eq, chromaEnd]
    omega
  · intro k hk
    have hrow := row_end_le hstride hk
    rw [Nat.mul_comm height.toNat] at hrow
    rw [hwritten.length_eq]
    omega
  · have hluma := hwritable.luma
    omega

/-! ## From macropixels -/

/-- The planes of packed pixels, where `f` gives byte `i` of a row. -/
def yuy2Planes (f : Nat → Nat → UInt8) (w h : Nat) : Planes :=
  let chroma := (List.range (h / 2)).map fun crow => (List.range (w / 2)).map fun ccol =>
    (mean (f (crow * 2) (ccol * 4 + 1)) (f (crow * 2 + 1) (ccol * 4 + 1)),
      mean (f (crow * 2) (ccol * 4 + 3)) (f (crow * 2 + 1) (ccol * 4 + 3)))
  (((List.range h).map fun row => (List.range w).map fun col => f row (col * 2)).flatten,
    (chroma.map (List.map Prod.fst)).flatten, (chroma.map (List.map Prod.snd)).flatten)

def sample (src : Bytes) (stride row i : Nat) : UInt8 :=
  (src[row * stride + i]?).getD 0

theorem mapM_eq_some {α β : Type} {f : α → Option β} {g : α → β} {xs : List α}
    (h : ∀ x ∈ xs, f x = some (g x)) : xs.mapM f = some (xs.map g) := by
  induction xs with
  | nil => rfl
  | cons x xs ih =>
    rw [List.mapM_cons, h x List.mem_cons_self, some_bind,
      ih fun y hy => h y (List.mem_cons_of_mem _ hy)]
    rfl

theorem byteAt?_eq {src : Bytes} {stride row i : Nat} (hlen : src.length < usizeBound)
    (hi : row * stride + i < src.length) :
    byteAt? src (row * stride) i = some (sample src stride row i) := by
  rw [byteAt?, addUsize_of_lt (by omega), some_bind, sample,
    List.getElem?_eq_getElem hi]
  rfl

section Macropixels

variable {src : Bytes} {width height : UInt32} {stride : Nat}

/-- The bytes that are there for the last row. -/
def packedEnd (w h stride : Nat) : Nat :=
  stride * (h - 1) + w * 2

theorem row_lt_of_packedEnd {w h row : Nat} (hend : packedEnd w h stride ≤ src.length)
    (hrow : row < h) : row * stride + w * 2 ≤ src.length := by
  have hmul : row * stride ≤ stride * (h - 1) := by
    rw [Nat.mul_comm]
    exact Nat.mul_le_mul_left stride (by omega)
  rw [packedEnd] at hend
  omega

theorem yuy2Luma_eq {w h row : Nat} (hlen : src.length < usizeBound)
    (hend : packedEnd w h stride ≤ src.length) (hrow : row < h) :
    yuy2Luma src stride w row =
      some ((List.range w).map fun col => sample src stride row (col * 2)) := by
  have hin := row_lt_of_packedEnd hend hrow
  rw [yuy2Luma, mulUsize_of_lt (by omega), some_bind]
  refine mapM_eq_some fun col hcol => byteAt?_eq hlen ?_
  have hlt := List.mem_range.mp hcol
  omega

theorem yuy2Chroma_eq {w h crow : Nat} (hlen : src.length < usizeBound) (hw : w = w / 2 * 2)
    (hend : packedEnd w h stride ≤ src.length) (hrow : crow * 2 + 1 < h) :
    yuy2Chroma src stride (w / 2) crow = some ((List.range (w / 2)).map fun ccol =>
      (mean (sample src stride (crow * 2) (ccol * 4 + 1))
          (sample src stride (crow * 2 + 1) (ccol * 4 + 1)),
        mean (sample src stride (crow * 2) (ccol * 4 + 3))
          (sample src stride (crow * 2 + 1) (ccol * 4 + 3)))) := by
  have hupper := row_lt_of_packedEnd hend (by omega : crow * 2 < h)
  have hlower := row_lt_of_packedEnd hend hrow
  rw [yuy2Chroma, mulUsize_of_lt (by omega), some_bind,
    mulUsize_of_lt (by omega), some_bind]
  refine mapM_eq_some fun ccol hccol => ?_
  have hlt := List.mem_range.mp hccol
  rw [byteAt?_eq hlen (by omega), some_bind,
    byteAt?_eq hlen (by omega), some_bind,
    byteAt?_eq hlen (by omega), some_bind,
    byteAt?_eq hlen (by omega), some_bind]

theorem yuy2ToI420_of_refused
    (h : (refused width.toNat height.toNat || decide (stride < width.toNat * 2)) = true) :
    yuy2ToI420 src stride width height = some none :=
  if_pos h

theorem yuy2ToI420_of_fit
    (h : ¬ (refused width.toNat height.toNat || decide (stride < width.toNat * 2)) = true)
    (hlen : src.length < 2 ^ 63)
    (hend : packedEnd width.toNat height.toNat stride ≤ src.length) :
    yuy2ToI420 src stride width height =
      some (some (yuy2Planes (sample src stride) width.toNat height.toNat)) := by
  have hbound : usizeBound = 2 ^ 63 + 2 ^ 63 := by decide
  have hend' := hend
  unfold packedEnd at hend'
  simp only [Bool.or_eq_true, not_or, Bool.not_eq_true, not_lt, decide_eq_true_eq] at h
  obtain ⟨hsize, hstride⟩ := h
  have hguard : ¬ (refused width.toNat height.toNat ||
      decide (stride < width.toNat * 2)) = true := by
    simp only [hsize, Bool.false_or, decide_eq_true_eq, not_lt]
    exact hstride
  unfold yuy2ToI420
  rw [if_neg hguard, mulUsize_of_lt (by omega), some_bind,
    addUsize_of_lt (by omega), some_bind, if_neg (by omega)]
  clear hguard
  obtain ⟨hcw, hch, hw, hh⟩ := exists_halves hsize
  generalize width.toNat = w at *
  generalize height.toNat = h at *
  have hpixels : w * h ≤ src.length := by
    have hmul : w * (h - 1) ≤ stride * (h - 1) := Nat.mul_le_mul_right _ (by omega)
    have hsucc : w * h = w * (h - 1) + w := by
      rw [← Nat.mul_succ]
      congr 1
      omega
    omega
  have hquarter : w / 2 * (h / 2) ≤ w * h := Nat.mul_le_mul (by omega) (by omega)
  rw [withCapacity_of_lt (by omega), some_bind,
    mapM_eq_some fun row hrow => yuy2Luma_eq (by omega) hend (List.mem_range.mp hrow),
    some_bind, withCapacity_of_lt (by omega), some_bind,
    mapM_eq_some fun crow hcrow => yuy2Chroma_eq (by omega) hw hend (by
      have hlt := List.mem_range.mp hcrow
      omega)]
  rfl

theorem yuy2ToI420_eq_none_iff (hlen : src.length < 2 ^ 63) :
    yuy2ToI420 src stride width height = none ↔
      (refused width.toNat height.toNat = false ∧ width.toNat * 2 ≤ stride) ∧
        usizeBound ≤ packedEnd width.toNat height.toNat stride := by
  have hbound : usizeBound = 2 ^ 63 + 2 ^ 63 := by decide
  by_cases hguard : (refused width.toNat height.toNat ||
      decide (stride < width.toNat * 2)) = true
  · rw [yuy2ToI420_of_refused hguard]
    constructor
    · intro hnone
      cases hnone
    · rintro ⟨⟨hsize, hstride⟩, -⟩
      rw [hsize, Bool.false_or, decide_eq_true_eq] at hguard
      omega
  · have hpair : refused width.toNat height.toNat = false ∧ width.toNat * 2 ≤ stride := by
      simpa only [Bool.or_eq_true, not_or, Bool.not_eq_true, decide_eq_false_iff_not, not_lt]
        using hguard
    rw [and_iff_right hpair]
    by_cases hend : packedEnd width.toNat height.toNat stride ≤ src.length
    · rw [yuy2ToI420_of_fit hguard hlen hend]
      constructor
      · intro hnone
        cases hnone
      · intro hover
        omega
    · unfold yuy2ToI420
      rw [if_neg hguard]
      unfold packedEnd at hend ⊢
      by_cases hmul : stride * (height.toNat - 1) < usizeBound
      · rw [mulUsize_of_lt hmul, some_bind]
        by_cases hsum : stride * (height.toNat - 1) + width.toNat * 2 < usizeBound
        · rw [addUsize_of_lt hsum, some_bind, if_pos (by omega)]
          constructor
          · intro hnone
            cases hnone
          · intro hover
            omega
        · rw [addUsize, if_neg hsum]
          exact ⟨fun _ => Nat.le_of_not_lt hsum, fun _ => rfl⟩
      · rw [mulUsize, if_neg hmul]
        exact ⟨fun _ => by omega, fun _ => rfl⟩

theorem yuy2ToI420_padded {packed : Bytes} (hlen : src.length < 2 ^ 63)
    (hplen : packed.length < 2 ^ 63) (hstride : width.toNat * 2 ≤ stride)
    (hpacked : packed.length = width.toNat * 2 * height.toNat)
    (hrows : ∀ row, row < height.toNat →
      (src.drop (row * stride)).take (width.toNat * 2) =
        (packed.drop (row * (width.toNat * 2))).take (width.toNat * 2)) :
    yuy2ToI420 src stride width height = yuy2ToI420 packed (width.toNat * 2) width height := by
  cases hsize : refused width.toNat height.toNat with
  | true =>
    rw [yuy2ToI420_of_refused (by rw [hsize, Bool.true_or]),
      yuy2ToI420_of_refused (by rw [hsize, Bool.true_or])]
  | false =>
    obtain ⟨hcw, hch, hw, hh⟩ := exists_halves hsize
    have hpend : packedEnd width.toNat height.toNat (width.toNat * 2) = packed.length := by
      rw [packedEnd, hpacked, ← Nat.mul_succ]
      congr 1
      omega
    have hlast := congrArg List.length (hrows (height.toNat - 1) (by omega))
    have hplast := (slice_length (i := (height.toNat - 1) * (width.toNat * 2))
      (Nat.le_of_eq hpacked.symm) (by omega : height.toNat - 1 < height.toNat) rfl).2
    rw [hplast, List.length_take, List.length_drop] at hlast
    have hend : packedEnd width.toNat height.toNat stride ≤ src.length := by
      rw [packedEnd, Nat.mul_comm stride]
      omega
    have hguard : ∀ s, width.toNat * 2 ≤ s →
        ¬ (refused width.toNat height.toNat || decide (s < width.toNat * 2)) = true := by
      intro s hs
      rw [hsize, Bool.false_or, decide_eq_true_eq]
      omega
    have hsample : ∀ row, row < height.toNat → ∀ i, i < width.toNat * 2 →
        sample src stride row i = sample packed (width.toNat * 2) row i := by
      intro row hrow i hi
      have hbyte := congrArg (fun bytes : Bytes => bytes[i]?) (hrows row hrow)
      simp only [List.getElem?_take_of_lt hi, List.getElem?_drop] at hbyte
      rw [sample, sample, hbyte]
    rw [yuy2ToI420_of_fit (hguard stride hstride) hlen hend,
      yuy2ToI420_of_fit (hguard _ (Nat.le_refl _)) hplen (Nat.le_of_eq hpend)]
    congr 2
    have hluma : ((List.range height.toNat).map fun row =>
        (List.range width.toNat).map fun col => sample src stride row (col * 2)) =
        (List.range height.toNat).map fun row =>
          (List.range width.toNat).map fun col =>
            sample packed (width.toNat * 2) row (col * 2) :=
      List.map_congr_left fun row hrow => List.map_congr_left fun col hcol =>
        hsample row (List.mem_range.mp hrow) _ (by
          have hlt := List.mem_range.mp hcol
          omega)
    have hchroma : ((List.range (height.toNat / 2)).map fun crow =>
        (List.range (width.toNat / 2)).map fun ccol =>
          (mean (sample src stride (crow * 2) (ccol * 4 + 1))
              (sample src stride (crow * 2 + 1) (ccol * 4 + 1)),
            mean (sample src stride (crow * 2) (ccol * 4 + 3))
              (sample src stride (crow * 2 + 1) (ccol * 4 + 3)))) =
        (List.range (height.toNat / 2)).map fun crow =>
          (List.range (width.toNat / 2)).map fun ccol =>
            (mean (sample packed (width.toNat * 2) (crow * 2) (ccol * 4 + 1))
                (sample packed (width.toNat * 2) (crow * 2 + 1) (ccol * 4 + 1)),
              mean (sample packed (width.toNat * 2) (crow * 2) (ccol * 4 + 3))
                (sample packed (width.toNat * 2) (crow * 2 + 1) (ccol * 4 + 3))) :=
      List.map_congr_left fun crow hcrow => List.map_congr_left fun ccol hccol => by
        have hr := List.mem_range.mp hcrow
        have hc := List.mem_range.mp hccol
        rw [hsample (crow * 2) (by omega) (ccol * 4 + 1) (by omega),
          hsample (crow * 2 + 1) (by omega) (ccol * 4 + 1) (by omega),
          hsample (crow * 2) (by omega) (ccol * 4 + 3) (by omega),
          hsample (crow * 2 + 1) (by omega) (ccol * 4 + 3) (by omega)]
    rw [yuy2Planes, yuy2Planes, hluma, hchroma]

end Macropixels

/-! ## The conversions together -/

/-- Writing succeeds exactly for planes that can be written to a buffer they fit in. -/
theorem i420ToNv12_true_iff {y u v dst : Bytes} {width height : UInt32} {stride : Nat}
    (hsize : dst.length < usizeBound) :
    (∃ dst', i420ToNv12 y u v width height dst stride = some (true, dst')) ↔
      Writable y u v width.toNat height.toNat stride ∧
        stride * height.toNat + stride * (height.toNat / 2) ≤ dst.length := by
  constructor
  · rintro ⟨dst', h⟩
    obtain ⟨hwritable, hfit, -⟩ := of_i420ToNv12_true hsize h
    exact ⟨hwritable, hfit⟩
  · rintro ⟨hwritable, hfit⟩
    obtain ⟨dst', h, -⟩ := i420ToNv12_written hwritable hfit hsize
    exact ⟨dst', h⟩

theorem nv12ToI420_of_inside {src : Bytes} {width height : UInt32} {stride uvOffset : Nat}
    (hsize : refused width.toNat height.toNat = false) (hstride : width.toNat ≤ stride)
    (hlen : src.length < 2 ^ 63)
    (hend : chromaEnd width.toNat height.toNat stride uvOffset ≤ src.length)
    (hluma : ∀ k, k < height.toNat → k * stride + width.toNat ≤ src.length) :
    nv12ToI420 src stride uvOffset width height =
      some (some (planesOf src width.toNat height.toNat stride uvOffset)) := by
  have hbound : usizeBound = 2 ^ 63 + 2 ^ 63 := by decide
  have hguard : ¬ (refused width.toNat height.toNat || decide (stride < width.toNat)) = true := by
    simp only [hsize, Bool.false_or, decide_eq_true_eq, not_lt]
    exact hstride
  refine nv12ToI420_of_fit hguard (by omega) hend hluma ?_
  obtain ⟨-, hh, -⟩ := refused_eq_false_iff.mp hsize
  obtain ⟨rows, hrows⟩ := Nat.exists_eq_succ_of_ne_zero hh.ne'
  have hlast := hluma rows (by omega)
  have hpacked : rows * width.toNat ≤ rows * stride := Nat.mul_le_mul_left rows hstride
  rw [hrows, Nat.mul_succ, Nat.mul_comm]
  omega

theorem yuy2ToI420_of_inside {src : Bytes} {width height : UInt32} {stride : Nat}
    (hsize : refused width.toNat height.toNat = false) (hstride : width.toNat * 2 ≤ stride)
    (hlen : src.length < 2 ^ 63)
    (hend : packedEnd width.toNat height.toNat stride ≤ src.length) :
    yuy2ToI420 src stride width height =
      some (some (yuy2Planes (sample src stride) width.toNat height.toNat)) := by
  refine yuy2ToI420_of_fit ?_ hlen hend
  simp only [hsize, Bool.false_or, decide_eq_true_eq, not_lt]
  exact hstride

/-- The conversions lose nothing, leave padding alone and look at none of it, for
all buffers. They run through for all buffers but those of the listed kinds,
whose strides or offsets are near the end of the address space, and they convert
whatever is inside its buffer. -/
theorem conversions_lossless_and_stop_iff (y u v src packed dst : Buffer) (width height : UInt32)
    (stride uvOffset : Nat) :
    (i420ToNv12 y.1 u.1 v.1 width height dst.1 stride = none ↔
      Writable y.1 u.1 v.1 width.toNat height.toNat stride ∧
        usizeBound ≤ stride * height.toNat + stride * (height.toNat / 2)) ∧
    (nv12ToI420 src.1 stride uvOffset width height = none ↔
      (refused width.toNat height.toNat = false ∧ width.toNat ≤ stride) ∧
        ReadingStops src.1 width.toNat height.toNat stride uvOffset) ∧
    (yuy2ToI420 src.1 stride width height = none ↔
      (refused width.toNat height.toNat = false ∧ width.toNat * 2 ≤ stride) ∧
        usizeBound ≤ packedEnd width.toNat height.toNat stride) ∧
    ((∃ dst', i420ToNv12 y.1 u.1 v.1 width height dst.1 stride = some (true, dst')) ↔
      Writable y.1 u.1 v.1 width.toNat height.toNat stride ∧
        stride * height.toNat + stride * (height.toNat / 2) ≤ dst.1.length) ∧
    (refused width.toNat height.toNat = false → width.toNat ≤ stride →
      chromaEnd width.toNat height.toNat stride uvOffset ≤ src.1.length →
      (∀ k, k < height.toNat → k * stride + width.toNat ≤ src.1.length) →
      nv12ToI420 src.1 stride uvOffset width height =
        some (some (planesOf src.1 width.toNat height.toNat stride uvOffset))) ∧
    (refused width.toNat height.toNat = false → width.toNat * 2 ≤ stride →
      packedEnd width.toNat height.toNat stride ≤ src.1.length →
      yuy2ToI420 src.1 stride width height =
        some (some (yuy2Planes (sample src.1 stride) width.toNat height.toNat))) ∧
    (∀ dst' : Bytes, i420ToNv12 y.1 u.1 v.1 width height dst.1 stride = some (true, dst') →
      nv12ToI420 dst' stride (stride * height.toNat) width height =
        some (some (y.1.take (width.toNat * height.toNat),
          u.1.take (width.toNat / 2 * (height.toNat / 2)),
          v.1.take (width.toNat / 2 * (height.toNat / 2)))) ∧
      dst'.length = dst.1.length ∧
      ∀ i, (∀ k, k < height.toNat + height.toNat / 2 →
          i < k * stride ∨ k * stride + width.toNat ≤ i) →
        dst'[i]? = dst.1[i]?) ∧
    (width.toNat * 2 ≤ stride →
      packed.1.length = width.toNat * 2 * height.toNat →
      (∀ row, row < height.toNat →
        (src.1.drop (row * stride)).take (width.toNat * 2) =
          (packed.1.drop (row * (width.toNat * 2))).take (width.toNat * 2)) →
      yuy2ToI420 src.1 stride width height =
        yuy2ToI420 packed.1 (width.toNat * 2) width height) := by
  have hbound : usizeBound = 2 ^ 63 + 2 ^ 63 := by decide
  have hlen := dst.2
  refine ⟨?_, ?_, ?_, ?_, fun hsize hstride hend hluma => ?_, fun hsize hstride hend => ?_,
    fun dst' h => ?_, fun hstride hpacked hrows => ?_⟩
  · exact i420ToNv12_eq_none_iff (by omega)
  · exact nv12ToI420_eq_none_iff src.2
  · exact yuy2ToI420_eq_none_iff src.2
  · exact i420ToNv12_true_iff (by omega)
  · exact nv12ToI420_of_inside hsize hstride src.2 hend hluma
  · exact yuy2ToI420_of_inside hsize hstride src.2 hend
  · have hwritten := (of_i420ToNv12_true (by omega) h).2.2
    exact ⟨nv12ToI420_of_written h, hwritten.length_eq, hwritten.padding⟩
  · exact yuy2ToI420_padded src.2 packed.2 hstride hpacked hrows

/-- An offset at the end of the address space: the sum of a length check overflows. -/
theorem offset_check_overflows :
    nv12ToI420 [] 2 (2 ^ 64 - 1) 2 2 = none := by
  decide

end ConquerD.Client.Nv12
