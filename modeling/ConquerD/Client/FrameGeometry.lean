import ConquerD.Lib.Stride
import Mathlib.Algebra.Order.Floor.Semiring
import Mathlib.Data.Rat.Floor
import Mathlib.Tactic.Linarith
import Mathlib.Tactic.Positivity

/-!
# Client: the geometry of frames

A captured picture of any size is fitted into a frame of the size that the
encoder was set up for: scaled down by averages over boxes of pixels, centred
on black, with other pictures drawn over its corners. Machine words wrap here,
an index out of a plane gives nothing, and the scale of a picture is an exact
fraction. What becomes of the averages of colours is a parameter.
-/

namespace ConquerD.Client.FrameGeometry

open Lib.Encoding Lib.Slice Lib.Stride

/-! ## Frames -/

structure RawFrame where
  width : Nat
  height : Nat
  y : Bytes
  u : Bytes
  v : Bytes

/-- The number without its lowest bit. -/
def even (n : Nat) : Nat :=
  n / 2 * 2

/-- A product in a word of 32 bits. -/
def mulU32 (a b : Nat) : Nat :=
  a * b % 2 ^ 32

def RawFrame.black (width height : Nat) : RawFrame where
  width := even width
  height := even height
  y := List.replicate (mulU32 (even width) (even height)) 16
  u := List.replicate (mulU32 (even width / 2) (even height / 2)) 128
  v := List.replicate (mulU32 (even width / 2) (even height / 2)) 128

def RawFrame.isConsistent (f : RawFrame) : Bool :=
  f.width % 2 == 0 && f.height % 2 == 0 && f.y.length == mulU32 f.width f.height &&
    f.u.length == mulU32 (f.width / 2) (f.height / 2) &&
      f.v.length == mulU32 (f.width / 2) (f.height / 2)

/-- The planes are of the size of the frame. -/
structure RawFrame.Consistent (f : RawFrame) : Prop where
  width : f.width % 2 = 0
  height : f.height % 2 = 0
  y : f.y.length = f.width * f.height
  u : f.u.length = f.width / 2 * (f.height / 2)
  v : f.v.length = f.width / 2 * (f.height / 2)

/-! ## Sizes -/

/-- To the nearest whole number, halves up. -/
def roundHalfUp (q : Rat) : Nat :=
  ⌊q + 1 / 2⌋₊

def fitWithin (w h maxW maxH : Nat) : Nat × Nat :=
  let w := max w 2
  let h := max h 2
  let maxW := max maxW 2
  let maxH := max maxH 2
  if w ≤ maxW ∧ h ≤ maxH then (even w, even h)
  else
    let scale : Rat := min (maxW / w) (maxH / h)
    (even (max (roundHalfUp (w * scale)) 2), even (max (roundHalfUp (h * scale)) 2))

/-! ## Boxes -/

/-- Where the box of a pixel starts, along one edge. -/
def boxStart (i src dst : Nat) : Nat :=
  i * src / dst

/-- Where the box of `step` pixels ends, along one edge. -/
def boxEnd (i step src dst : Nat) : Nat :=
  max (min (((i + step) * src + dst - 1) / dst) src) (boxStart i src dst + 1)

/-- What is at the places of a box, row by row. -/
def boxPixels {α : Type} (at? : Nat → Nat → Option α) (x0 x1 y0 y1 : Nat) : Option (List α) :=
  ((List.range' y0 (y1 - y0)).mapM fun y => (List.range' x0 (x1 - x0)).mapM (at? y)) >>=
    fun rows => some rows.flatten

def boxAvg (plane : Bytes) (stride x0 x1 y0 y1 : Nat) : Option UInt8 :=
  boxPixels (fun y x => plane[y * stride + x]?) x0 x1 y0 y1 >>= fun pixels =>
    some (pixels.foldl (fun sum p => sum + p.toUInt32) 0 /
      max (UInt32.ofNat pixels.length) 1).toUInt8

/-- A plane of a frame, from the boxes of its pixels. -/
def fromBoxes (box : Nat → Nat → Option UInt8) (w h : Nat) : Option Bytes :=
  ((List.range h).mapM fun dy => (List.range w).mapM fun dx => box dx dy) >>= fun rows =>
    some rows.flatten

def scalePlane (src : Bytes) (srcW srcH dstW dstH : Nat) : Option Bytes :=
  fromBoxes (fun dx dy =>
    boxAvg src srcW (boxStart dx srcW dstW) (boxEnd dx 1 srcW dstW) (boxStart dy srcH dstH)
      (boxEnd dy 1 srcH dstH)) dstW dstH

/-- No frame has these edges. -/
def badEdges (w h : Nat) : Bool :=
  decide (w < 2) || decide (h < 2) || w % 2 != 0 || h % 2 != 0

def scaleI420 (src : RawFrame) (dstW dstH : Nat) : Option (Option RawFrame) :=
  if badEdges dstW dstH || !src.isConsistent then some none
  else if src.width = dstW ∧ src.height = dstH then some (some src)
  else
    scalePlane src.y src.width src.height dstW dstH >>= fun y =>
      scalePlane src.u (src.width / 2) (src.height / 2) (dstW / 2) (dstH / 2) >>= fun u =>
        scalePlane src.v (src.width / 2) (src.height / 2) (dstW / 2) (dstH / 2) >>= fun v =>
          some (some ⟨dstW, dstH, y, u, v⟩)

/-! ## Drawing -/

/-- The rows of a picture of width `sw` on a plane of width `dw`, the first `w`
bytes of each, from row `y` and column `x` on. -/
def blit (dst : Bytes) (dw : Nat) (src : Bytes) (sw w h x y : Nat) : Option Bytes :=
  (List.range h).foldlM
    (putRow (y * dw + x) dw w fun row => slice? src (row * sw) (row * sw + w)) dst

def overlayI420 (dst src : RawFrame) (x y : Nat) : Option RawFrame :=
  if !dst.isConsistent || !src.isConsistent then some dst
  else
    let x := even x
    let y := even y
    if dst.width ≤ x ∨ dst.height ≤ y then some dst
    else
      let w := even (min src.width (dst.width - x))
      let h := even (min src.height (dst.height - y))
      if w = 0 ∨ h = 0 then some dst
      else
        blit dst.y dst.width src.y src.width w h x y >>= fun py =>
          blit dst.u (dst.width / 2) src.u (src.width / 2) (w / 2) (h / 2) (x / 2) (y / 2) >>=
            fun pu =>
              blit dst.v (dst.width / 2) src.v (src.width / 2) (w / 2) (h / 2) (x / 2) (y / 2) >>=
                fun pv => some { dst with y := py, u := pu, v := pv }

def letterboxI420 (src : RawFrame) (dstW dstH : Nat) : Option (Option RawFrame) :=
  if badEdges dstW dstH || !src.isConsistent then some none
  else if src.width = dstW ∧ src.height = dstH then some (some src)
  else
    let fit := fitWithin src.width src.height dstW dstH
    scaleI420 src fit.1 fit.2 >>= fun
      | none => some none
      | some content =>
        if fit.1 = dstW ∧ fit.2 = dstH then some (some content)
        else
          overlayI420 (RawFrame.black dstW dstH) content (even ((dstW - fit.1) / 2))
            (even ((dstH - fit.2) / 2)) >>= fun out => some (some out)

section Bgra

/-- The value of a plane from the sums of red, green and blue over a box and the
number of its pixels. -/
abbrev Colour : Type := UInt32 → UInt32 → UInt32 → UInt32 → UInt8

variable (rgbToY rgbToU rgbToV : Colour)

/-- The blue, green and red bytes of a pixel. Indices are not wrapped: where one
passes a word, an earlier row is already past the end of the source. -/
def pixelAt? (src : Bytes) (stride y x : Nat) : Option (UInt8 × UInt8 × UInt8) :=
  src[y * stride + x * 4]? >>= fun b =>
    src[y * stride + x * 4 + 1]? >>= fun g =>
      src[y * stride + x * 4 + 2]? >>= fun r => some (b, g, r)

def averageBox (colour : Colour) (src : Bytes) (stride x0 x1 y0 y1 : Nat) : Option UInt8 :=
  boxPixels (pixelAt? src stride) x0 x1 y0 y1 >>= fun pixels =>
    some (colour (pixels.foldl (fun sum p => sum + p.2.2.toUInt32) 0)
      (pixels.foldl (fun sum p => sum + p.2.1.toUInt32) 0)
      (pixels.foldl (fun sum p => sum + p.1.toUInt32) 0) (UInt32.ofNat pixels.length))

def bgraToI420Scaled (src : Bytes) (stride srcW srcH dstW dstH : Nat) :
    Option (Option RawFrame) :=
  if srcW = 0 ∨ srcH = 0 ∨ dstW = 0 ∨ dstH = 0 then some none
  else if dstW % 2 ≠ 0 ∨ dstH % 2 ≠ 0 then some none
  else if stride < srcW * 4 then some none
  else if src.length < stride * srcH % 2 ^ 64 then some none
  else
    let chroma (colour : Colour) : Option Bytes :=
      fromBoxes (fun cx cy =>
        averageBox colour src stride (boxStart (cx * 2) srcW dstW) (boxEnd (cx * 2) 2 srcW dstW)
          (boxStart (cy * 2) srcH dstH) (boxEnd (cy * 2) 2 srcH dstH)) (dstW / 2) (dstH / 2)
    fromBoxes (fun dx dy =>
        averageBox rgbToY src stride (boxStart dx srcW dstW) (boxEnd dx 1 srcW dstW)
          (boxStart dy srcH dstH) (boxEnd dy 1 srcH dstH)) dstW dstH >>= fun y =>
      chroma rgbToU >>= fun u => chroma rgbToV >>= fun v => some (some ⟨dstW, dstH, y, u, v⟩)

def bgraToI420Letterboxed (src : Bytes) (stride srcW srcH dstW dstH : Nat) :
    Option (Option RawFrame) :=
  if dstW = 0 ∨ dstH = 0 ∨ dstW % 2 ≠ 0 ∨ dstH % 2 ≠ 0 then some none
  else
    let fit := fitWithin srcW srcH dstW dstH
    bgraToI420Scaled rgbToY rgbToU rgbToV src stride srcW srcH fit.1 fit.2 >>= fun
      | none => some none
      | some content =>
        if fit.1 = dstW ∧ fit.2 = dstH then some (some content)
        else
          let offX := even ((dstW - fit.1) / 2)
          let offY := even ((dstH - fit.2) / 2)
          let half (ground : Bytes) (plane : Bytes) : Option Bytes :=
            blit ground (dstW / 2) plane (fit.1 / 2) (fit.1 / 2) (fit.2 / 2) (offX / 2) (offY / 2)
          blit (List.replicate (dstW * dstH) 16) dstW content.y fit.1 fit.1 fit.2 offX offY >>=
            fun y =>
              half (List.replicate (dstW / 2 * (dstH / 2)) 128) content.u >>= fun u =>
                half (List.replicate (dstW / 2 * (dstH / 2)) 128) content.v >>= fun v =>
                  some (some ⟨dstW, dstH, y, u, v⟩)

end Bgra

/-! ## Placements -/

inductive Corner where
  | topLeft
  | topRight
  | bottomLeft
  | bottomRight
  deriving DecidableEq

structure Placement where
  corner : Corner
  sizePct : Nat

namespace Placement

def minOverlayPct : Nat := 10

def maxOverlayPct : Nat := 50

def marginPct : Nat := 2

def boxSize (p : Placement) (outW outH srcW srcH : Nat) : Nat × Nat :=
  let pct := max minOverlayPct (min p.sizePct maxOverlayPct)
  let w := even (max (outW * pct / 100) 2 % 2 ^ 32)
  let srcW := max srcW 1
  let srcH := max srcH 1
  let h := even (max (w * srcH / srcW) 2 % 2 ^ 32)
  if outH < h then fitWithin w h outW outH else (w, h)

def position (p : Placement) (outW outH ovW ovH : Nat) : Nat × Nat :=
  let margin := even (outW * marginPct / 100 % 2 ^ 32)
  let right := outW - ovW - margin
  let bottom := outH - ovH - margin
  let xy :=
    match p.corner with
    | .topLeft => (margin, margin)
    | .topRight => (right, margin)
    | .bottomLeft => (margin, bottom)
    | .bottomRight => (right, bottom)
  (even (min xy.1 (outW - 2)), even (min xy.2 (outH - 2)))

end Placement

/-! ## Even sizes -/

theorem even_mod (n : Nat) : even n % 2 = 0 := by
  rw [even]
  omega

theorem even_le (n : Nat) : even n ≤ n := by
  rw [even]
  omega

theorem le_even {m n : Nat} (hm : m % 2 = 0) (h : m ≤ n) : m ≤ even n := by
  rw [even]
  omega

theorem even_of_mod {n : Nat} (h : n % 2 = 0) : even n = n := by
  rw [even]
  omega

theorem roundHalfUp_le {q : Rat} {n : Nat} (h : q ≤ n) : roundHalfUp q ≤ n := by
  refine Nat.lt_succ_iff.mp ?_
  by_cases hq : 0 ≤ q + 1 / 2
  · refine (Nat.floor_lt hq).mpr ?_
    push_cast
    linarith
  · rw [roundHalfUp, Nat.floor_of_nonpos (by linarith)]
    exact Nat.succ_pos n

theorem roundHalfUp_natCast (n : Nat) : roundHalfUp n = n := by
  rw [roundHalfUp, Nat.floor_eq_iff (by positivity)]
  constructor <;> linarith

theorem mul_min_le {w : Nat} (hw : 0 < w) (a b : Rat) : (w : Rat) * min (a / w) b ≤ a := by
  have hpos : (0 : Rat) < w := by exact_mod_cast hw
  calc (w : Rat) * min (a / w) b ≤ w * (a / w) :=
        mul_le_mul_of_nonneg_left (min_le_left _ _) hpos.le
    _ = a := mul_div_cancel₀ a hpos.ne'

/-- The edges of a picture that was fitted. -/
structure Fitted (r : Nat × Nat) (w h maxW maxH : Nat) : Prop where
  width : 2 ≤ r.1 ∧ r.1 % 2 = 0 ∧ r.1 ≤ maxW ∧ r.1 ≤ max w 2
  height : 2 ≤ r.2 ∧ r.2 % 2 = 0 ∧ r.2 ≤ maxH ∧ r.2 ≤ max h 2

theorem edge_fitted {n bound size : Nat} (hbound : 2 ≤ bound) (hn : n ≤ bound)
    (hsize : n ≤ max size 2) :
    2 ≤ even (max n 2) ∧ even (max n 2) % 2 = 0 ∧ even (max n 2) ≤ bound ∧
      even (max n 2) ≤ max size 2 := by
  have hle := even_le (max n 2)
  exact ⟨le_even rfl (Nat.le_max_right n 2), even_mod _, by omega, by omega⟩

theorem fitWithin_fitted (w h : Nat) {maxW maxH : Nat} (hmaxW : 2 ≤ maxW) (hmaxH : 2 ≤ maxH) :
    Fitted (fitWithin w h maxW maxH) w h maxW maxH := by
  rw [fitWithin, Nat.max_eq_left hmaxW, Nat.max_eq_left hmaxH]
  simp only
  have hw2 : 2 ≤ max w 2 := Nat.le_max_right w 2
  have hh2 : 2 ≤ max h 2 := Nat.le_max_right h 2
  generalize hw : max w 2 = w' at *
  generalize hh : max h 2 = h' at *
  by_cases hfits : w' ≤ maxW ∧ h' ≤ maxH
  · rw [if_pos hfits]
    refine ⟨⟨le_even rfl hw2, even_mod _, ?_, ?_⟩, le_even rfl hh2, even_mod _, ?_, ?_⟩
    · exact (even_le w').trans hfits.1
    · exact hw ▸ even_le w'
    · exact (even_le h').trans hfits.2
    · exact hh ▸ even_le h'
  · rw [if_neg hfits]
    have hwpos : (0 : Rat) < w' := by exact_mod_cast (by omega : 0 < w')
    have hhpos : (0 : Rat) < h' := by exact_mod_cast (by omega : 0 < h')
    have hscale : min ((maxW : Rat) / w') (maxH / h') ≤ 1 := by
      rcases not_and_or.mp hfits with hwide | hhigh
      · refine (min_le_left _ _).trans ((div_le_one hwpos).mpr ?_)
        exact_mod_cast (by omega : maxW ≤ w')
      · refine (min_le_right _ _).trans ((div_le_one hhpos).mpr ?_)
        exact_mod_cast (by omega : maxH ≤ h')
    have hshrink : ∀ n : Nat,
        roundHalfUp (n * min ((maxW : Rat) / w') (maxH / h')) ≤ n := fun n =>
      roundHalfUp_le (by nlinarith [(Nat.cast_nonneg n : (0 : Rat) ≤ n)])
    have hwidth := roundHalfUp_le (mul_min_le (by omega : 0 < w') (maxW : Rat) (maxH / h'))
    have hheight : roundHalfUp (h' * min ((maxW : Rat) / w') (maxH / h')) ≤ maxH := by
      rw [min_comm]
      exact roundHalfUp_le (mul_min_le (by omega : 0 < h') (maxH : Rat) (maxW / w'))
    refine ⟨edge_fitted hmaxW hwidth ?_, edge_fitted hmaxH hheight ?_⟩
    · exact (hshrink w').trans (by omega)
    · exact (hshrink h').trans (by omega)

theorem fitWithin_max (w h maxW maxH : Nat) :
    fitWithin w h (max maxW 2) (max maxH 2) = fitWithin w h maxW maxH := by
  simp only [fitWithin, Nat.max_assoc, Nat.max_self]

theorem fitWithin_of_inside {w h maxW maxH : Nat} (hw : 2 ≤ w) (hh : 2 ≤ h) (hwle : w ≤ maxW)
    (hhle : h ≤ maxH) : fitWithin w h maxW maxH = (even w, even h) := by
  rw [fitWithin, Nat.max_eq_left hw, Nat.max_eq_left hh, Nat.max_eq_left (hw.trans hwle),
    Nat.max_eq_left (hh.trans hhle)]
  exact if_pos ⟨hwle, hhle⟩

theorem fitWithin_of_high {w h maxW maxH : Nat} (hw : 2 ≤ w) (hwle : w ≤ maxW)
    (hmaxH : 2 ≤ maxH) (hhigh : maxH < h) (heven : maxH % 2 = 0) :
    (fitWithin w h maxW maxH).2 = maxH := by
  rw [fitWithin, Nat.max_eq_left hw, Nat.max_eq_left (by omega : 2 ≤ h),
    Nat.max_eq_left (hw.trans hwle), Nat.max_eq_left hmaxH]
  simp only
  rw [if_neg (by omega)]
  have hwpos : (0 : Rat) < w := by exact_mod_cast (by omega : 0 < w)
  have hhpos : (0 : Rat) < h := by exact_mod_cast (by omega : 0 < h)
  have hmin : min ((maxW : Rat) / w) (maxH / h) = maxH / h := by
    refine min_eq_right ?_
    calc (maxH : Rat) / h ≤ 1 := (div_le_one hhpos).mpr (by exact_mod_cast hhigh.le)
      _ ≤ maxW / w := (one_le_div hwpos).mpr (by exact_mod_cast hwle)
  rw [hmin, mul_div_cancel₀ _ hhpos.ne', roundHalfUp_natCast, Nat.max_eq_left hmaxH,
    even_of_mod heven]

/-! ## Boxes of pixels -/

theorem boxStart_lt {i src dst : Nat} (hsrc : 0 < src) (hi : i < dst) :
    boxStart i src dst < src := by
  rw [boxStart, Nat.div_lt_iff_lt_mul (by omega), Nat.mul_comm src]
  exact Nat.mul_lt_mul_of_pos_right hi hsrc

theorem box_inside {i step src dst : Nat} (hsrc : 0 < src) (hi : i < dst) :
    boxStart i src dst < boxEnd i step src dst ∧ boxEnd i step src dst ≤ src := by
  have hstart := boxStart_lt hsrc hi
  rw [boxEnd]
  omega

/-- Every pixel is in a box: the one of the place it is scaled to, or a wider one
that starts no later. -/
theorem mem_box {p i step src dst : Nat} (hp : p < src) (hi : i ≤ p * dst / src)
    (hstep : p * dst / src < i + step) (hdst : 0 < dst) :
    boxStart i src dst ≤ p ∧ p < boxEnd i step src dst := by
  have hsrc : 0 < src := by omega
  have hlow : i * src ≤ p * dst := (Nat.le_div_iff_mul_le hsrc).mp hi
  have hhigh : p * dst < (i + step) * src := (Nat.div_lt_iff_lt_mul hsrc).mp hstep
  have hstart : boxStart i src dst ≤ p := by
    rw [boxStart]
    exact Nat.div_le_of_le_mul (by rw [Nat.mul_comm dst]; exact hlow)
  have hend : p < ((i + step) * src + dst - 1) / dst := by
    rw [← Nat.succ_le_iff, Nat.le_div_iff_mul_le hdst, Nat.succ_mul]
    omega
  rw [boxEnd]
  omega

/-- Every pixel is in the box of a place, and in the box of a pair of places. -/
theorem exists_boxes {p src dst : Nat} (hp : p < src) (hdst : 0 < dst) (heven : dst % 2 = 0) :
    (∃ i, i < dst ∧ boxStart i src dst ≤ p ∧ p < boxEnd i 1 src dst) ∧
      ∃ c, c < dst / 2 ∧ boxStart (c * 2) src dst ≤ p ∧ p < boxEnd (c * 2) 2 src dst := by
  have hsrc : 0 < src := by omega
  have hplace : p * dst / src < dst := by
    rw [Nat.div_lt_iff_lt_mul hsrc, Nat.mul_comm dst]
    exact Nat.mul_lt_mul_of_pos_right hp hdst
  refine ⟨⟨p * dst / src, hplace, mem_box hp (Nat.le_refl _) (Nat.lt_succ_self _) hdst⟩,
    p * dst / src / 2, by omega, mem_box hp (by omega) (by omega) hdst⟩

/-! ## Reading boxes -/

theorem isSome_mapM_iff {α β : Type} {f : α → Option β} {xs : List α} :
    (xs.mapM f).isSome = true ↔ ∀ x ∈ xs, (f x).isSome = true := by
  induction xs with
  | nil => simp
  | cons x xs ih =>
    rw [List.mapM_cons]
    cases hx : f x with
    | none => simp [hx]
    | some y =>
      cases hxs : xs.mapM f with
      | none =>
        rw [hxs] at ih
        simp [hx, ← ih]
      | some ys =>
        rw [hxs] at ih
        simp [hx, ← ih]

theorem length_mapM {α β : Type} {f : α → Option β} {xs : List α} {ys : List β}
    (h : xs.mapM f = some ys) : ys.length = xs.length := by
  induction xs generalizing ys with
  | nil =>
    cases h
    rfl
  | cons x xs ih =>
    rw [List.mapM_cons] at h
    cases hx : f x with
    | none =>
      rw [hx] at h
      cases h
    | some y =>
      cases hxs : xs.mapM f with
      | none =>
        rw [hx, hxs] at h
        cases h
      | some ys' =>
        rw [hx, hxs] at h
        cases h
        exact congrArg Nat.succ (ih hxs)

theorem mem_mapM {α β : Type} {f : α → Option β} {xs : List α} {ys : List β}
    (h : xs.mapM f = some ys) : ∀ y ∈ ys, ∃ x ∈ xs, f x = some y := by
  induction xs generalizing ys with
  | nil =>
    cases h
    simp
  | cons x xs ih =>
    rw [List.mapM_cons] at h
    cases hx : f x with
    | none =>
      rw [hx] at h
      cases h
    | some y =>
      cases hxs : xs.mapM f with
      | none =>
        rw [hx, hxs] at h
        cases h
      | some ys' =>
        rw [hx, hxs] at h
        cases h
        intro y' hy'
        rcases List.mem_cons.mp hy' with rfl | hy'
        · exact ⟨x, List.mem_cons_self, hx⟩
        · obtain ⟨x', hx', hfx'⟩ := ih hxs y' hy'
          exact ⟨x', List.mem_cons_of_mem _ hx', hfx'⟩

theorem length_flatten_of_rows {w : Nat} {rows : List Bytes} (h : ∀ row ∈ rows, row.length = w) :
    rows.flatten.length = rows.length * w := by
  induction rows with
  | nil => simp
  | cons row rows ih =>
    rw [List.flatten_cons, List.length_append, h row List.mem_cons_self,
      ih fun r hr => h r (List.mem_cons_of_mem _ hr), List.length_cons, Nat.succ_mul, Nat.add_comm]

theorem length_fromBoxes {box : Nat → Nat → Option UInt8} {w h : Nat} {plane : Bytes}
    (hplane : fromBoxes box w h = some plane) : plane.length = w * h := by
  unfold fromBoxes at hplane
  cases hrows : (List.range h).mapM fun dy => (List.range w).mapM fun dx => box dx dy with
  | none =>
    rw [hrows] at hplane
    cases hplane
  | some rows =>
    rw [hrows] at hplane
    cases hplane
    have hrow : ∀ row ∈ rows, row.length = w := fun row hrow => by
      obtain ⟨dy, -, hdy⟩ := mem_mapM hrows row hrow
      rw [length_mapM hdy, List.length_range]
    rw [length_flatten_of_rows hrow, length_mapM hrows, List.length_range, Nat.mul_comm]

theorem isSome_fromBoxes_iff {box : Nat → Nat → Option UInt8} {w h : Nat} :
    (fromBoxes box w h).isSome = true ↔
      ∀ dy, dy < h → ∀ dx, dx < w → (box dx dy).isSome = true := by
  have hbind : (fromBoxes box w h).isSome =
      ((List.range h).mapM fun dy => (List.range w).mapM fun dx => box dx dy).isSome := by
    unfold fromBoxes
    cases (List.range h).mapM fun dy => (List.range w).mapM fun dx => box dx dy <;> rfl
  rw [hbind, isSome_mapM_iff]
  simp only [isSome_mapM_iff, List.mem_range]

theorem isSome_boxPixels_iff {α : Type} {at? : Nat → Nat → Option α} {x0 x1 y0 y1 : Nat} :
    (boxPixels at? x0 x1 y0 y1).isSome = true ↔
      ∀ y, y0 ≤ y → y < y1 → ∀ x, x0 ≤ x → x < x1 → (at? y x).isSome = true := by
  have hbind : (boxPixels at? x0 x1 y0 y1).isSome =
      ((List.range' y0 (y1 - y0)).mapM fun y =>
        (List.range' x0 (x1 - x0)).mapM (at? y)).isSome := by
    unfold boxPixels
    cases (List.range' y0 (y1 - y0)).mapM fun y =>
      (List.range' x0 (x1 - x0)).mapM (at? y) <;> rfl
  rw [hbind, isSome_mapM_iff]
  simp only [isSome_mapM_iff, List.mem_range'_1]
  constructor
  · intro h y hy0 hy1 x hx0 hx1
    exact h y ⟨hy0, by omega⟩ x ⟨hx0, by omega⟩
  · intro h y hy x hx
    exact h y hy.1 (by omega) x hx.1 (by omega)

theorem isSome_boxAvg_iff {plane : Bytes} {stride x0 x1 y0 y1 : Nat} :
    (boxAvg plane stride x0 x1 y0 y1).isSome = true ↔
      ∀ y, y0 ≤ y → y < y1 → ∀ x, x0 ≤ x → x < x1 → y * stride + x < plane.length := by
  have hbind : (boxAvg plane stride x0 x1 y0 y1).isSome =
      (boxPixels (fun y x => plane[y * stride + x]?) x0 x1 y0 y1).isSome := by
    unfold boxAvg
    cases boxPixels (fun y x => plane[y * stride + x]?) x0 x1 y0 y1 <;> rfl
  rw [hbind, isSome_boxPixels_iff]
  simp only [isSome_getElem?]

theorem isSome_averageBox_iff {colour : Colour} {src : Bytes} {stride x0 x1 y0 y1 : Nat} :
    (averageBox colour src stride x0 x1 y0 y1).isSome = true ↔
      ∀ y, y0 ≤ y → y < y1 → ∀ x, x0 ≤ x → x < x1 → (pixelAt? src stride y x).isSome = true := by
  have hbind : (averageBox colour src stride x0 x1 y0 y1).isSome =
      (boxPixels (pixelAt? src stride) x0 x1 y0 y1).isSome := by
    unfold averageBox
    cases boxPixels (pixelAt? src stride) x0 x1 y0 y1 <;> rfl
  rw [hbind, isSome_boxPixels_iff]

theorem pixelAt?_isSome {src : Bytes} {stride y x : Nat}
    (h : y * stride + x * 4 + 2 < src.length) : (pixelAt? src stride y x).isSome = true := by
  rw [pixelAt?, List.getElem?_eq_getElem (by omega : y * stride + x * 4 < src.length), some_bind,
    List.getElem?_eq_getElem (by omega : y * stride + x * 4 + 1 < src.length), some_bind,
    List.getElem?_eq_getElem h, some_bind]
  rfl

theorem scalePlane_eq_none_iff {src : Bytes} {srcW srcH dstW dstH : Nat}
    (hlen : src.length = srcW * srcH) :
    scalePlane src srcW srcH dstW dstH = none ↔
      0 < dstW ∧ 0 < dstH ∧ (srcW = 0 ∨ srcH = 0) := by
  rw [← not_iff_not, ← ne_eq, ← Option.isSome_iff_ne_none, scalePlane, isSome_fromBoxes_iff]
  simp only [isSome_boxAvg_iff]
  constructor
  · rintro h ⟨hw, hh, hempty⟩
    have hzero : src.length = 0 := by
      rw [hlen]
      rcases hempty with h0 | h0
      · rw [h0, Nat.zero_mul]
      · rw [h0, Nat.mul_zero]
    have hy : boxStart 0 srcH dstH < boxEnd 0 1 srcH dstH := by
      rw [boxEnd]
      omega
    have hx : boxStart 0 srcW dstW < boxEnd 0 1 srcW dstW := by
      rw [boxEnd]
      omega
    have hin := h 0 hh 0 hw _ (Nat.le_refl _) hy _ (Nat.le_refl _) hx
    omega
  · intro h dy hdy dx hdx y hy0 hy1 x hx0 hx1
    have hw : 0 < srcW := by
      by_contra h0
      exact h ⟨by omega, by omega, .inl (by omega)⟩
    have hh : 0 < srcH := by
      by_contra h0
      exact h ⟨by omega, by omega, .inr (by omega)⟩
    have hyend := (@box_inside dy 1 _ _ hh hdy).2
    have hxend := (@box_inside dx 1 _ _ hw hdx).2
    have hrow := row_end_le (Nat.le_refl srcW) (by omega : y < srcH)
    rw [hlen, Nat.mul_comm srcW]
    omega

/-! ## Pictures on a ground -/

/-- A plane has a picture at a place and is of one value elsewhere. -/
structure PlaneFramed (plane : Bytes) (w h : Nat) (content : Bytes) (cw ch x y : Nat)
    (ground : UInt8) : Prop where
  length_eq : plane.length = w * h
  inside : ∀ row, row < ch →
    (plane.drop ((y + row) * w + x)).take cw = (content.drop (row * cw)).take cw
  outside : ∀ row, row < h → ∀ col, col < w →
    ¬ (y ≤ row ∧ row < y + ch ∧ x ≤ col ∧ col < x + cw) → plane[row * w + col]? = some ground

theorem framed_self {plane : Bytes} {w h : Nat} (hlen : plane.length = w * h) (ground : UInt8) :
    PlaneFramed plane w h plane w h 0 0 ground where
  length_eq := hlen
  inside row _ := by rw [Nat.zero_add, Nat.add_zero]
  outside row hrow col hcol hnot := absurd ⟨Nat.zero_le _, by omega, Nat.zero_le _, by omega⟩ hnot

theorem row_unique {w r s c d : Nat} (hc : c < w) (hd : d < w) (h : r * w + c = s * w + d) :
    r = s ∧ c = d := by
  have hw : 0 < w := by omega
  have hdiv := congrArg (· / w) h
  simp only [Nat.add_comm (_ * w), Nat.add_mul_div_right _ _ hw, Nat.div_eq_of_lt hc,
    Nat.div_eq_of_lt hd] at hdiv
  have hrs : r = s := by omega
  subst hrs
  exact ⟨rfl, by omega⟩

theorem exists_blit {content : Bytes} {w h cw ch x y : Nat} (ground : UInt8)
    (hlen : content.length = cw * ch) (hx : x + cw ≤ w) (hy : y + ch ≤ h)
    (hsize : w * h < usizeBound) :
    ∃ plane, blit (List.replicate (w * h) ground) w content cw cw ch x y = some plane ∧
      PlaneFramed plane w h content cw ch x y ground := by
  have hlength : (List.replicate (w * h) ground).length = w * h := List.length_replicate
  have hrow : ∀ k, k < ch → (y + k) * w + w ≤ w * h := fun k hk => by
    rw [Nat.mul_comm w]
    exact row_end_le (Nat.le_refl w) (by omega)
  have hbase : ∀ k, (y + k) * w + x = y * w + x + k * w := fun k => by
    rw [Nat.add_mul]
    omega
  obtain ⟨plane, hplane, hrows⟩ := @exists_putRows (y * w + x)
    (fun k => (content.drop (k * cw)).take cw) (fun row => slice? content (row * cw) (row * cw + cw))
    w cw ch (List.replicate (w * h) ground) (by omega)
    (fun k hk => ⟨slice?_add (slice_length (Nat.le_of_eq hlen.symm) hk rfl).1,
      (slice_length (Nat.le_of_eq hlen.symm) hk rfl).2⟩)
    (fun k hk => by
      have hend := hrow k hk
      have hat := hbase k
      rw [hlength]
      omega)
    (by rw [hlength]; exact hsize)
  refine ⟨plane, hplane, hrows.length_eq.trans hlength, fun row hr => ?_,
    fun row hr col hc hnot => ?_⟩
  · rw [hbase row]
    exact hrows.row row hr
  · rw [hrows.rest (row * w + col) fun k hk => ?_, List.getElem?_replicate, if_pos]
    · have hend := row_end_le (Nat.le_refl w) hr
      rw [Nat.mul_comm w]
      omega
    · by_contra hin
      have hat := hbase k
      obtain ⟨d, hd⟩ : ∃ d, row * w + col = (y + k) * w + d :=
        ⟨row * w + col - (y + k) * w, by omega⟩
      obtain ⟨hrow', hcol'⟩ := row_unique hc (by omega : d < w) hd
      exact hnot ⟨by omega, by omega, by omega, by omega⟩

/-- A frame of a size shows a picture, centred on the even grid, on black. -/
structure Letterboxed (out content : RawFrame) (w h : Nat) : Prop where
  width : out.width = w
  height : out.height = h
  consistent : out.Consistent
  whole : content.Consistent
  y : PlaneFramed out.y w h content.y content.width content.height
    (even ((w - content.width) / 2)) (even ((h - content.height) / 2)) 16
  u : PlaneFramed out.u (w / 2) (h / 2) content.u (content.width / 2) (content.height / 2)
    (even ((w - content.width) / 2) / 2) (even ((h - content.height) / 2) / 2) 128
  v : PlaneFramed out.v (w / 2) (h / 2) content.v (content.width / 2) (content.height / 2)
    (even ((w - content.width) / 2) / 2) (even ((h - content.height) / 2) / 2) 128

theorem letterboxed_self {f : RawFrame} (h : f.Consistent) : Letterboxed f f f.width f.height := by
  have hzero : ∀ n, even ((n - n) / 2) = 0 := fun n => by rw [Nat.sub_self]; rfl
  refine ⟨rfl, rfl, h, h, ?_, ?_, ?_⟩
  · rw [hzero, hzero]
    exact framed_self h.y 16
  · rw [hzero, hzero]
    exact framed_self h.u 128
  · rw [hzero, hzero]
    exact framed_self h.v 128

theorem exists_letterboxed {content : RawFrame} {w h : Nat} (hcontent : content.Consistent)
    (hw : content.width ≤ w) (hh : content.height ≤ h) (hweven : w % 2 = 0) (hheven : h % 2 = 0)
    (hsize : w * h < usizeBound) :
    ∃ py pu pv,
      blit (List.replicate (w * h) 16) w content.y content.width content.width content.height
        (even ((w - content.width) / 2)) (even ((h - content.height) / 2)) = some py ∧
      blit (List.replicate (w / 2 * (h / 2)) 128) (w / 2) content.u (content.width / 2)
        (content.width / 2) (content.height / 2) (even ((w - content.width) / 2) / 2)
        (even ((h - content.height) / 2) / 2) = some pu ∧
      blit (List.replicate (w / 2 * (h / 2)) 128) (w / 2) content.v (content.width / 2)
        (content.width / 2) (content.height / 2) (even ((w - content.width) / 2) / 2)
        (even ((h - content.height) / 2) / 2) = some pv ∧
      Letterboxed ⟨w, h, py, pu, pv⟩ content w h := by
  have hcw := hcontent.width
  have hch := hcontent.height
  have hx : even ((w - content.width) / 2) + content.width ≤ w := by
    rw [even]
    omega
  have hy : even ((h - content.height) / 2) + content.height ≤ h := by
    rw [even]
    omega
  have hxhalf : even ((w - content.width) / 2) / 2 + content.width / 2 ≤ w / 2 := by omega
  have hyhalf : even ((h - content.height) / 2) / 2 + content.height / 2 ≤ h / 2 := by omega
  have hquarter : w / 2 * (h / 2) < usizeBound :=
    Nat.lt_of_le_of_lt (Nat.mul_le_mul (Nat.div_le_self _ _) (Nat.div_le_self _ _)) hsize
  obtain ⟨py, hpy, hyframed⟩ := exists_blit 16 hcontent.y hx hy hsize
  obtain ⟨pu, hpu, huframed⟩ := exists_blit 128 hcontent.u hxhalf hyhalf hquarter
  obtain ⟨pv, hpv, hvframed⟩ := exists_blit 128 hcontent.v hxhalf hyhalf hquarter
  exact ⟨py, pu, pv, hpy, hpu, hpv, rfl, rfl,
    ⟨hweven, hheven, hyframed.length_eq, huframed.length_eq, hvframed.length_eq⟩, hcontent,
    hyframed, huframed, hvframed⟩

/-! ## Frames of three planes -/

theorem badEdges_eq_false_iff {w h : Nat} :
    badEdges w h = false ↔ (2 ≤ w ∧ 2 ≤ h) ∧ w % 2 = 0 ∧ h % 2 = 0 := by
  simp only [badEdges, Bool.or_eq_false_iff, decide_eq_false_iff_not, Nat.not_lt,
    bne_eq_false_iff_eq, and_assoc]

theorem mulU32_of_lt {a b : Nat} (h : a * b < 2 ^ 32) : mulU32 a b = a * b :=
  Nat.mod_eq_of_lt h

theorem quarter_lt {w h : Nat} (harea : w * h < 2 ^ 32) : w / 2 * (h / 2) < 2 ^ 32 :=
  Nat.lt_of_le_of_lt (Nat.mul_le_mul (Nat.div_le_self _ _) (Nat.div_le_self _ _)) harea

/-- What the programs check is that a frame is consistent and its area a word. -/
theorem isConsistent_iff {f : RawFrame} (h : f.Consistent) :
    f.isConsistent = true ↔ f.width * f.height < 2 ^ 32 := by
  constructor
  · intro hcheck
    simp only [RawFrame.isConsistent, Bool.and_eq_true, beq_iff_eq] at hcheck
    have hy := hcheck.1.1.2
    rw [h.y] at hy
    rw [hy]
    exact Nat.mod_lt _ (by decide)
  · intro harea
    simp only [RawFrame.isConsistent, Bool.and_eq_true, beq_iff_eq]
    rw [mulU32_of_lt harea, mulU32_of_lt (quarter_lt harea)]
    exact ⟨⟨⟨⟨h.width, h.height⟩, h.y⟩, h.u⟩, h.v⟩

theorem scalePlane_isSome {src : Bytes} {srcW srcH : Nat} (hlen : src.length = srcW * srcH)
    (hw : 0 < srcW) (hh : 0 < srcH) (dstW dstH : Nat) :
    ∃ plane, scalePlane src srcW srcH dstW dstH = some plane ∧ plane.length = dstW * dstH := by
  cases hplane : scalePlane src srcW srcH dstW dstH with
  | none =>
    obtain ⟨-, -, hempty⟩ := (scalePlane_eq_none_iff hlen).mp hplane
    omega
  | some plane => exact ⟨plane, rfl, length_fromBoxes hplane⟩

theorem scaleI420_of_consistent {src : RawFrame} {dstW dstH : Nat} (hsrc : src.Consistent)
    (harea : src.width * src.height < 2 ^ 32) (hw : 0 < src.width) (hh : 0 < src.height)
    (hedges : badEdges dstW dstH = false) :
    ∃ content, scaleI420 src dstW dstH = some (some content) ∧ content.Consistent ∧
      content.width = dstW ∧ content.height = dstH := by
  have hcheck := (isConsistent_iff hsrc).mpr harea
  have hguard : ¬ (badEdges dstW dstH || !src.isConsistent) = true := by
    rw [hedges, hcheck]
    decide
  rw [scaleI420, if_neg hguard]
  by_cases hsame : src.width = dstW ∧ src.height = dstH
  · rw [if_pos hsame]
    exact ⟨src, rfl, hsrc, hsame⟩
  · rw [if_neg hsame]
    have hweven := hsrc.width
    have hheven := hsrc.height
    obtain ⟨y, hy, hylen⟩ := scalePlane_isSome hsrc.y hw hh dstW dstH
    obtain ⟨u, hu, hulen⟩ :=
      scalePlane_isSome hsrc.u (by omega) (by omega) (dstW / 2) (dstH / 2)
    obtain ⟨v, hv, hvlen⟩ :=
      scalePlane_isSome hsrc.v (by omega) (by omega) (dstW / 2) (dstH / 2)
    obtain ⟨-, hdw, hdh⟩ := badEdges_eq_false_iff.mp hedges
    refine ⟨⟨dstW, dstH, y, u, v⟩, ?_, ⟨hdw, hdh, hylen, hulen, hvlen⟩, rfl, rfl⟩
    rw [hy, some_bind, hu, some_bind, hv, some_bind]

theorem black_of_lt {w h : Nat} (hweven : w % 2 = 0) (hheven : h % 2 = 0)
    (harea : w * h < 2 ^ 32) :
    RawFrame.black w h = ⟨w, h, List.replicate (w * h) 16, List.replicate (w / 2 * (h / 2)) 128,
      List.replicate (w / 2 * (h / 2)) 128⟩ := by
  rw [RawFrame.black, even_of_mod hweven, even_of_mod hheven, mulU32_of_lt harea,
    mulU32_of_lt (quarter_lt harea)]

theorem overlay_black {content : RawFrame} {w h : Nat} (hcontent : content.Consistent)
    (hcw : 2 ≤ content.width) (hch : 2 ≤ content.height) (hw : content.width ≤ w)
    (hh : content.height ≤ h) (hweven : w % 2 = 0) (hheven : h % 2 = 0)
    (harea : w * h < 2 ^ 32) :
    ∃ out, overlayI420 (RawFrame.black w h) content (even ((w - content.width) / 2))
        (even ((h - content.height) / 2)) = some out ∧ Letterboxed out content w h := by
  have hsize : w * h < usizeBound := harea.trans (by decide)
  obtain ⟨py, pu, pv, hpy, hpu, hpv, hboxed⟩ :=
    exists_letterboxed hcontent hw hh hweven hheven hsize
  refine ⟨_, ?_, hboxed⟩
  have hblack : (RawFrame.black w h).Consistent := by
    rw [black_of_lt hweven hheven harea]
    exact ⟨hweven, hheven, List.length_replicate, List.length_replicate, List.length_replicate⟩
  have hdims : (RawFrame.black w h).width = w ∧ (RawFrame.black w h).height = h := by
    rw [black_of_lt hweven hheven harea]
    exact ⟨rfl, rfl⟩
  have hblackCheck : (RawFrame.black w h).isConsistent = true := by
    rw [isConsistent_iff hblack, hdims.1, hdims.2]
    exact harea
  have hcheck : content.isConsistent = true :=
    (isConsistent_iff hcontent).mpr (Nat.lt_of_le_of_lt (Nat.mul_le_mul hw hh) harea)
  have hcweven := hcontent.width
  have hcheven := hcontent.height
  have hx : even ((w - content.width) / 2) % 2 = 0 := even_mod _
  have hy : even ((h - content.height) / 2) % 2 = 0 := even_mod _
  have hxle := even_le ((w - content.width) / 2)
  have hyle := even_le ((h - content.height) / 2)
  have hwhole : even (min content.width (w - even ((w - content.width) / 2))) =
      content.width := by
    rw [Nat.min_eq_left (by omega), even_of_mod hcweven]
  have hhwhole : even (min content.height (h - even ((h - content.height) / 2))) =
      content.height := by
    rw [Nat.min_eq_left (by omega), even_of_mod hcheven]
  have hguard : ¬ (!(RawFrame.black w h).isConsistent || !content.isConsistent) = true := by
    rw [hblackCheck, hcheck]
    decide
  rw [overlayI420, if_neg hguard]
  simp only [even_of_mod hx, even_of_mod hy, hdims.1, hdims.2, hwhole, hhwhole]
  rw [if_neg (by omega), if_neg (by omega)]
  simp only [black_of_lt hweven hheven harea, hpy, hpu, hpv, some_bind]

theorem length_overlay {dst src out : RawFrame} {x y : Nat}
    (h : overlayI420 dst src x y = some out) : out.y.length = dst.y.length := by
  rw [overlayI420] at h
  split at h
  · cases h
    rfl
  · simp only at h
    split at h
    · cases h
      rfl
    · split at h
      · cases h
        rfl
      · obtain ⟨py, hpy, h⟩ := Option.bind_eq_some_iff.mp h
        obtain ⟨pu, -, h⟩ := Option.bind_eq_some_iff.mp h
        obtain ⟨pv, -, h⟩ := Option.bind_eq_some_iff.mp h
        cases h
        exact length_foldlM_putRow hpy

/-- A frame comes out as it should exactly when both areas are words and the
source has pixels. -/
theorem letterboxI420_iff {src : RawFrame} {w h : Nat} (hsrc : src.Consistent)
    (hweven : w % 2 = 0) (hheven : h % 2 = 0) :
    (∃ out content, letterboxI420 src w h = some (some out) ∧
        (content.width, content.height) = fitWithin src.width src.height w h ∧
          Letterboxed out content w h) ↔
      (0 < src.width ∧ 0 < src.height ∧ src.width * src.height < 2 ^ 32) ∧
        2 ≤ w ∧ 2 ≤ h ∧ w * h < 2 ^ 32 := by
  have hsw := hsrc.width
  have hsh := hsrc.height
  constructor
  · rintro ⟨out, content, hout, -, hboxed⟩
    rw [letterboxI420] at hout
    by_cases hguard : (badEdges w h || !src.isConsistent) = true
    · rw [if_pos hguard] at hout
      cases hout
    · rw [if_neg hguard] at hout
      simp only [Bool.or_eq_true, not_or, Bool.not_eq_true, Bool.not_eq_eq_eq_not, Bool.not_true,
        Bool.not_eq_false] at hguard
      obtain ⟨hedges, hcheck⟩ := hguard
      obtain ⟨⟨hw2, hh2⟩, -, -⟩ := badEdges_eq_false_iff.mp hedges
      have harea := (isConsistent_iff hsrc).mp hcheck
      by_cases hsame : src.width = w ∧ src.height = h
      · rw [hsame.1, hsame.2] at harea ⊢
        exact ⟨⟨by omega, by omega, harea⟩, hw2, hh2, harea⟩
      · rw [if_neg hsame] at hout
        simp only at hout
        obtain ⟨hfitw, hfith⟩ := fitWithin_fitted src.width src.height hw2 hh2
        generalize fitWithin src.width src.height w h = fit at hout hfitw hfith
        have hpos : 0 < src.width ∧ 0 < src.height := by
          by_contra hempty
          have hfitsame : ¬ (src.width = fit.1 ∧ src.height = fit.2) := by omega
          have hplane : scalePlane src.y src.width src.height fit.1 fit.2 = none :=
            (scalePlane_eq_none_iff hsrc.y).mpr ⟨by omega, by omega, by omega⟩
          have hfitedges : badEdges fit.1 fit.2 = false :=
            badEdges_eq_false_iff.mpr ⟨⟨hfitw.1, hfith.1⟩, hfitw.2.1, hfith.2.1⟩
          rw [scaleI420, hfitedges, hcheck, if_neg (by decide), if_neg hfitsame, hplane] at hout
          cases hout
        refine ⟨⟨hpos.1, hpos.2, harea⟩, hw2, hh2, ?_⟩
        by_cases hfull : fit.1 = w ∧ fit.2 = h
        · -- the source is not enlarged, so the frame is no larger than it
          rw [← hfull.1, ← hfull.2]
          exact Nat.lt_of_le_of_lt (Nat.mul_le_mul (by omega) (by omega)) harea
        · obtain ⟨scaled, -, hout⟩ := Option.bind_eq_some_iff.mp hout
          cases scaled with
          | none => cases hout
          | some scaled =>
            simp only [if_neg hfull] at hout
            obtain ⟨drawn, hdrawn, hout⟩ := Option.bind_eq_some_iff.mp hout
            cases hout
            have hlen := length_overlay hdrawn
            have hblack : (RawFrame.black w h).y.length < 2 ^ 32 := by
              rw [RawFrame.black, List.length_replicate]
              exact Nat.mod_lt _ (by decide)
            rw [← hboxed.y.length_eq]
            omega
  · rintro ⟨⟨hw, hh, harea⟩, hw2, hh2, hdst⟩
    have hedges : badEdges w h = false :=
      badEdges_eq_false_iff.mpr ⟨⟨hw2, hh2⟩, hweven, hheven⟩
    have hcheck := (isConsistent_iff hsrc).mpr harea
    have hguard : ¬ (badEdges w h || !src.isConsistent) = true := by
      rw [hedges, hcheck]
      decide
    rw [letterboxI420, if_neg hguard]
    by_cases hsame : src.width = w ∧ src.height = h
    · rw [if_pos hsame]
      obtain ⟨rfl, rfl⟩ := hsame
      refine ⟨src, src, rfl, ?_, letterboxed_self hsrc⟩
      rw [fitWithin_of_inside hw2 hh2 (Nat.le_refl _) (Nat.le_refl _), even_of_mod hsw,
        even_of_mod hsh]
    · rw [if_neg hsame]
      simp only
      obtain ⟨hfitw, hfith⟩ := fitWithin_fitted src.width src.height hw2 hh2
      generalize hfit : fitWithin src.width src.height w h = fit at hfitw hfith
      have hfitedges : badEdges fit.1 fit.2 = false :=
        badEdges_eq_false_iff.mpr ⟨⟨hfitw.1, hfith.1⟩, hfitw.2.1, hfith.2.1⟩
      obtain ⟨content, hcontent, hconsistent, hcw, hch⟩ :=
        scaleI420_of_consistent hsrc harea hw hh hfitedges
      rw [hcontent, some_bind]
      simp only
      by_cases hfull : fit.1 = w ∧ fit.2 = h
      · rw [if_pos hfull]
        refine ⟨content, content, rfl, Prod.ext hcw hch, ?_⟩
        rw [← hfull.1, ← hfull.2, ← hcw, ← hch]
        exact letterboxed_self hconsistent
      · rw [if_neg hfull]
        obtain ⟨out, hout, hboxed⟩ := overlay_black hconsistent (by omega) (by omega)
          (by omega) (by omega) hweven hheven hdst
        rw [hcw, hch] at hout
        rw [hout, some_bind]
        exact ⟨out, content, rfl, Prod.ext hcw hch, hboxed⟩

/-! ## Frames of a captured screen -/

section Screen

variable {rgbToY rgbToU rgbToV : Colour} {src : Bytes} {stride srcW srcH : Nat}

theorem averageBox_isSome (colour : Colour) (step : Nat) (hstride : srcW * 4 ≤ stride)
    (hlen : stride * srcH ≤ src.length) (hw : 0 < srcW) (hh : 0 < srcH) {i j dstW dstH : Nat}
    (hi : i < dstW) (hj : j < dstH) :
    (averageBox colour src stride (boxStart i srcW dstW) (boxEnd i step srcW dstW)
      (boxStart j srcH dstH) (boxEnd j step srcH dstH)).isSome = true := by
  rw [isSome_averageBox_iff]
  intro y _ hy x _ hx
  have hyend := (@box_inside j step _ _ hh hj).2
  have hxend := (@box_inside i step _ _ hw hi).2
  have hrow := row_end_le hstride (by omega : y < srcH)
  rw [Nat.mul_comm] at hlen
  exact pixelAt?_isSome (by omega)

theorem exists_fromBoxes {box : Nat → Nat → Option UInt8} {w h : Nat}
    (hbox : ∀ dy, dy < h → ∀ dx, dx < w → (box dx dy).isSome = true) :
    ∃ plane, fromBoxes box w h = some plane ∧ plane.length = w * h := by
  obtain ⟨plane, hplane⟩ := Option.isSome_iff_exists.mp (isSome_fromBoxes_iff.mpr hbox)
  exact ⟨plane, hplane, length_fromBoxes hplane⟩

theorem bgraToI420Scaled_of_fit (hstride : srcW * 4 ≤ stride) (hlen : stride * srcH ≤ src.length)
    (hw : 0 < srcW) (hh : 0 < srcH) {dstW dstH : Nat} (hdw : 0 < dstW) (hdh : 0 < dstH)
    (hweven : dstW % 2 = 0) (hheven : dstH % 2 = 0) :
    ∃ content, bgraToI420Scaled rgbToY rgbToU rgbToV src stride srcW srcH dstW dstH =
        some (some content) ∧
      content.Consistent ∧ content.width = dstW ∧ content.height = dstH := by
  have hwrapped := Nat.mod_le (stride * srcH) (2 ^ 64)
  obtain ⟨y, hy, hylen⟩ := exists_fromBoxes (w := dstW) (h := dstH) fun dy hdy dx hdx =>
    averageBox_isSome rgbToY 1 hstride hlen hw hh hdx hdy
  obtain ⟨u, hu, hulen⟩ := exists_fromBoxes (w := dstW / 2) (h := dstH / 2) fun dy hdy dx hdx =>
    averageBox_isSome rgbToU 2 hstride hlen hw hh (by omega : dx * 2 < dstW)
      (by omega : dy * 2 < dstH)
  obtain ⟨v, hv, hvlen⟩ := exists_fromBoxes (w := dstW / 2) (h := dstH / 2) fun dy hdy dx hdx =>
    averageBox_isSome rgbToV 2 hstride hlen hw hh (by omega : dx * 2 < dstW)
      (by omega : dy * 2 < dstH)
  refine ⟨⟨dstW, dstH, y, u, v⟩, ?_, ⟨hweven, hheven, hylen, hulen, hvlen⟩, rfl, rfl⟩
  rw [bgraToI420Scaled, if_neg (by omega), if_neg (by omega), if_neg (by omega),
    if_neg (by omega)]
  simp only [hy, hu, hv, some_bind]

/-- Where the size of a screen passes a word, a row that starts within the word
is past the end of every source. -/
theorem exists_far_row (hstride : stride < 2 ^ 64) (hsize : 2 ^ 64 ≤ stride * srcH) :
    ∃ y, y < srcH ∧ 2 ^ 63 ≤ y * stride ∧ y * stride < 2 ^ 64 := by
  by_cases hlarge : 2 ^ 63 ≤ stride
  · refine ⟨1, ?_, by omega, by omega⟩
    by_contra hsmall
    have hone : stride * srcH ≤ stride * 1 := Nat.mul_le_mul_left stride (by omega)
    omega
  · have hpos : 0 < stride := by
      by_contra hzero
      rw [Nat.eq_zero_of_not_pos hzero, Nat.zero_mul] at hsize
      omega
    have hrows := Nat.div_add_mod (2 ^ 63 + stride - 1) stride
    have hrest := Nat.mod_lt (2 ^ 63 + stride - 1) hpos
    rw [Nat.mul_comm] at hrows
    refine ⟨(2 ^ 63 + stride - 1) / stride, ?_, by omega, by omega⟩
    refine Nat.lt_of_mul_lt_mul_left (a := stride) ?_
    rw [Nat.mul_comm stride]
    omega

/-- Scaling a screen indexes out of it exactly when its size, wrapped to a word,
passes the check, and the size itself is no word. -/
theorem bgraToI420Scaled_eq_none_iff (hsrc : src.length < 2 ^ 63) (hstride : stride < 2 ^ 64)
    (dstW dstH : Nat) :
    bgraToI420Scaled rgbToY rgbToU rgbToV src stride srcW srcH dstW dstH = none ↔
      ((0 < srcW ∧ 0 < srcH) ∧ 0 < dstW ∧ 0 < dstH) ∧ (dstW % 2 = 0 ∧ dstH % 2 = 0) ∧
        srcW * 4 ≤ stride ∧ stride * srcH % 2 ^ 64 ≤ src.length ∧ 2 ^ 64 ≤ stride * srcH := by
  by_cases hzero : srcW = 0 ∨ srcH = 0 ∨ dstW = 0 ∨ dstH = 0
  · rw [bgraToI420Scaled, if_pos hzero]
    exact ⟨nofun, fun h => by omega⟩
  by_cases hodd : dstW % 2 ≠ 0 ∨ dstH % 2 ≠ 0
  · rw [bgraToI420Scaled, if_neg hzero, if_pos hodd]
    exact ⟨nofun, fun h => by omega⟩
  by_cases hnarrow : stride < srcW * 4
  · rw [bgraToI420Scaled, if_neg hzero, if_neg hodd, if_pos hnarrow]
    exact ⟨nofun, fun h => by omega⟩
  by_cases hshort : src.length < stride * srcH % 2 ^ 64
  · rw [bgraToI420Scaled, if_neg hzero, if_neg hodd, if_neg hnarrow, if_pos hshort]
    exact ⟨nofun, fun h => by omega⟩
  by_cases hsize : stride * srcH < 2 ^ 64
  · rw [Nat.mod_eq_of_lt hsize] at hshort
    obtain ⟨content, hcontent, -⟩ := @bgraToI420Scaled_of_fit rgbToY rgbToU rgbToV src stride
      srcW srcH (by omega) (by omega) (by omega) (by omega) dstW dstH (by omega) (by omega)
      (by omega) (by omega)
    rw [hcontent]
    exact ⟨nofun, fun h => by omega⟩
  · refine ⟨fun _ => by omega, fun _ => ?_⟩
    obtain ⟨y, hy, hfar, -⟩ := exists_far_row hstride (Nat.le_of_not_lt hsize)
    obtain ⟨⟨dy, hdy, hyfrom, hyto⟩, -⟩ := exists_boxes hy (by omega : 0 < dstH) (by omega)
    obtain ⟨⟨dx, hdx, hxfrom, hxto⟩, -⟩ :=
      exists_boxes (by omega : 0 < srcW) (by omega : 0 < dstW) (by omega)
    have hluma : fromBoxes (fun dx dy =>
        averageBox rgbToY src stride (boxStart dx srcW dstW) (boxEnd dx 1 srcW dstW)
          (boxStart dy srcH dstH) (boxEnd dy 1 srcH dstH)) dstW dstH = none := by
      by_contra hsome
      rw [← ne_eq, ← Option.isSome_iff_ne_none, isSome_fromBoxes_iff] at hsome
      have hpixel := isSome_averageBox_iff.mp (hsome dy hdy dx hdx) y hyfrom hyto 0 hxfrom hxto
      rw [pixelAt?, List.getElem?_eq_none (by omega)] at hpixel
      cases hpixel
    rw [bgraToI420Scaled, if_neg hzero, if_neg hodd, if_neg hnarrow, if_neg hshort]
    simp only [hluma]
    rfl

/-- A frame comes out as it should exactly when screen and frame have pixels. -/
theorem bgraToI420Letterboxed_iff (hstride : srcW * 4 ≤ stride)
    (hlen : stride * srcH ≤ src.length) {w h : Nat} (hweven : w % 2 = 0) (hheven : h % 2 = 0)
    (hsize : w * h < usizeBound) :
    (∃ out content, bgraToI420Letterboxed rgbToY rgbToU rgbToV src stride srcW srcH w h =
          some (some out) ∧
        (content.width, content.height) = fitWithin srcW srcH w h ∧
          Letterboxed out content w h) ↔
      (0 < srcW ∧ 0 < srcH) ∧ 0 < w ∧ 0 < h := by
  constructor
  · rintro ⟨out, content, hout, -⟩
    rw [bgraToI420Letterboxed] at hout
    split at hout
    · cases hout
    · next hedges =>
      refine ⟨?_, by omega, by omega⟩
      by_contra hempty
      have hnone : ∀ dstW dstH, bgraToI420Scaled rgbToY rgbToU rgbToV src stride srcW srcH
          dstW dstH = some none := fun dstW dstH => if_pos (by omega)
      simp only [hnone, some_bind] at hout
      cases hout
  · rintro ⟨⟨hw, hh⟩, hdw, hdh⟩
    have hw2 : 2 ≤ w := by omega
    have hh2 : 2 ≤ h := by omega
    obtain ⟨hfitw, hfith⟩ := fitWithin_fitted srcW srcH hw2 hh2
    rw [bgraToI420Letterboxed, if_neg (by omega)]
    simp only
    generalize fitWithin srcW srcH w h = fit at hfitw hfith
    obtain ⟨content, hcontent, hconsistent, hcw, hch⟩ :=
      @bgraToI420Scaled_of_fit rgbToY rgbToU rgbToV src stride srcW srcH hstride hlen hw hh
        fit.1 fit.2 (by omega) (by omega) hfitw.2.1 hfith.2.1
    rw [hcontent, some_bind]
    simp only
    by_cases hfull : fit.1 = w ∧ fit.2 = h
    · rw [if_pos hfull]
      refine ⟨content, content, rfl, Prod.ext hcw hch, ?_⟩
      rw [← hfull.1, ← hfull.2, ← hcw, ← hch]
      exact letterboxed_self hconsistent
    · rw [if_neg hfull]
      obtain ⟨py, pu, pv, hpy, hpu, hpv, hboxed⟩ := exists_letterboxed hconsistent
        (by omega) (by omega) hweven hheven hsize
      rw [hcw, hch] at hpy hpu hpv
      rw [hpy, some_bind, hpu, some_bind, hpv, some_bind]
      exact ⟨_, content, rfl, Prod.ext hcw hch, hboxed⟩

end Screen

/-! ## Overlays -/

namespace Placement

/-- The width of an overlay before it is fitted. -/
def naturalWidth (p : Placement) (outW : Nat) : Nat :=
  even (max (outW * max minOverlayPct (min p.sizePct maxOverlayPct) / 100) 2)

/-- The height that the shape of the source gives an overlay. -/
def naturalHeight (p : Placement) (outW srcW srcH : Nat) : Nat :=
  even (max (p.naturalWidth outW * max srcH 1 / max srcW 1) 2)

def margin (outW : Nat) : Nat :=
  even (outW * marginPct / 100)

def atTop (p : Placement) : Prop :=
  p.corner = .topLeft ∨ p.corner = .topRight

variable {p : Placement} {outW outH srcW srcH : Nat}

theorem naturalWidth_le (p : Placement) (outW : Nat) : p.naturalWidth outW ≤ max (outW / 2) 2 := by
  have hpct : max minOverlayPct (min p.sizePct maxOverlayPct) ≤ 50 := by
    rw [minOverlayPct, maxOverlayPct]
    omega
  have hpart : outW * max minOverlayPct (min p.sizePct maxOverlayPct) / 100 ≤ outW * 50 / 100 :=
    Nat.div_le_div_right (Nat.mul_le_mul_left outW hpct)
  have heven := even_le (max (outW * max minOverlayPct (min p.sizePct maxOverlayPct) / 100) 2)
  rw [naturalWidth]
  omega

theorem two_le_naturalWidth (p : Placement) (outW : Nat) : 2 ≤ p.naturalWidth outW :=
  le_even rfl (Nat.le_max_right _ 2)

theorem boxSize_eq (hout : outW ≤ 2 ^ 16) (hsrc : srcH ≤ 2 ^ 16) :
    p.boxSize outW outH srcW srcH =
      if outH < p.naturalHeight outW srcW srcH then
        fitWithin (p.naturalWidth outW) (p.naturalHeight outW srcW srcH) outW outH
      else (p.naturalWidth outW, p.naturalHeight outW srcW srcH) := by
  have hpct : max minOverlayPct (min p.sizePct maxOverlayPct) ≤ 50 := by
    rw [minOverlayPct, maxOverlayPct]
    omega
  have hpart : outW * max minOverlayPct (min p.sizePct maxOverlayPct) / 100 ≤ outW * 50 / 100 :=
    Nat.div_le_div_right (Nat.mul_le_mul_left outW hpct)
  have hwidth : even (max (outW * max minOverlayPct (min p.sizePct maxOverlayPct) / 100) 2 %
      2 ^ 32) = p.naturalWidth outW := by
    rw [naturalWidth, Nat.mod_eq_of_lt (by omega)]
  have hwle := naturalWidth_le p outW
  have hprod : p.naturalWidth outW * max srcH 1 ≤ 2 ^ 15 * 2 ^ 16 :=
    Nat.mul_le_mul (by omega) (by omega)
  have hdiv := Nat.div_le_self (p.naturalWidth outW * max srcH 1) (max srcW 1)
  have hheight : even (max (p.naturalWidth outW * max srcH 1 / max srcW 1) 2 % 2 ^ 32) =
      p.naturalHeight outW srcW srcH := by
    rw [naturalHeight, Nat.mod_eq_of_lt (by omega)]
  rw [boxSize]
  simp only [hwidth, hheight]

theorem boxSize_spec (hw : 2 ≤ outW) (hh : 2 ≤ outH) (hheven : outH % 2 = 0)
    (hout : outW ≤ 2 ^ 16) (hsrc : srcH ≤ 2 ^ 16) :
    (2 ≤ (p.boxSize outW outH srcW srcH).1 ∧ (p.boxSize outW outH srcW srcH).1 % 2 = 0 ∧
        (p.boxSize outW outH srcW srcH).1 ≤ p.naturalWidth outW) ∧
      2 ≤ (p.boxSize outW outH srcW srcH).2 ∧ (p.boxSize outW outH srcW srcH).2 % 2 = 0 ∧
        (p.boxSize outW outH srcW srcH).2 = min (p.naturalHeight outW srcW srcH) outH := by
  have hwide := two_le_naturalWidth p outW
  have hwle := naturalWidth_le p outW
  have hhigh : 2 ≤ p.naturalHeight outW srcW srcH := le_even rfl (Nat.le_max_right _ 2)
  rw [boxSize_eq hout hsrc]
  by_cases htall : outH < p.naturalHeight outW srcW srcH
  · rw [if_pos htall]
    obtain ⟨hfitw, hfith⟩ :=
      fitWithin_fitted (p.naturalWidth outW) (p.naturalHeight outW srcW srcH) hw hh
    have hheight := fitWithin_of_high hwide (by omega : p.naturalWidth outW ≤ outW) hh htall hheven
    exact ⟨⟨hfitw.1, hfitw.2.1, by omega⟩, hfith.1, hfith.2.1, by omega⟩
  · rw [if_neg htall]
    exact ⟨⟨hwide, even_mod _, Nat.le_refl _⟩, hhigh, even_mod _, by simp only; omega⟩

theorem position_eq (hout : outW ≤ 2 ^ 16) (ovW ovH : Nat) :
    (p.position outW outH ovW ovH).1 =
        even (min (if p.corner = .topLeft ∨ p.corner = .bottomLeft then margin outW
          else outW - ovW - margin outW) (outW - 2)) ∧
      (p.position outW outH ovW ovH).2 =
        even (min (if p.corner = .topLeft ∨ p.corner = .topRight then margin outW
          else outH - ovH - margin outW) (outH - 2)) := by
  have hmargin : even (outW * marginPct / 100 % 2 ^ 32) = margin outW := by
    have hsmall : outW * marginPct / 100 < 2 ^ 32 := by
      rw [marginPct]
      omega
    rw [margin, Nat.mod_eq_of_lt hsmall]
  rw [position]
  simp only [hmargin]
  cases p.corner <;> exact ⟨rfl, rfl⟩

theorem boxSize_even (hout : outW ≤ 2 ^ 16) (hsrc : srcH ≤ 2 ^ 16) :
    (2 ≤ (p.boxSize outW outH srcW srcH).1 ∧ (p.boxSize outW outH srcW srcH).1 % 2 = 0) ∧
      2 ≤ (p.boxSize outW outH srcW srcH).2 ∧ (p.boxSize outW outH srcW srcH).2 % 2 = 0 := by
  rw [boxSize_eq hout hsrc]
  split
  · obtain ⟨hfitw, hfith⟩ := fitWithin_fitted (p.naturalWidth outW)
      (p.naturalHeight outW srcW srcH) (Nat.le_max_right outW 2) (Nat.le_max_right outH 2)
    rw [fitWithin_max] at hfitw hfith
    exact ⟨⟨hfitw.1, hfitw.2.1⟩, hfith.1, hfith.2.1⟩
  · exact ⟨⟨two_le_naturalWidth p outW, even_mod _⟩, le_even rfl (Nat.le_max_right _ 2), even_mod _⟩

/-- In a frame with pixels an overlay is inside exactly when it is at the bottom,
or leaves the margin, which is a part of the width, within the height. -/
theorem inside_iff_of_frame (hw : 2 ≤ outW) (hh : 2 ≤ outH) (hweven : outW % 2 = 0)
    (hheven : outH % 2 = 0) (hout : outW ≤ 2 ^ 16) (hsrc : srcH ≤ 2 ^ 16) :
    let box := p.boxSize outW outH srcW srcH
    let at' := p.position outW outH box.1 box.2
    (at'.1 + box.1 ≤ outW ∧ at'.2 + box.2 ≤ outH) ↔
      ¬ p.atTop ∨ min (p.naturalHeight outW srcW srcH) outH = 2 ∨
        margin outW + min (p.naturalHeight outW srcW srcH) outH ≤ outH := by
  obtain ⟨⟨hbw, hbweven, hbwle⟩, hbh, hbheven, hbheq⟩ :=
    @boxSize_spec p outW outH srcW srcH hw hh hheven hout hsrc
  generalize p.boxSize outW outH srcW srcH = box at hbw hbweven hbwle hbh hbheven hbheq
  obtain ⟨hx, hy⟩ := @position_eq p outW outH hout box.1 box.2
  simp only [hx, hy, ← hbheq]
  have hwle := naturalWidth_le p outW
  have hmeven : margin outW % 2 = 0 := even_mod _
  have hmle : margin outW ≤ outW * 2 / 100 := even_le _
  have hleft : even (min (margin outW) (outW - 2)) + box.1 ≤ outW := by
    rw [even]
    omega
  have hright : even (min (outW - box.1 - margin outW) (outW - 2)) + box.1 ≤ outW := by
    rw [even]
    omega
  have hbottom : even (min (outH - box.2 - margin outW) (outH - 2)) + box.2 ≤ outH := by
    rw [even]
    omega
  have htop : even (min (margin outW) (outH - 2)) + box.2 ≤ outH ↔
      box.2 = 2 ∨ margin outW + box.2 ≤ outH := by
    rw [even]
    omega
  unfold atTop
  cases p.corner with
  | topLeft => simp [hleft, htop]
  | topRight => simp [hright, htop]
  | bottomLeft => simp [hleft, hbottom]
  | bottomRight => simp [hright, hbottom]

/-- An overlay is inside its frame exactly when the frame has pixels, and the
overlay is at the bottom or leaves the margin within the height. -/
theorem overlay_inside_iff (hweven : outW % 2 = 0) (hheven : outH % 2 = 0)
    (hout : outW ≤ 2 ^ 16) (hsrc : srcH ≤ 2 ^ 16) :
    let box := p.boxSize outW outH srcW srcH
    let at' := p.position outW outH box.1 box.2
    ((2 ≤ box.1 ∧ box.1 % 2 = 0) ∧ 2 ≤ box.2 ∧ box.2 % 2 = 0) ∧
      (at'.1 % 2 = 0 ∧ at'.2 % 2 = 0) ∧
        ((at'.1 + box.1 ≤ outW ∧ at'.2 + box.2 ≤ outH) ↔
          (2 ≤ outW ∧ 2 ≤ outH) ∧
            (¬ p.atTop ∨ min (p.naturalHeight outW srcW srcH) outH = 2 ∨
              margin outW + min (p.naturalHeight outW srcW srcH) outH ≤ outH)) := by
  intro box at'
  have hbox : (2 ≤ box.1 ∧ box.1 % 2 = 0) ∧ 2 ≤ box.2 ∧ box.2 % 2 = 0 := boxSize_even hout hsrc
  refine ⟨hbox, ⟨even_mod _, even_mod _⟩, ?_⟩
  by_cases hframe : 2 ≤ outW ∧ 2 ≤ outH
  · rw [and_iff_right hframe]
    exact inside_iff_of_frame hframe.1 hframe.2 hweven hheven hout hsrc
  · constructor
    · rintro ⟨hx, hy⟩
      exact absurd ⟨by omega, by omega⟩ hframe
    · exact fun h => absurd h.1 hframe

end Placement

/-! ## The geometry as a whole -/

end ConquerD.Client.FrameGeometry
