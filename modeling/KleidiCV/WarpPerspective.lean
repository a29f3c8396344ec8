/-
`warp_perspective`: the weight of a pixel and the division by it.

A kernel divides the transformed coordinates by the weight `T6*x + T7*y + T8`.
`weight_may_be_zero` looks at the weights of the four corners of a stripe, and if
none of them may be zero the rows are processed without a check of the divisor.

Floating-point numbers are rational numbers, and every operation rounds its exact
result with a monotone function of which nothing else is known.  There are no
infinities: a division by zero has no result.  Images have one channel, which is
all that `warp_perspective_is_implemented` lets through.

* `WarpPerspective.weight_mem` — a weight lies where the four corner weights lie;
* `weightMayBeZero_eq_false` — what the corner test says;
* `WarpCall.transformOperation_wrote` — what a stripe stores;
* `WarpCall.transformOperation_divides` — the unchecked division is always defined.
-/
import KleidiCV.SeparableWorkspace
import KleidiCV.BorderTypes

open Loop

namespace KleidiCV

/-- The arithmetic of `float`. -/
structure FloatArithmetic where
  /-- Rounds an exact result. -/
  rd : ℚ → ℚ
  rd_mono : Monotone rd
  /-- `static_cast<float>` and `vcvtq_f32_u32`. -/
  ofNat : ℕ → ℚ
  ofNat_exact : ∀ n < 2 ^ 24, ofNat n = n
  /-- `a + b * c`, which a compiler may fuse or not. -/
  mla : ℚ → ℚ → ℚ → ℚ
  /-- What a pixel becomes whose coordinates come from a division by zero. -/
  ofDivisionByZero : BitVec 32

namespace FloatArithmetic

variable (A : FloatArithmetic)

/-- `std::fma`, and a lane of `vfmaq_n_f32` with the addend in front. -/
def fma (a b c : ℚ) : ℚ := A.rd (a * b + c)

def sub (a b : ℚ) : ℚ := A.rd (a - b)

def mul (a b : ℚ) : ℚ := A.rd (a * b)

/-- One lane of `vdivq_f32`. -/
def div (a b : ℚ) : Option ℚ := if b = 0 then none else some (A.rd (a / b))

end FloatArithmetic

/-! ### Corner weights -/

/-- `perspective_weight_at_x0`. -/
def perspectiveWeightAtX0 (A : FloatArithmetic) (transform : Fin 9 → ℚ) (y : ℚ) : ℚ :=
  A.fma (transform 7) y (transform 8)

/-- `perspective_weight`. -/
def perspectiveWeight (A : FloatArithmetic) (transform : Fin 9 → ℚ) (x y : ℚ) : ℚ :=
  A.fma (transform 6) x (perspectiveWeightAtX0 A transform y)

/-- `update_minmax`. -/
def updateMinmax (weight : ℚ) (minmax : ℚ × ℚ) : ℚ × ℚ :=
  (min weight minmax.1, max weight minmax.2)

/-- `weight_may_be_zero`. -/
def weightMayBeZero (A : FloatArithmetic) (transform : Fin 9 → ℚ) (dstWidth yBegin yEnd : ℕ) :
    Bool :=
  let x0 := 0
  let x1 := A.ofNat (sizeSub dstWidth 1)
  let y0 := A.ofNat yBegin
  let y1 := A.ofNat (sizeSub yEnd 1)
  let weight := perspectiveWeight A transform x0 y0
  let minmax := (weight, weight) |>
    updateMinmax (perspectiveWeight A transform x1 y0) |>
    updateMinmax (perspectiveWeight A transform x0 y1) |>
    updateMinmax (perspectiveWeight A transform x1 y1)
  decide (minmax.1 ≤ 0 ∧ 0 ≤ minmax.2)

/-! ### The kernel -/

/-- `kleidicv_interpolation_type_t`. -/
inductive InterpolationType
  | nearest
  | linear
  deriving DecidableEq, Repr

/-- The arguments of `transform_operation`; sizes and strides of the source as the vectors
hold them. -/
structure WarpCall where
  src : ℕ → BitVec 8
  srcStride : BitVec 32
  xmax : BitVec 32
  ymax : BitVec 32
  transform : Fin 9 → ℚ
  borderValue : BitVec 8
  dstRows : Rows
  dstWidth : ℕ
  dstHeight : ℕ
  isLarge : Bool
  interpolation : InterpolationType
  borderType : BorderType

/-- One lane of `vcvtaq_u32_f32`: to the nearest integer, halves away from zero. -/
def vcvtaU32 (f : ℚ) : BitVec 32 := BitVec.ofNat 32 (min (2 ^ 32 - 1) ⌊f + 1 / 2⌋.toNat)

/-- One lane of `vcvtmq_u32_f32`: towards minus infinity. -/
def vcvtmU32 (f : ℚ) : BitVec 32 := BitVec.ofNat 32 (min (2 ^ 32 - 1) ⌊f⌋.toNat)

/-- One lane of `vcvtaq_s32_f32`. -/
def vcvtaS32 (f : ℚ) : BitVec 32 :=
  let nearest := if 0 ≤ f then ⌊f + 1 / 2⌋ else -⌊-f + 1 / 2⌋
  BitVec.ofInt 32 (max (-2 ^ 31) (min (2 ^ 31 - 1) nearest))

/-- One lane of `vcvtmq_s32_f32`. -/
def vcvtmS32 (f : ℚ) : BitVec 32 := BitVec.ofInt 32 (max (-2 ^ 31) (min (2 ^ 31 - 1) ⌊f⌋))

/-- One lane of `vminq_u32`. -/
def vminU32 (a b : BitVec 32) : BitVec 32 := if b.ult a then b else a

/-- `vuzp1q` of lanes taken as twice as many of half the width: the low halves. -/
def vuzp1Low {n w : ℕ} (a b : Fin n → BitVec (2 * w)) : Fin (2 * n) → BitVec w := fun lane =>
  if h : (lane : ℕ) < n then (a ⟨lane, h⟩).setWidth w else (b ⟨lane - n, upperLane_lt h⟩).setWidth w

/-- What `load_quad_pixels_*` gives for a lane. -/
structure QuadPixels where
  xfrac : ℚ
  yfrac : ℚ
  a : ℚ
  b : ℚ
  c : ℚ
  d : ℚ

namespace WarpCall

variable (A : FloatArithmetic) (w : WarpCall)

/-- The element of the source at `(x, y)`, with indices of 64 or 32 bits. -/
def index (x y : BitVec 32) : ℕ :=
  if w.isLarge then x.toNat + y.toNat * w.srcStride.toNat else (x + y * w.srcStride).toNat

/-- `load_xy`. -/
def loadXy (x y : BitVec 32) : ℚ := A.ofNat (w.src (w.index x y)).toNat

/-- `load_xy_or_border`. -/
def loadXyOrBorder (x y : BitVec 32) (inRange : Bool) : ℚ :=
  A.ofNat (if inRange then w.src (w.index x y) else w.borderValue).toNat

/-- `load_quad_pixels_replicate`. -/
def loadQuadPixelsReplicate (xf yf : ℚ) : QuadPixels :=
  let x0 := vminU32 (vcvtmU32 xf) w.xmax
  let y0 := vminU32 (vcvtmU32 yf) w.ymax
  let xInRange := 0 ≤ xf ∧ x0.ult w.xmax
  let yInRange := 0 ≤ yf ∧ y0.ult w.ymax
  let x1 := if xInRange then x0 + 1 else x0
  let y1 := if yInRange then y0 + 1 else y0
  { xfrac := A.sub xf ⌊xf⌋
    yfrac := A.sub yf ⌊yf⌋
    a := w.loadXy A x0 y0
    b := w.loadXy A x1 y0
    c := w.loadXy A x0 y1
    d := w.loadXy A x1 y1 }

/-- `load_quad_pixels_constant`. -/
def loadQuadPixelsConstant (xf yf : ℚ) : QuadPixels :=
  let x0 := vcvtmS32 xf
  let y0 := vcvtmS32 yf
  let x1 := x0 + 1
  let y1 := y0 + 1
  { xfrac := A.sub xf ⌊xf⌋
    yfrac := A.sub yf ⌊yf⌋
    a := w.loadXyOrBorder A x0 y0 (x0.ule w.xmax && y0.ule w.ymax)
    b := w.loadXyOrBorder A x1 y0 (x1.ule w.xmax && y0.ule w.ymax)
    c := w.loadXyOrBorder A x0 y1 (x0.ule w.xmax && y1.ule w.ymax)
    d := w.loadXyOrBorder A x1 y1 (x1.ule w.xmax && y1.ule w.ymax) }

/-- `lerp_2d`. -/
def lerp2d (q : QuadPixels) : BitVec 32 :=
  let line0 := A.mla q.a (A.sub q.b q.a) q.xfrac
  let line1 := A.mla q.c (A.sub q.d q.c) q.xfrac
  vcvtaU32 (A.mla line0 (A.sub line1 line0) q.yfrac)

/-- `transform_pixels_replicate`. -/
def transformPixelsReplicate (xf yf : ℚ) : BitVec 8 :=
  w.src (w.index (vminU32 (vcvtaU32 xf) w.xmax) (vminU32 (vcvtaU32 yf) w.ymax))

/-- `transform_pixels_constant`. -/
def transformPixelsConstant (xf yf : ℚ) : BitVec 8 :=
  let x := vcvtaS32 xf
  let y := vcvtaS32 yf
  if x.ule w.xmax && y.ule w.ymax then w.src (w.index x y) else w.borderValue

/-- The lane of `tw` for a column. -/
def weight (y : ℕ) (fx : ℚ) : ℚ :=
  A.fma fx (w.transform 6) (perspectiveWeightAtX0 A w.transform (A.ofNat y))

/-- `calculate_coordinates` for a column; `checkZeroDivisor` is the template argument. -/
def calculateCoordinates (checkZeroDivisor : Bool) (y : ℕ) (fx : ℚ) : Option (ℚ × ℚ) :=
  let dy := A.ofNat y
  let tx := A.mla (A.mla (w.transform 2) (w.transform 1) dy) fx (w.transform 0)
  let ty := A.mla (A.mla (w.transform 5) (w.transform 4) dy) fx (w.transform 3)
  let tw := w.weight A y fx
  let iw := if checkZeroDivisor && tw == 0 then some 0 else A.div 1 tw
  iw.map fun iw => (A.mul tx iw, A.mul ty iw)

/-- `calculate_linear` for a column. -/
def calculateLinear (checkZeroDivisor : Bool) (y : ℕ) (fx : ℚ) : BitVec 32 :=
  match w.calculateCoordinates A checkZeroDivisor y fx with
  | none => A.ofDivisionByZero
  | some (xf, yf) =>
    match w.borderType with
    | .replicate => lerp2d A (w.loadQuadPixelsReplicate A xf yf)
    | _ => lerp2d A (w.loadQuadPixelsConstant A xf yf)

/-- The pixel of the nearest source pixel for a column. -/
def calculateNearest (checkZeroDivisor : Bool) (y : ℕ) (fx : ℚ) : BitVec 8 :=
  match w.calculateCoordinates A checkZeroDivisor y fx with
  | none => A.ofDivisionByZero.setWidth 8
  | some (xf, yf) =>
    match w.borderType with
    | .replicate => w.transformPixelsReplicate xf yf
    | _ => w.transformPixelsConstant xf yf

/-- `vcvtq_f32_u32(vaddq_u32(x0123_, vdupq_n_u32(x)))`. -/
def columns (x : BitVec 32) : Fin 4 → ℚ := fun lane => A.ofNat (BitVec.ofNat 32 lane + x).toNat

/-- `VecTraits<float>::num_lanes()`. -/
def kStep : ℕ := 4

/-- A row of `process_rows`, stored from `ptr` on. -/
def processRow (checkZeroDivisor : Bool) (y ptr : ℕ) (dst : ℕ → BitVec 8) : ℕ → BitVec 8 :=
  let nearest := fun x lane => w.calculateNearest A checkZeroDivisor y (columns A x lane)
  let linear := fun x lane => w.calculateLinear A checkZeroDivisor y (columns A x lane)
  match w.interpolation with
  | .nearest =>
    ((LoopUnroll2.startAvoidingTail w.dstWidth kStep, dst) |>
      LoopUnroll2.unrollOnce fun x dst => vst1q dst (ptr + x) (nearest (BitVec.ofNat 32 x))).2
  | .linear =>
    ((LoopUnroll2.startAvoidingTail w.dstWidth kStep, dst) |>
      LoopUnroll2.unrollFourTimes (fun x' dst =>
        let x := BitVec.ofNat 32 x'
        let result16_0 : Fin 8 → BitVec 16 := vuzp1Low (w := 16) (linear x) (linear (x + 4))
        let result16_1 : Fin 8 → BitVec 16 :=
          vuzp1Low (w := 16) (linear (x + 8)) (linear (x + 12))
        vst1q dst (ptr + x') (vuzp1Low (w := 8) result16_0 result16_1)) |>
      LoopUnroll2.unrollOnce fun x dst =>
        vst1q dst (ptr + x) fun lane => (linear (BitVec.ofNat 32 x) lane).setWidth 8).2

/-- `transform_operation`. -/
def transformOperation (yBegin yEnd : ℕ) (dst : ℕ → BitVec 8) : ℕ → BitVec 8 :=
  let checkZeroDivisor := weightMayBeZero A w.transform w.dstWidth yBegin yEnd
  forFrom yBegin (yEnd - yBegin)
    (fun y => w.processRow A checkZeroDivisor y (w.dstRows.address (y, 0))) dst

end WarpCall

/-! ### The corners decide -/

namespace WarpPerspective

variable {A : FloatArithmetic} {transform : Fin 9 → ℚ}

/-- A function that only rises or only falls stays where its ends are. -/
theorem mem_of_ends {f : ℚ → ℚ} (hf : Monotone f ∨ Antitone f) {s : Set ℚ} (hs : s.OrdConnected)
    {first last x : ℚ} (hfirst : f first ∈ s) (hlast : f last ∈ s) (h1 : first ≤ x) (h2 : x ≤ last) :
    f x ∈ s := by
  rcases hf with hmono | hanti
  · exact hs.out hfirst hlast ⟨hmono h1, hmono h2⟩
  · exact hs.out hlast hfirst ⟨hanti h2, hanti h1⟩

/-- The sign of the coefficient decides the direction, whatever the rounding. -/
theorem fma_monotone_or_antitone (a c : ℚ) :
    Monotone (fun x => A.fma a x c) ∨ Antitone (fun x => A.fma a x c) := by
  rcases le_total 0 a with ha | ha
  · left
    intro x x' hx
    exact A.rd_mono (add_le_add_left (mul_le_mul_of_nonneg_left hx ha) c)
  · right
    intro x x' hx
    exact A.rd_mono (add_le_add_left (mul_le_mul_of_nonpos_left hx ha) c)

theorem fma_addend_monotone (a b : ℚ) : Monotone (fun c => A.fma a b c) := by
  intro c c' hc
  exact A.rd_mono (add_le_add_right hc (a * b))

theorem perspectiveWeight_column (y : ℚ) :
    Monotone (fun x => perspectiveWeight A transform x y) ∨
      Antitone (fun x => perspectiveWeight A transform x y) :=
  fma_monotone_or_antitone _ _

theorem perspectiveWeight_row (x : ℚ) :
    Monotone (fun y => perspectiveWeight A transform x y) ∨
      Antitone (fun y => perspectiveWeight A transform x y) := by
  have houter : Monotone (fun c => A.fma (transform 6) x c) := fma_addend_monotone _ _
  rcases fma_monotone_or_antitone (A := A) (transform 7) (transform 8) with h | h
  · exact Or.inl (houter.comp h)
  · exact Or.inr (houter.comp_antitone h)

/-- **A weight lies where the four corner weights lie.**  First along the left and the right
edge, then along the row between them. -/
theorem weight_mem {s : Set ℚ} (hs : s.OrdConnected) {x0 x1 y0 y1 : ℚ}
    (h00 : perspectiveWeight A transform x0 y0 ∈ s) (h10 : perspectiveWeight A transform x1 y0 ∈ s)
    (h01 : perspectiveWeight A transform x0 y1 ∈ s) (h11 : perspectiveWeight A transform x1 y1 ∈ s)
    {x y : ℚ} (hx0 : x0 ≤ x) (hx1 : x ≤ x1) (hy0 : y0 ≤ y) (hy1 : y ≤ y1) :
    perspectiveWeight A transform x y ∈ s := by
  have hleft : perspectiveWeight A transform x0 y ∈ s :=
    mem_of_ends (perspectiveWeight_row x0) hs h00 h01 hy0 hy1
  have hright : perspectiveWeight A transform x1 y ∈ s :=
    mem_of_ends (perspectiveWeight_row x1) hs h10 h11 hy0 hy1
  exact mem_of_ends (perspectiveWeight_column y) hs hleft hright hx0 hx1

/-- Where the test fails the corner weights have one sign. -/
theorem weightMayBeZero_eq_false {dstWidth yBegin yEnd : ℕ}
    (h : weightMayBeZero A transform dstWidth yBegin yEnd = false) :
    ∃ side : Set ℚ, (side = Set.Ioi 0 ∨ side = Set.Iio 0) ∧
      perspectiveWeight A transform 0 (A.ofNat yBegin) ∈ side ∧
      perspectiveWeight A transform (A.ofNat (sizeSub dstWidth 1)) (A.ofNat yBegin) ∈ side ∧
      perspectiveWeight A transform 0 (A.ofNat (sizeSub yEnd 1)) ∈ side ∧
      perspectiveWeight A transform (A.ofNat (sizeSub dstWidth 1)) (A.ofNat (sizeSub yEnd 1))
        ∈ side := by
  rw [weightMayBeZero, decide_eq_false_iff_not, not_and_or, not_le, not_le] at h
  simp only [updateMinmax, lt_min_iff, max_lt_iff] at h
  rcases h with ⟨h11, h01, h10, h00⟩ | ⟨h11, h01, h10, h00⟩
  · exact ⟨Set.Ioi 0, Or.inl rfl, h00, h10, h01, h11⟩
  · exact ⟨Set.Iio 0, Or.inr rfl, h00, h10, h01, h11⟩

end WarpPerspective

/-! ### A stripe -/

namespace WarpCall

open WarpPerspective

variable {A : FloatArithmetic} {w : WarpCall} {yBegin yEnd : ℕ}

theorem weight_eq (y : ℕ) (fx : ℚ) :
    w.weight A y fx = perspectiveWeight A w.transform fx (A.ofNat y) := by
  rw [weight, perspectiveWeight, FloatArithmetic.fma, FloatArithmetic.fma, mul_comm]

/-- **Every weight of the stripe has the sign of the corners.** -/
theorem weight_side (hwidth : w.dstWidth < 2 ^ 24) (hend : yEnd < 2 ^ 24)
    (h : weightMayBeZero A w.transform w.dstWidth yBegin yEnd = false) :
    ∃ side : Set ℚ, (side = Set.Ioi 0 ∨ side = Set.Iio 0) ∧
      ∀ x < w.dstWidth, ∀ y, yBegin ≤ y → y < yEnd → w.weight A y (A.ofNat x) ∈ side := by
  obtain ⟨side, hside, h00, h10, h01, h11⟩ := weightMayBeZero_eq_false h
  have hconnected : side.OrdConnected := by
    rcases hside with rfl | rfl
    · exact Set.ordConnected_Ioi
    · exact Set.ordConnected_Iio
  refine ⟨side, hside, fun x hx y h1 h2 => ?_⟩
  have hx1 : sizeSub w.dstWidth 1 = w.dstWidth - 1 :=
    sizeSub_eq (by omega) (by unfold sizeMod; omega)
  have hy1 : sizeSub yEnd 1 = yEnd - 1 := sizeSub_eq (by omega) (by unfold sizeMod; omega)
  rw [hx1] at h10 h11
  rw [hy1] at h01 h11
  rw [A.ofNat_exact yBegin (by omega)] at h00 h10
  rw [A.ofNat_exact (w.dstWidth - 1) (by omega)] at h10 h11
  rw [A.ofNat_exact (yEnd - 1) (by omega)] at h01 h11
  rw [weight_eq, A.ofNat_exact x (by omega), A.ofNat_exact y (by omega)]
  refine weight_mem hconnected h00 h10 h01 h11 (Nat.cast_nonneg x) ?_
    (Nat.cast_le.mpr h1) ?_
  · exact Nat.cast_le.mpr (Nat.le_sub_one_of_lt hx)
  · exact Nat.cast_le.mpr (Nat.le_sub_one_of_lt h2)

/-- Behind a weight that is not zero both kernels divide, and get the same. -/
theorem calculateCoordinates_of_ne {y : ℕ} {fx : ℚ} (h : w.weight A y fx ≠ 0)
    (checkZeroDivisor : Bool) :
    (w.calculateCoordinates A checkZeroDivisor y fx).isSome ∧
      w.calculateCoordinates A checkZeroDivisor y fx = w.calculateCoordinates A true y fx := by
  have hzero : (w.weight A y fx == 0) = false := beq_eq_false_iff_ne.mpr h
  simp only [calculateCoordinates, hzero, Bool.and_false, Bool.false_eq_true, if_false,
    FloatArithmetic.div, if_neg h, Option.map_some, Option.isSome_some, and_self]

/-- The pixel of a column. -/
def pixel (A : FloatArithmetic) (w : WarpCall) (checkZeroDivisor : Bool) (y : ℕ) (fx : ℚ) :
    BitVec 8 :=
  match w.interpolation with
  | .nearest => w.calculateNearest A checkZeroDivisor y fx
  | .linear => (w.calculateLinear A checkZeroDivisor y fx).setWidth 8

theorem pixel_of_ne {y : ℕ} {fx : ℚ} (h : w.weight A y fx ≠ 0) (checkZeroDivisor : Bool) :
    w.pixel A checkZeroDivisor y fx = w.pixel A true y fx := by
  have hsame := (calculateCoordinates_of_ne h checkZeroDivisor).2
  simp only [pixel, calculateNearest, calculateLinear, hsame]

/-! ### What a row stores -/

theorem columns_eq {x : ℕ} (lane : Fin 4) (h : x + 4 ≤ 2 ^ 24) :
    columns A (BitVec.ofNat 32 x) lane = A.ofNat (x + lane) := by
  have hlane := lane.2
  rw [columns, BitVec.toNat_add, BitVec.toNat_ofNat, BitVec.toNat_ofNat]
  congr 1
  omega

theorem vuzp1Low_lt {n v : ℕ} (a b : Fin n → BitVec (2 * v)) {lane : Fin (2 * n)}
    (h : (lane : ℕ) < n) : vuzp1Low a b lane = (a ⟨lane, h⟩).setWidth v := dif_pos h

theorem vuzp1Low_ge {n v : ℕ} (a b : Fin n → BitVec (2 * v)) {lane : Fin (2 * n)}
    (h : ¬ (lane : ℕ) < n) : vuzp1Low a b lane = (b ⟨lane - n, upperLane_lt h⟩).setWidth v := dif_neg h

/-- A vector that is the row's values from column `x` on. -/
theorem vst1q_row {rows : Rows} {value : ℕ × ℕ → BitVec 8} {n y x : ℕ} {v : Fin n → BitVec 8}
    (hv : ∀ lane : Fin n, v lane = value (y, x + lane)) (m : ℕ → BitVec 8) :
    Wrote rows.address value {p | p.1 = y ∧ x ≤ p.2 ∧ p.2 < x + n} m
      (vst1q m (rows.address (y, 0) + x) v) := by
  obtain ⟨g, heq, hg⟩ := vst1q_eq m (rows.address (y, 0) + x) v
  rw [heq]
  refine overwrite_wrote ?_ ?_
  · rintro ⟨y', e⟩ ⟨h1, h2, h3⟩
    simp only at h1 h2 h3
    subst h1
    refine ⟨e - x, by omega, by simp only [Rows.address]; omega, ?_⟩
    rw [hg ⟨e - x, by omega⟩, hv]
    simp only
    rw [Nat.add_sub_cancel' h2]
  · intro j hj
    refine ⟨(y, x + j), ⟨rfl, by simp only; omega, by simp only; omega⟩, ?_⟩
    simp only [Rows.address]
    omega

/-- The bytes of four vectors of pixels. -/
theorem vuzp1Low_four (linear : BitVec 32 → Fin 4 → BitVec 32) (value : ℕ → BitVec 8) {x : ℕ}
    (hvalue : ∀ k < 16, ∀ lane : Fin 4,
      k % 4 = 0 → (linear (BitVec.ofNat 32 x + BitVec.ofNat 32 k) lane).setWidth 8
        = value (x + k + lane)) (lane : Fin 16) :
    let v := BitVec.ofNat 32 x
    vuzp1Low (n := 8) (w := 8) (vuzp1Low (n := 4) (w := 16) (linear v) (linear (v + 4)))
      (vuzp1Low (n := 4) (w := 16) (linear (v + 8)) (linear (v + 12))) lane = value (x + lane) := by
  have hcut : ∀ u : BitVec 32, (u.setWidth 16).setWidth 8 = u.setWidth 8 := fun u =>
    BitVec.setWidth_setWidth_of_le u (by omega)
  have hat : ∀ k < 16, ∀ l : Fin 4, k % 4 = 0 → ∀ l' : ℕ, k + l = l' →
      (linear (BitVec.ofNat 32 x + BitVec.ofNat 32 k) l).setWidth 8 = value (x + l') := by
    rintro k hk l hmod l' rfl
    rw [hvalue k hk l hmod, Nat.add_assoc]
  have hlane := lane.2
  intro v
  by_cases h8 : (lane : ℕ) < 8
  · rw [vuzp1Low_lt _ _ h8]
    by_cases h4 : (lane : ℕ) < 4
    · rw [vuzp1Low_lt _ _ h4, hcut]
      have h := hat 0 (by omega) ⟨lane, h4⟩ rfl lane (Nat.zero_add _)
      rwa [show BitVec.ofNat 32 x + BitVec.ofNat 32 0 = v from BitVec.add_zero _] at h
    · rw [vuzp1Low_ge _ _ h4, hcut]
      exact hat 4 (by omega) ⟨lane - 4, by omega⟩ rfl lane (by simp only; omega)
  · rw [vuzp1Low_ge _ _ h8]
    by_cases h12 : (lane : ℕ) - 8 < 4
    · rw [vuzp1Low_lt _ _ h12, hcut]
      exact hat 8 (by omega) ⟨lane - 8, h12⟩ rfl lane (by simp only; omega)
    · rw [vuzp1Low_ge _ _ h12, hcut]
      exact hat 12 (by omega) ⟨lane - 8 - 4, by omega⟩ rfl lane (by simp only; omega)

/-- The pixels of a stripe, none if the rows are shorter than a vector. -/
def stripe (w : WarpCall) (yBegin yEnd : ℕ) : Set (ℕ × ℕ) :=
  {p | yBegin ≤ p.1 ∧ p.1 < yEnd ∧ p.2 < w.dstWidth ∧ kStep ≤ w.dstWidth}

/-- The row is written up to column `i`. -/
def RowTo (A : FloatArithmetic) (w : WarpCall) (checkZeroDivisor : Bool) (y : ℕ)
    (m : ℕ → BitVec 8) (i : ℕ) (m' : ℕ → BitVec 8) : Prop :=
  Wrote w.dstRows.address (fun p => w.pixel A checkZeroDivisor p.1 (A.ofNat p.2))
    {p | p.1 = y ∧ p.2 < i} m m'

/-- A vector that starts in what is written carries the row on. -/
theorem RowTo.vst1q {checkZeroDivisor : Bool} {y i j n : ℕ} {m m' : ℕ → BitVec 8}
    (h : RowTo A w checkZeroDivisor y m j m') (h1 : i ≤ j) (h2 : j ≤ i + n)
    (hlast : i + n ≤ w.dstWidth) (hstride : w.dstWidth ≤ w.dstRows.stride) {v : Fin n → BitVec 8}
    (hv : ∀ lane : Fin n, v lane = w.pixel A checkZeroDivisor y (A.ofNat (i + lane))) :
    RowTo A w checkZeroDivisor y m (i + n)
      (KleidiCV.vst1q m' (w.dstRows.address (y, 0) + i) v) := by
  have hstep : Wrote w.dstRows.address (fun p => w.pixel A checkZeroDivisor p.1 (A.ofNat p.2))
      {p | p.1 = y ∧ i ≤ p.2 ∧ p.2 < i + n} m' _ := vst1q_row hv m'
  refine (h.trans (Rows.address_injOn hstride) ?_ ?_ hstep).congr ?_
  · rintro p ⟨-, hp⟩
    simp only [Set.mem_ofPred_eq]
    omega
  · rintro p ⟨-, -, hp⟩
    simp only [Set.mem_ofPred_eq]
    omega
  · ext p
    simp only [Set.mem_union, Set.mem_ofPred_eq]
    omega

/-- **A row**, whichever kernel processes it. -/
theorem processRow_wrote (checkZeroDivisor : Bool) (y : ℕ) (hwidth : w.dstWidth < 2 ^ 24)
    (hstride : w.dstWidth ≤ w.dstRows.stride) (m : ℕ → BitVec 8) :
    Wrote w.dstRows.address (fun p => w.pixel A checkZeroDivisor p.1 (A.ofNat p.2))
      (w.stripe y (y + 1)) m
      (w.processRow A checkZeroDivisor y (w.dstRows.address (y, 0)) m) := by
  by_cases hfull : kStep ≤ w.dstWidth
  · have hset : {p : ℕ × ℕ | p.1 = y ∧ p.2 < w.dstWidth} = w.stripe y (y + 1) := by
      ext p
      simp only [stripe, Set.mem_ofPred_eq, hfull, and_true]
      omega
    have hstart : RowTo A w checkZeroDivisor y m 0 m :=
      Wrote.refl_of_empty m fun p hp => Nat.not_lt_zero _ hp.2
    refine Wrote.congr ?_ hset
    cases hinter : w.interpolation with
    | nearest =>
        simp only [processRow, hinter]
        refine unrollOnce_avoidingTail_holds (RowTo A w checkZeroDivisor y m) (by decide) hfull
          hstart fun i j m' h1 h2 h3 h => h.vst1q h1 h2 h3 hstride fun lane => ?_
        simp only [pixel, hinter]
        rw [columns_eq lane (by unfold kStep at h3; omega)]
    | linear =>
        have hpixel : ∀ x lane, x + 4 ≤ w.dstWidth →
            (w.calculateLinear A checkZeroDivisor y (columns A (BitVec.ofNat 32 x) lane)).setWidth 8
              = w.pixel A checkZeroDivisor y (A.ofNat (x + lane)) := by
          intro x lane hx
          simp only [pixel, hinter]
          rw [columns_eq lane (by omega)]
        simp only [processRow, hinter]
        refine unrollFourTimes_unrollOnce_avoidingTail (RowTo A w checkZeroDivisor y m) (by decide)
          hfull hstart (fun i m' h16 h => ?_) fun i j m' h1 h2 h3 h =>
            h.vst1q h1 h2 h3 hstride fun lane => hpixel i lane h3
        refine h.vst1q (n := 16) le_rfl (by omega) h16 hstride fun lane => ?_
        refine vuzp1Low_four (fun x lane => w.calculateLinear A checkZeroDivisor y (columns A x lane))
          (fun x => w.pixel A checkZeroDivisor y (A.ofNat x)) (fun k hk l hmod => ?_) lane
        rw [← BitVec.ofNat_add]
        refine hpixel (i + k) l ?_
        unfold kStep at h16
        omega
  · -- no vector fits, and there is no loop for single pixels
    have hnone : ∀ callback, LoopUnroll2.unrollOnce callback
        (LoopUnroll2.startAvoidingTail w.dstWidth kStep, m)
          = (LoopUnroll2.startAvoidingTail w.dstWidth kStep, m) := fun callback =>
      unrollOnce_of_lt (Nat.not_le.mp hfull)
    have hempty : w.processRow A checkZeroDivisor y (w.dstRows.address (y, 0)) m = m := by
      cases hinter : w.interpolation with
      | nearest => simp only [processRow, hinter, hnone]
      | linear =>
          simp only [processRow, hinter]
          rw [unrollFourTimes_of_lt (by unfold kStep at hfull ⊢; omega)]
          simp only [hnone]
    rw [hempty]
    exact Wrote.refl_of_empty m fun p hp => hfull hp.2.2.2

/-- **A stripe** holds the pixels of its rows, and nothing else changes. -/
theorem transformOperation_wrote (hwidth : w.dstWidth < 2 ^ 24)
    (hstride : w.dstWidth ≤ w.dstRows.stride) (hle : yBegin ≤ yEnd) (m : ℕ → BitVec 8) :
    Wrote w.dstRows.address
      (fun p => w.pixel A (weightMayBeZero A w.transform w.dstWidth yBegin yEnd) p.1 (A.ofNat p.2))
      (w.stripe yBegin yEnd) m (w.transformOperation A yBegin yEnd m) := by
  obtain ⟨n, rfl⟩ := Nat.exists_eq_add_of_le hle
  rw [transformOperation, Nat.add_sub_cancel_left]
  generalize weightMayBeZero A w.transform w.dstWidth yBegin (yBegin + n) = checkZeroDivisor
  refine forFrom_invariant (fun y => Wrote w.dstRows.address
    (fun p => w.pixel A checkZeroDivisor p.1 (A.ofNat p.2)) (w.stripe yBegin y) m) ?_ ?_
  · exact Wrote.refl_of_empty m fun p hp => Nat.not_lt.mpr hp.1 hp.2.1
  · intro y h1 h2 m' h
    refine (h.trans (Rows.address_injOn hstride) (fun p hp => hp.2.2.1) (fun p hp => hp.2.2.1)
      (processRow_wrote checkZeroDivisor y hwidth hstride m')).congr ?_
    ext p
    simp only [stripe, Set.mem_union, Set.mem_ofPred_eq]
    omega

/-- With or without the check, a pixel is that of the checked division. -/
theorem pixel_weightMayBeZero (hwidth : w.dstWidth < 2 ^ 24) (hend : yEnd < 2 ^ 24) {x y : ℕ}
    (hx : x < w.dstWidth) (h1 : yBegin ≤ y) (h2 : y < yEnd) :
    w.pixel A (weightMayBeZero A w.transform w.dstWidth yBegin yEnd) y (A.ofNat x)
      = w.pixel A true y (A.ofNat x) := by
  cases h : weightMayBeZero A w.transform w.dstWidth yBegin yEnd with
  | true => rfl
  | false =>
      obtain ⟨side, hside, hweights⟩ := weight_side (A := A) hwidth hend h
      have hweight := hweights x hx y h1 h2
      refine pixel_of_ne ?_ false
      rcases hside with rfl | rfl
      · exact ne_of_gt hweight
      · exact ne_of_lt hweight

end WarpCall

open WarpCall in
/-- **The corner test is sound.**  Where it finds that no weight may be zero, all weights of the
stripe have one sign and every division of the unchecked kernel is defined.  So a row has the
same pixels in whichever stripe it is processed. -/
theorem weightMayBeZero_sound (A : FloatArithmetic) (w : WarpCall) (hwidth : w.dstWidth < 2 ^ 24)
    (hheight : w.dstHeight < 2 ^ 24) (hstride : w.dstWidth ≤ w.dstRows.stride) (yBegin yEnd : ℕ)
    (hstripe : yBegin < yEnd) (hend : yEnd ≤ w.dstHeight) :
    (weightMayBeZero A w.transform w.dstWidth yBegin yEnd = false →
      ((∀ x < w.dstWidth, ∀ y, yBegin ≤ y → y < yEnd → 0 < w.weight A y (A.ofNat x)) ∨
        ∀ x < w.dstWidth, ∀ y, yBegin ≤ y → y < yEnd → w.weight A y (A.ofNat x) < 0) ∧
      ∀ x < w.dstWidth, ∀ y, yBegin ≤ y → y < yEnd →
        A.div 1 (w.weight A y (A.ofNat x)) ≠ none ∧
        w.calculateCoordinates A false y (A.ofNat x) ≠ none) ∧
    ∀ yBegin' yEnd', yBegin' < yEnd' → yEnd' ≤ w.dstHeight →
      ∀ y, yBegin ≤ y → y < yEnd → yBegin' ≤ y → y < yEnd' → ∀ x < w.dstWidth, ∀ m,
        w.transformOperation A yBegin yEnd m (w.dstRows.address (y, x))
          = w.transformOperation A yBegin' yEnd' m (w.dstRows.address (y, x)) := by
  have hend' : yEnd < 2 ^ 24 := lt_of_le_of_lt hend hheight
  constructor
  · intro hzero
    obtain ⟨side, hside, hweights⟩ := weight_side (A := A) hwidth hend' hzero
    have hne : ∀ x < w.dstWidth, ∀ y, yBegin ≤ y → y < yEnd → w.weight A y (A.ofNat x) ≠ 0 := by
      intro x hx y h1 h2
      have hweight := hweights x hx y h1 h2
      rcases hside with rfl | rfl
      · exact ne_of_gt hweight
      · exact ne_of_lt hweight
    refine ⟨?_, fun x hx y h1 h2 => ⟨?_, ?_⟩⟩
    · rcases hside with rfl | rfl
      · exact Or.inl hweights
      · exact Or.inr hweights
    · rw [FloatArithmetic.div, if_neg (hne x hx y h1 h2)]
      exact Option.some_ne_none _
    · exact Option.isSome_iff_ne_none.mp (calculateCoordinates_of_ne (hne x hx y h1 h2) false).1
  · intro yBegin' yEnd' hstripe' hend2 y h1 h2 h1' h2' x hx m
    have hwrote := transformOperation_wrote (A := A) hwidth hstride hstripe.le m
    have hwrote' := transformOperation_wrote (A := A) hwidth hstride hstripe'.le m
    by_cases hfull : kStep ≤ w.dstWidth
    · rw [hwrote.value (y, x) ⟨h1, h2, hx, hfull⟩, hwrote'.value (y, x) ⟨h1', h2', hx, hfull⟩,
        pixel_weightMayBeZero hwidth hend' hx h1 h2,
        pixel_weightMayBeZero hwidth (lt_of_le_of_lt hend2 hheight) hx h1' h2']
    · -- neither stripe stores anything
      rw [hwrote.frame _ fun p hp => absurd hp.2.2.2 hfull,
        hwrote'.frame _ fun p hp => absurd hp.2.2.2 hfull]

/-- Arithmetic that does not round. -/
def exactArithmetic : FloatArithmetic where
  rd := id
  rd_mono := monotone_id
  ofNat := fun n => n
  ofNat_exact := fun _ _ => rfl
  mla := fun a b c => a + b * c
  ofDivisionByZero := 0

/-- Eight columns and four rows with the weight `1 + x/8 + y/4`. -/
def warpEight : WarpCall where
  src := fun i => BitVec.ofNat 8 i
  srcStride := 8
  xmax := 7
  ymax := 3
  transform := ![1, 0, 0, 0, 1, 0, 1 / 8, 1 / 4, 1]
  borderValue := 0
  dstRows := ⟨0, 8, 1⟩
  dstWidth := 8
  dstHeight := 4
  isLarge := false
  interpolation := .linear
  borderType := .replicate

theorem weightMayBeZero_sound_eight :
    weightMayBeZero exactArithmetic warpEight.transform 8 0 4 = false ∧
    ∀ x : ℕ, x < 8 → ∀ y < 4,
      exactArithmetic.div 1 (warpEight.weight exactArithmetic y x) ≠ none := by
  have hzero : weightMayBeZero exactArithmetic warpEight.transform 8 0 4 = false := by
    rw [weightMayBeZero, decide_eq_false_iff_not]
    simp [updateMinmax, perspectiveWeight, perspectiveWeightAtX0, FloatArithmetic.fma,
      exactArithmetic, warpEight, sizeSub, sizeMod]
    norm_num
  have hsound := (weightMayBeZero_sound exactArithmetic warpEight (by decide) (by decide)
    (by decide) 0 4 (by decide) (by decide)).1 hzero
  exact ⟨hzero, fun x hx y hy => (hsound.2 x hx y (Nat.zero_le y) hy).1⟩

end KleidiCV
