/-
The window passes of the Lucas-Kanade tracker, Neon version.

`sample_patch_and_gradients` resamples the previous image and its derivatives into two
buffers and adds up products of derivatives; `accumulate_mismatch_vector` compares the
next image with the buffers.  Both go through the rows of a window with vectors of 8 and
4 elements and end a row with a masked vector that overlaps the one before, or with single
elements when the row is shorter than a vector.  The registers of the sums are a
parameter; `float` sums are the integers that they round.

* `windowRow_invariant` — a row of a window;
* `Sums` — which products each lane gets;
* `samplePatchAndGradients_sampled`, `accumulateMismatchVector_compared` — the buffers and
  the sums.
-/
import KleidiCV.LucasKanade
import KleidiCV.Lib.FilledRows
import KleidiCV.Lib.LaneSum
import KleidiCV.LoopUnroll2

open Loop

namespace KleidiCV

namespace LucasKanade

/-! ### The code -/

/-- What a pass reads or writes, by its offset from the first element. -/
inductive Access
  | image (offset : ℤ)
  | scharr (offset : ℤ)
  | window (index : ℕ)
  | scharrWindow (index : ℕ)
  deriving DecidableEq, Repr

/-- The registers of a sum, and the part that single elements add. -/
structure Accumulator where
  lanes : LaneSum (Fin 4)
  scalar : ℤ

namespace Accumulator

def zero : Accumulator := ⟨.zero, 0⟩

/-- `vaddq_s32`. -/
def vaddq (wrap : ℤ → ℤ) (acc : Accumulator) (p : ℕ → ℤ) : Accumulator :=
  { acc with lanes := acc.lanes.add wrap fun l => p l }

/-- `vmlal_s16`. -/
def vmlal (wrap : ℤ → ℤ) (acc : Accumulator) (a b : ℕ → ℤ) : Accumulator :=
  acc.vaddq wrap fun l => a l * b l

/-- `+=` of a single product. -/
def addScalar (acc : Accumulator) (p : ℤ) : Accumulator := { acc with scalar := acc.scalar + p }

/-- `vaddvq_f32(vcvtq_f32_s32(…))`, added to the single products. -/
def total (acc : Accumulator) : ℤ := acc.scalar + ∑ l, acc.lanes.lanes l

end Accumulator

/-- Where a window lies and how it is resampled. -/
structure Placement where
  channels : ℕ
  windowCornerX : ℤ
  windowCornerY : ℤ
  windowWidth : ℕ
  windowHeight : ℕ
  coeff : Coefficients

namespace Placement

variable (w : Placement)

/-- `window_width_times_channels`. -/
def windowWidthTimesChannels : ℕ := w.windowWidth * w.channels

/-- `prev_row0`, `row0`. -/
def imageRow (stride : ℤ) (y : ℕ) : ℤ :=
  (y + w.windowCornerY) * stride + w.windowCornerX * w.channels

/-- `scharr_row0`. -/
def scharrRow (stride : ℤ) (y : ℕ) : ℤ :=
  (y + w.windowCornerY) * stride + w.windowCornerX * w.channels * 2

/-- `window_row`. -/
def windowRow (y : ℕ) : ℕ := y * w.windowWidth * w.channels

/-- `scharr_window_row`. -/
def scharrWindowRow (y : ℕ) : ℕ := y * w.windowWidth * w.channels * 2

end Placement

/-- Four neighbours and what is made of them. -/
def corners (data : ℤ → ℤ) (p right down : ℤ) (lerp : ℤ → ℤ → ℤ → ℤ → ℤ) : ℤ :=
  lerp (data p) (data (p + right)) (data (p + down)) (data (p + down + right))

/-- The elements that four loads of `lanes` elements read. -/
def loads (p right down : ℤ) (lanes : ℕ) : List ℤ :=
  [p, p + right, p + down, p + down + right].flatMap fun first =>
    (List.range lanes).map fun (l : ℕ) => first + l

/-- `vst1_s16`, `vst1q_s16`. -/
def vst1 (m : ℕ → ℤ) (ptr lanes : ℕ) (v : ℕ → ℤ) : ℕ → ℤ := fun i =>
  if ptr ≤ i ∧ i < ptr + lanes then v (i - ptr) else m i

/-- `vst2_s16`, `vst2q_s16`. -/
def vst2 (m : ℕ → ℤ) (ptr lanes : ℕ) (v0 v1 : ℕ → ℤ) : ℕ → ℤ := fun i =>
  if ptr ≤ i ∧ i < ptr + 2 * lanes then
    if (i - ptr) % 2 = 0 then v0 ((i - ptr) / 2) else v1 ((i - ptr) / 2)
  else m i

/-- A row of a window: the calls of `LoopUnroll2` in both passes. -/
def windowRow {σ : Type} (n : ℕ) (twice once : ℕ → σ → σ) (vectorTail : σ → σ)
    (scalar : ℕ → σ → σ) (s : σ) : σ :=
  ((LoopUnroll2.start n 4, s) |> LoopUnroll2.unrollTwice twice |> LoopUnroll2.unrollOnce once |>
    LoopUnroll2.remaining fun index last s =>
      if 4 < n then vectorTail s else forFrom index (last - index) scalar s).2

/-- `make_leftover_accumulate_mask_s16`: which lanes are all ones. -/
def leftoverAccumulateMaskS16 (width l : ℕ) : Bool :=
  let count4 := (width - 1) % 4 + 1
  decide (4 - l ≤ count4)

/-- `make_leftover_accumulate_mask_s32`. -/
def leftoverAccumulateMaskS32 (width l : ℕ) : Bool :=
  let count4 := width % 4 ||| (if width % 8 = 4 then 4 else 0)
  decide (4 - l ≤ count4)

/-- `vand_s16`, `vandq_s32`. -/
def vand (v : ℕ → ℤ) (mask : ℕ → Bool) : ℕ → ℤ := fun l => if mask l then v l else 0

/-- The arguments of `sample_patch_and_gradients`. -/
structure SampleCall where
  prev : ℤ → U8
  prevStride : ℤ
  scharr : ℤ → ℤ
  scharrStride : ℤ
  place : Placement

/-- The two buffers, the three sums, and what was accessed. -/
structure Patch where
  window : ℕ → ℤ
  scharrWindow : ℕ → ℤ
  xx : Accumulator
  xy : Accumulator
  yy : Accumulator
  accesses : List Access

namespace SampleCall

variable (wrap : ℤ → ℤ) (c : SampleCall)

/-- Element `x + l` of `prev_row0`, interpolated. -/
def pixelLanes (y x l : ℕ) : ℤ :=
  corners (fun p => c.prev p) (c.place.imageRow c.prevStride y + x + l) c.place.channels c.prevStride
    (lerpLane (fractionBits - 5) c.place.coeff)

/-- `scharr_x` for `k = 0` and `scharr_y` for `k = 1`. -/
def scharrLanes (k y x l : ℕ) : ℤ :=
  corners c.scharr (c.place.scharrRow c.scharrStride y + (x + l) * 2 + k) (c.place.channels * 2)
    c.scharrStride (lerpLane fractionBits c.place.coeff)

/-- `store_interpolated_4_pixels`, `store_interpolated_8_pixels`. -/
def storeInterpolatedPixels (lanes y x : ℕ) (s : Patch) : Patch :=
  { s with
    window := vst1 s.window (c.place.windowRow y + x) lanes (c.pixelLanes y x)
    accesses := s.accesses ++
      (loads (c.place.imageRow c.prevStride y + x) c.place.channels c.prevStride lanes).map .image ++
      (List.range lanes).map fun l => .window (c.place.windowRow y + x + l) }

/-- `store_interpolated_pixel`. -/
def storeInterpolatedPixel (y x : ℕ) (s : Patch) : Patch :=
  { s with
    window := vst1 s.window (c.place.windowRow y + x) 1 fun _ =>
      word 16 (corners (fun p => c.prev p) (c.place.imageRow c.prevStride y + x) c.place.channels
        c.prevStride (lerpScalar (fractionBits - 5) c.place.coeff))
    accesses := s.accesses ++
      (loads (c.place.imageRow c.prevStride y + x) c.place.channels c.prevStride 1).map .image ++
      [.window (c.place.windowRow y + x)] }

/-- `compute_scharr4`, `compute_scharr8`: what they store and read. -/
def computeScharr (lanes y x : ℕ) (s : Patch) : Patch :=
  { s with
    scharrWindow := vst2 s.scharrWindow (c.place.scharrWindowRow y + x * 2) lanes
      (c.scharrLanes 0 y x) (c.scharrLanes 1 y x)
    accesses := s.accesses ++
      (loads (c.place.scharrRow c.scharrStride y + x * 2) (c.place.channels * 2) c.scharrStride
        (2 * lanes)).map .scharr ++
      (List.range (2 * lanes)).map fun l => .scharrWindow (c.place.scharrWindowRow y + x * 2 + l) }

/-- `accumulate_scharr_vectors`. -/
def accumulateScharrVectors (scharrX scharrY : ℕ → ℤ) (s : Patch) : Patch :=
  { s with
    xx := s.xx.vmlal wrap scharrX scharrX
    xy := s.xy.vmlal wrap scharrX scharrY
    yy := s.yy.vmlal wrap scharrY scharrY }

/-- `accumulate_scharr8`: the lower and the upper half. -/
def accumulateScharr8 (y x : ℕ) (s : Patch) : Patch :=
  c.computeScharr 8 y x s |>
    accumulateScharrVectors wrap (c.scharrLanes 0 y x) (c.scharrLanes 1 y x) |>
    accumulateScharrVectors wrap (fun l => c.scharrLanes 0 y x (4 + l))
      fun l => c.scharrLanes 1 y x (4 + l)

/-- `accumulate_scharr4`. -/
def accumulateScharr4 (y x : ℕ) (s : Patch) : Patch :=
  c.computeScharr 4 y x s |>
    accumulateScharrVectors wrap (c.scharrLanes 0 y x) (c.scharrLanes 1 y x)

/-- `accumulate_scharr4_tail`. -/
def accumulateScharr4Tail (y : ℕ) (s : Patch) : Patch :=
  let n := c.place.windowWidthTimesChannels
  c.computeScharr 4 y (n - 4) s |>
    accumulateScharrVectors wrap (vand (c.scharrLanes 0 y (n - 4)) (leftoverAccumulateMaskS16 n))
      (vand (c.scharrLanes 1 y (n - 4)) (leftoverAccumulateMaskS16 n))

/-- `scharr_x` and `scharr_y` of `accumulate_scharr_scalar`. -/
def scharrScalar (k y x : ℕ) : ℤ :=
  corners c.scharr (c.place.scharrRow c.scharrStride y + x * 2 + k) (c.place.channels * 2)
    c.scharrStride (lerpScalar fractionBits c.place.coeff)

/-- `accumulate_scharr_scalar`. -/
def accumulateScharrScalar (y x : ℕ) (s : Patch) : Patch :=
  let scharrX := c.scharrScalar 0 y x
  let scharrY := c.scharrScalar 1 y x
  { s with
    scharrWindow := vst2 s.scharrWindow (c.place.scharrWindowRow y + x * 2) 1
      (fun _ => word 16 scharrX) fun _ => word 16 scharrY
    xx := s.xx.addScalar (scharrX * scharrX)
    xy := s.xy.addScalar (scharrX * scharrY)
    yy := s.yy.addScalar (scharrY * scharrY)
    accesses := s.accesses ++
      (loads (c.place.scharrRow c.scharrStride y + x * 2) (c.place.channels * 2) c.scharrStride
        2).map .scharr ++
      (List.range 2).map fun l => .scharrWindow (c.place.scharrWindowRow y + x * 2 + l) }

/-- One row of `sample_patch_and_gradients`. -/
def sampleRow (y : ℕ) : Patch → Patch :=
  let n := c.place.windowWidthTimesChannels
  LucasKanade.windowRow n
    (fun index s => s |> c.storeInterpolatedPixels 8 y index |> c.accumulateScharr8 wrap y index)
    (fun index s => s |> c.storeInterpolatedPixels 4 y index |> c.accumulateScharr4 wrap y index)
    (fun s => s |> c.accumulateScharr4Tail wrap y |> c.storeInterpolatedPixels 4 y (n - 4))
    fun x s => s |> c.accumulateScharrScalar y x |> c.storeInterpolatedPixel y x

/-- `sample_patch_and_gradients`, on buffers with any contents. -/
def samplePatchAndGradients (window scharrWindow : ℕ → ℤ) : Patch :=
  forRange c.place.windowHeight (c.sampleRow wrap)
    ⟨window, scharrWindow, .zero, .zero, .zero, []⟩

end SampleCall

/-- The arguments of `accumulate_mismatch_vector`. -/
structure MismatchCall where
  next : ℤ → U8
  nextStride : ℤ
  window : ℕ → ℤ
  scharrWindow : ℕ → ℤ
  place : Placement

/-- The two sums, and what was accessed. -/
structure Mismatch where
  x : Accumulator
  y : Accumulator
  accesses : List Access

namespace MismatchCall

variable (wrap : ℤ → ℤ) (c : MismatchCall)

/-- `diff` of `compute_diff_and_scharr4` and `accumulate_diff_scharr8`. -/
def diffLanes (y x l : ℕ) : ℤ :=
  word 16 (corners (fun p => c.next p) (c.place.imageRow c.nextStride y + x + l) c.place.channels
    c.nextStride (lerpLane (fractionBits - 5) c.place.coeff) - c.window (c.place.windowRow y + x + l))

/-- `scharr_x` for `k = 0` and `scharr_y` for `k = 1`. -/
def scharrLanes (k y x l : ℕ) : ℤ := c.scharrWindow (c.place.scharrWindowRow y + (x + l) * 2 + k)

/-- What the loads of `lanes` elements read. -/
def read (lanes y x : ℕ) (s : Mismatch) : Mismatch :=
  { s with
    accesses := s.accesses ++
      (loads (c.place.imageRow c.nextStride y + x) c.place.channels c.nextStride lanes).map .image ++
      (List.range lanes).map (fun l => .window (c.place.windowRow y + x + l)) ++
      (List.range (2 * lanes)).map fun l => .scharrWindow (c.place.scharrWindowRow y + x * 2 + l) }

/-- `accumulate_diff_scharr8`. -/
def accumulateDiffScharr8 (y x : ℕ) (s : Mismatch) : Mismatch :=
  let s := c.read 8 y x s
  { s with
    x := (s.x.vmlal wrap (c.scharrLanes 0 y x) (c.diffLanes y x)).vmlal wrap
      (fun l => c.scharrLanes 0 y x (4 + l)) fun l => c.diffLanes y x (4 + l)
    y := (s.y.vmlal wrap (c.scharrLanes 1 y x) (c.diffLanes y x)).vmlal wrap
      (fun l => c.scharrLanes 1 y x (4 + l)) fun l => c.diffLanes y x (4 + l) }

/-- `accumulate_diff_scharr4`. -/
def accumulateDiffScharr4 (y x : ℕ) (s : Mismatch) : Mismatch :=
  let s := c.read 4 y x s
  { s with
    x := s.x.vmlal wrap (c.scharrLanes 0 y x) (c.diffLanes y x)
    y := s.y.vmlal wrap (c.scharrLanes 1 y x) (c.diffLanes y x) }

/-- `accumulate_diff_scharr4_tail`. -/
def accumulateDiffScharr4Tail (y : ℕ) (s : Mismatch) : Mismatch :=
  let n := c.place.windowWidthTimesChannels
  let x := n - 4
  let s := c.read 4 y x s
  let masked (k : ℕ) : ℕ → ℤ :=
    vand (fun l => c.scharrLanes k y x l * c.diffLanes y x l) (leftoverAccumulateMaskS32 n)
  { s with
    x := s.x.vaddq wrap (masked 0)
    y := s.y.vaddq wrap (masked 1) }

/-- `accumulate_diff_scharr_scalar`. -/
def accumulateDiffScharrScalar (y x : ℕ) (s : Mismatch) : Mismatch :=
  let next := corners (fun p => c.next p) (c.place.imageRow c.nextStride y + x) c.place.channels
    c.nextStride (lerpScalar (fractionBits - 5) c.place.coeff)
  let diff := next - c.window (c.place.windowRow y + x)
  let s := c.read 1 y x s
  { s with
    x := s.x.addScalar (diff * c.scharrWindow (c.place.scharrWindowRow y + x * 2))
    y := s.y.addScalar (diff * c.scharrWindow (c.place.scharrWindowRow y + x * 2 + 1)) }

/-- One row of `accumulate_mismatch_vector`. -/
def mismatchRow (y : ℕ) : Mismatch → Mismatch :=
  LucasKanade.windowRow c.place.windowWidthTimesChannels
    (fun index => c.accumulateDiffScharr8 wrap y index)
    (fun index => c.accumulateDiffScharr4 wrap y index)
    (c.accumulateDiffScharr4Tail wrap y)
    fun x => c.accumulateDiffScharrScalar y x

/-- `accumulate_mismatch_vector`. -/
def accumulateMismatchVector : Mismatch :=
  forRange c.place.windowHeight (c.mismatchRow wrap) ⟨.zero, .zero, []⟩

end MismatchCall

/-! ### A row of a window -/

/-- What every kind of step carries on holds at the end of the row.  The vector at the end
follows whole vectors, and single elements are left only of a row without one. -/
theorem windowRow_invariant {σ : Type} (inv : ℕ → σ → Prop) {n : ℕ} {twice once : ℕ → σ → σ}
    {vectorTail : σ → σ} {scalar : ℕ → σ → σ} {s : σ} (h0 : inv 0 s)
    (htwice : ∀ i s, 4 ∣ i → i + 8 ≤ n → inv i s → inv (i + 8) (twice i s))
    (honce : ∀ i s, 4 ∣ i → i + 4 ≤ n → inv i s → inv (i + 4) (once i s))
    (htail : ∀ i s, 4 ∣ i → i < n → n < i + 4 → 4 < n → inv i s → inv n (vectorTail s))
    (hscalar : ∀ i s, i < n → n < 4 → inv i s → inv (i + 1) (scalar i s)) :
    inv n (windowRow n twice once vectorTail scalar s) := by
  -- Whole vectors end where the last element left is less than one vector away.
  have hstart : Unrolled n 4 (fun i s => 4 ∣ i ∧ inv i s) (LoopUnroll2.start n 4, s) :=
    Unrolled.start ⟨dvd_zero 4, h0⟩
  have hpairs : Unrolled n 4 (fun i s => 4 ∣ i ∧ inv i s)
      (LoopUnroll2.unrollTwice twice (LoopUnroll2.start n 4, s)) :=
    hstart.unrollNTimes fun i s hi h =>
      ⟨h.1.add (by decide), htwice i s h.1 hi h.2⟩
  have hvectors : Unrolled n 4 (fun i s => 4 ∣ i ∧ inv i s)
      (LoopUnroll2.unrollOnce once (LoopUnroll2.unrollTwice twice (LoopUnroll2.start n 4, s))) :=
    hpairs.unrollNTimes fun i s hi h => ⟨h.1.add (by decide), honce i s h.1 hi h.2⟩
  have hlt := hpairs.lt_unrollNTimes 1 once (by decide)
  have hrest : Unrolled n 4 (fun i s => (4 ∣ i ∧ inv i s) ∧ n < i + 4)
      (LoopUnroll2.unrollOnce once (LoopUnroll2.unrollTwice twice (LoopUnroll2.start n 4, s))) :=
    { hvectors with holds := ⟨hvectors.holds, hlt⟩ }
  refine hrest.remaining (inv n) (fun s h => h.1.2) fun i s hi h => ?_
  obtain ⟨⟨hdvd, hinv⟩, hend⟩ := h
  by_cases htwo : 4 < n
  · rw [if_pos htwo]
    exact htail i s hdvd hi hend htwo hinv
  · rw [if_neg htwo]
    obtain ⟨k, hk⟩ := hdvd
    have hzero : i = 0 := by omega
    have hrun : inv (i + (n - i)) (forFrom i (n - i) scalar s) := forFrom_invariant inv hinv
      fun j _ hj s h => hscalar j s (by omega) (by omega) h
    rwa [Nat.add_sub_cancel' hi.le] at hrun

/-! ### Which products the lanes get -/

namespace Accumulator

variable (wrap : ℤ → ℤ) (f : ℕ → ℕ → ℤ) (n : ℕ)

/-- The vectors of products of the first `i` elements of row `y`.  The last one overlaps
the one before and is masked. -/
def rowGroups (y i : ℕ) : List (Fin 4 → ℤ) :=
  (List.range (i / 4)).map (fun (g : ℕ) (l : Fin 4) => f y (4 * g + l)) ++
    if i % 4 = 0 then []
    else [fun l : Fin 4 => if 4 - (l : ℕ) ≤ i % 4 then f y (i - 4 + l) else 0]

/-- The vectors of `y` rows and of the first `i` elements of the next one. -/
def groups (y i : ℕ) : List (Fin 4 → ℤ) :=
  if n < 4 then [] else (List.range y).flatMap (rowGroups f · n) ++ rowGroups f y i

/-- The single products of the same elements. -/
def scalars (y i : ℕ) : ℤ :=
  if n < 4 then ∑ y' ∈ Finset.range y, ∑ x ∈ Finset.range n, f y' x + ∑ x ∈ Finset.range i, f y x
  else 0

/-- The accumulator after these elements. -/
def upTo (y i : ℕ) : Accumulator := ⟨.run wrap (groups f n y i), scalars f n y i⟩

variable {wrap n f} {y i : ℕ}

@[simp] theorem upTo_zero : upTo wrap f n 0 0 = .zero := by
  simp [upTo, groups, scalars, rowGroups, zero]

theorem upTo_row : upTo wrap f n (y + 1) 0 = upTo wrap f n y n := by
  rw [upTo, upTo]
  congr 1
  · congr 1
    rw [groups, groups]
    split
    · rfl
    · rw [List.range_succ, List.flatMap_append]
      simp [rowGroups]
  · rw [scalars, scalars]
    split
    · rw [Finset.sum_range_succ, Finset.range_zero, Finset.sum_empty, add_zero]
    · rfl

theorem upTo_vaddq {p : ℕ → ℤ} (hn : 4 ≤ n) (hi : 4 ∣ i) (hp : ∀ l < 4, p l = f y (i + l)) :
    (upTo wrap f n y i).vaddq wrap p = upTo wrap f n y (i + 4) := by
  obtain ⟨k, rfl⟩ := hi
  have hgroups : groups f n y (4 * k + 4) = groups f n y (4 * k) ++ [fun l : Fin 4 => p l] := by
    rw [groups, groups, if_neg (by omega), if_neg (by omega), List.append_assoc]
    congr 1
    rw [rowGroups, rowGroups, show (4 * k + 4) / 4 = k + 1 by omega, show 4 * k / 4 = k by omega,
      if_pos (by omega), if_pos (by omega), List.range_succ, List.map_append, List.append_nil,
      List.append_nil, List.map_singleton]
    congr 2
    funext l
    exact (hp l l.isLt).symm
  rw [upTo, upTo, hgroups, LaneSum.run_concat, vaddq]
  congr 1
  rw [scalars, scalars, if_neg (by omega), if_neg (by omega)]

/-- The masked vector. -/
theorem upTo_vaddq_tail {p : ℕ → ℤ} (hi : 4 ∣ i) (hlt : i < n) (hend : n < i + 4) (hn : 4 < n)
    (hp : ∀ l < 4, p l = if 4 - l ≤ n % 4 then f y (n - 4 + l) else 0) :
    (upTo wrap f n y i).vaddq wrap p = upTo wrap f n y n := by
  obtain ⟨k, rfl⟩ := hi
  have hgroups : groups f n y n = groups f n y (4 * k) ++ [fun l : Fin 4 => p l] := by
    rw [groups, groups, if_neg (by omega), if_neg (by omega), List.append_assoc]
    congr 1
    rw [rowGroups, rowGroups, show n / 4 = k by omega, show 4 * k / 4 = k by omega,
      if_neg (by omega), if_pos (by omega), List.append_nil]
    congr 2
    funext l
    exact (hp l l.isLt).symm
  rw [upTo, upTo, hgroups, LaneSum.run_concat, vaddq]
  congr 1
  rw [scalars, scalars, if_neg (by omega), if_neg (by omega)]

theorem upTo_addScalar {p : ℤ} (hn : n < 4) (hp : p = f y i) :
    (upTo wrap f n y i).addScalar p = upTo wrap f n y (i + 1) := by
  rw [upTo, upTo, addScalar]
  congr 1
  · rw [groups, groups, if_pos hn, if_pos hn]
  · rw [scalars, scalars, if_pos hn, if_pos hn, Finset.sum_range_succ, hp, add_assoc]

/-! ### What the sums amount to -/

theorem length_rowGroups (y i : ℕ) : (rowGroups f y i).length = (i + 3) / 4 := by
  rw [rowGroups, List.length_append, List.length_map, List.length_range]
  split
  · rw [List.length_nil]
    omega
  · rw [List.length_singleton]
    omega

/-- How many products a lane adds up in a row. -/
def perRow (n : ℕ) : ℕ := if n < 4 then 0 else (n + 3) / 4

theorem length_groups (y : ℕ) : (groups f n y 0).length = y * perRow n := by
  rw [groups, perRow]
  split
  · rw [List.length_nil, mul_zero]
  · rw [List.length_append, length_rowGroups, List.length_flatMap]
    simp [length_rowGroups]

theorem sum_wholeGroups (y k : ℕ) :
    ((List.range k).map fun g => ∑ l : Fin 4, f y (4 * g + l)).sum =
      ∑ x ∈ Finset.range (4 * k), f y x := by
  induction k with
  | zero => rfl
  | succ k ih =>
    rw [List.range_succ, List.map_append, List.sum_append, ih, List.map_singleton,
      List.sum_singleton, show 4 * (k + 1) = 4 * k + 1 + 1 + 1 + 1 by omega, Finset.sum_range_succ,
      Finset.sum_range_succ, Finset.sum_range_succ, Finset.sum_range_succ, Fin.sum_univ_four]
    show _ + (f y (4 * k) + f y (4 * k + 1) + f y (4 * k + 1 + 1) + f y (4 * k + 1 + 1 + 1)) = _
    ring

/-- The mask leaves out what earlier vectors have added. -/
theorem sum_rowGroups {i : ℕ} (hi : i % 4 = 0 ∨ 4 < i) (y : ℕ) :
    ((rowGroups f y i).map fun p => ∑ l, p l).sum = ∑ x ∈ Finset.range i, f y x := by
  have hwhole := sum_wholeGroups (f := f) y (i / 4)
  rw [rowGroups, List.map_append, List.sum_append, List.map_map]
  rw [show (fun p : Fin 4 → ℤ => ∑ l, p l) ∘ (fun (g : ℕ) (l : Fin 4) => f y (4 * g + l)) =
    fun g => ∑ l : Fin 4, f y (4 * g + l) from rfl, hwhole]
  obtain hmod | hmod | hmod | hmod : i % 4 = 0 ∨ i % 4 = 1 ∨ i % 4 = 2 ∨ i % 4 = 3 := by omega
  · rw [if_pos hmod, List.map_nil, List.sum_nil, add_zero, show 4 * (i / 4) = i by omega]
  · obtain ⟨k, rfl⟩ : ∃ k, i = 4 * k + 5 := ⟨(i - 5) / 4, by omega⟩
    rw [hmod, show 4 * ((4 * k + 5) / 4) = 4 * k + 4 by omega, Finset.sum_range_succ _ (4 * k + 4)]
    simp [Fin.sum_univ_four]
  · obtain ⟨k, rfl⟩ : ∃ k, i = 4 * k + 6 := ⟨(i - 6) / 4, by omega⟩
    rw [hmod, show 4 * ((4 * k + 6) / 4) = 4 * k + 4 by omega, Finset.sum_range_succ _ (4 * k + 5),
      Finset.sum_range_succ _ (4 * k + 4)]
    simp [Fin.sum_univ_four, add_assoc]
  · obtain ⟨k, rfl⟩ : ∃ k, i = 4 * k + 7 := ⟨(i - 7) / 4, by omega⟩
    rw [hmod, show 4 * ((4 * k + 7) / 4) = 4 * k + 4 by omega, Finset.sum_range_succ _ (4 * k + 6),
      Finset.sum_range_succ _ (4 * k + 5), Finset.sum_range_succ _ (4 * k + 4)]
    simp [Fin.sum_univ_four, add_assoc]

theorem sum_groups (hn : 4 ≤ n) (y : ℕ) :
    ((groups f n y 0).map fun p => ∑ l, p l).sum =
      ∑ y' ∈ Finset.range y, ∑ x ∈ Finset.range n, f y' x := by
  rw [groups, if_neg (by omega), show rowGroups f y 0 = [] from rfl, List.append_nil]
  induction y with
  | zero => rfl
  | succ y ih =>
    rw [List.range_succ, List.flatMap_append, List.map_append, List.sum_append, ih,
      Finset.sum_range_succ]
    congr 1
    rw [List.flatMap_singleton]
    exact sum_rowGroups (by omega) y

/-- **The whole sum**, whatever part of it is in the lanes. -/
theorem total_upTo (h : (upTo wrap f n y 0).lanes.exact) :
    (upTo wrap f n y 0).total = ∑ y' ∈ Finset.range y, ∑ x ∈ Finset.range n, f y' x := by
  rw [total, show ∑ l, (upTo wrap f n y 0).lanes.lanes l = _ from LaneSum.total_of_exact h]
  show scalars f n y 0 + _ = _
  by_cases hn : n < 4
  · rw [scalars, if_pos hn, groups, if_pos hn]
    simp
  · rw [scalars, if_neg hn, zero_add]
    exact sum_groups (not_lt.mp hn) y

theorem mem_rowGroups {p : Fin 4 → ℤ} {y i : ℕ} (h : p ∈ rowGroups f y i) (l : Fin 4) :
    p l = 0 ∨ ∃ x, p l = f y x := by
  rw [rowGroups, List.mem_append, List.mem_map] at h
  rcases h with ⟨g, -, rfl⟩ | h
  · exact .inr ⟨_, rfl⟩
  · split at h
    · exact absurd h List.not_mem_nil
    · rw [List.mem_singleton] at h
      rw [h]
      dsimp only
      split
      · exact .inr ⟨_, rfl⟩
      · exact .inl rfl

/-- No lane of few small products wraps around. -/
theorem exact_upTo {B M : ℤ} (hwrap : ∀ x, |x| < M → wrap x = x) (hB : 0 ≤ B)
    (hf : ∀ y x, |f y x| ≤ B) (hlen : (y * perRow n : ℕ) * B < M) :
    (upTo wrap f n y 0).lanes.exact := by
  have hrow : ∀ {p y i}, p ∈ rowGroups f y i → ∀ l, |p l| ≤ B := by
    intro p y i h l
    rcases mem_rowGroups h l with hzero | ⟨x, hx⟩
    · rwa [hzero, abs_zero]
    · rw [hx]
      exact hf y x
  refine LaneSum.exact_of_bound hwrap hB (fun p hp l => ?_) (by rwa [length_groups])
  rw [groups] at hp
  split at hp
  · exact absurd hp List.not_mem_nil
  · rcases List.mem_append.mp hp with h | h
    · obtain ⟨y', -, h'⟩ := List.mem_flatMap.mp h
      exact hrow h' l
    · exact hrow h l

/-- The last lane wraps around when its products are all large. -/
theorem not_exact_upTo {P M : ℤ} (hM : 0 < M) (hwrap : ∀ x, wrap x < M)
    (hf : ∀ y x, x < n → x % 4 = 3 ∨ x + 1 = n → f y x = P) (hlen : M ≤ (y * perRow n : ℕ) * P) :
    ¬(upTo wrap f n y 0).lanes.exact := by
  have hrow : 4 ≤ n → ∀ y, ∀ p ∈ rowGroups f y n, p 3 = P := by
    intro hn y p hp
    rw [rowGroups, List.mem_append, List.mem_map] at hp
    rcases hp with ⟨g, hg, rfl⟩ | h
    · have hlt := List.mem_range.mp hg
      exact hf y (4 * g + 3) (by omega) (.inl (by omega))
    · split at h
      · exact absurd h List.not_mem_nil
      · rw [List.mem_singleton.mp h]
        show (if 4 - 3 ≤ n % 4 then f y (n - 4 + 3) else 0) = P
        rw [if_pos (by omega)]
        exact hf y _ (by omega) (.inr (by omega))
  have hall : ∀ p ∈ groups f n y 0, p 3 = P := by
    intro p hp
    rw [groups] at hp
    split at hp
    · exact absurd hp List.not_mem_nil
    next hn =>
      rcases List.mem_append.mp hp with h | h
      · obtain ⟨y', -, h'⟩ := List.mem_flatMap.mp h
        exact hrow (not_lt.mp hn) y' p h'
      · exact absurd h List.not_mem_nil
  have hsum : ((groups f n y 0).map (· 3)).sum = (y * perRow n : ℕ) * P := by
    rw [List.sum_eq_card_nsmul _ P, List.length_map, length_groups, nsmul_eq_mul]
    intro v hv
    obtain ⟨p, hp, rfl⟩ := List.mem_map.mp hv
    exact hall p hp
  exact LaneSum.not_exact hM hwrap (hsum ▸ hlen)

end Accumulator

/-! ### What the buffers hold -/

/-- The elements with an even and with an odd index. -/
theorem vst2_even (m : ℕ → ℤ) (ptr lanes : ℕ) (v0 v1 : ℕ → ℤ) :
    (fun j => vst2 m (ptr * 2) lanes v0 v1 (j * 2)) = vst1 (fun j => m (j * 2)) ptr lanes v0 := by
  funext j
  rw [vst2, vst1]
  by_cases hin : ptr ≤ j ∧ j < ptr + lanes
  · rw [if_pos hin, if_pos (by omega), if_pos (by omega),
      show (j * 2 - ptr * 2) / 2 = j - ptr by omega]
  · rw [if_neg hin, if_neg (by omega)]

theorem vst2_odd (m : ℕ → ℤ) (ptr lanes : ℕ) (v0 v1 : ℕ → ℤ) :
    (fun j => vst2 m (ptr * 2) lanes v0 v1 (j * 2 + 1)) =
      vst1 (fun j => m (j * 2 + 1)) ptr lanes v1 := by
  funext j
  rw [vst2, vst1]
  by_cases hin : ptr ≤ j ∧ j < ptr + lanes
  · rw [if_pos hin, if_pos (by omega), if_neg (by omega),
      show (j * 2 + 1 - ptr * 2) / 2 = j - ptr by omega]
  · rw [if_neg hin, if_neg (by omega)]

section Buffers

variable {n y i : ℕ} {old m : ℕ → ℤ}

/-- Storing a vector that may overlap what is there. -/
theorem filledRows_vst1 {f : ℕ → ℕ → ℤ} (h : FilledRows f n old y i m) {x lanes : ℕ} (hx : x ≤ i)
    (he : i ≤ x + lanes) {v : ℕ → ℤ} (hv : ∀ l < lanes, v l = f y (x + l)) :
    FilledRows f n old y (x + lanes) (vst1 m (y * n + x) lanes v) := by
  refine h.store hx he (fun k hk hlt => ?_) fun j hj => if_neg (by omega)
  rw [vst1, if_pos (by omega), show y * n + k - (y * n + x) = k - x by omega, hv _ (by omega),
    show x + (k - x) = k by omega]

/-- A buffer of pairs. -/
structure FilledPairs (f : ℕ → ℕ → ℕ → ℤ) (n : ℕ) (old : ℕ → ℤ) (y i : ℕ) (m : ℕ → ℤ) : Prop where
  even : FilledRows (f 0) n (fun j => old (j * 2)) y i fun j => m (j * 2)
  odd : FilledRows (f 1) n (fun j => old (j * 2 + 1)) y i fun j => m (j * 2 + 1)

namespace FilledPairs

variable {f : ℕ → ℕ → ℕ → ℤ}

theorem row (h : FilledPairs f n old y n m) : FilledPairs f n old (y + 1) 0 m :=
  ⟨h.even.row, h.odd.row⟩

theorem unique {m' : ℕ → ℤ} (h : FilledPairs f n old y 0 m) (h' : FilledPairs f n old y 0 m') :
    m = m' := by
  funext j
  obtain ⟨k, rfl | rfl⟩ := Nat.even_or_odd' j
  · rw [Nat.mul_comm]
    exact congrFun (h.even.unique h'.even) k
  · rw [Nat.mul_comm]
    exact congrFun (h.odd.unique h'.odd) k

theorem vst2 (h : FilledPairs f n old y i m) {x lanes : ℕ} (hx : x ≤ i) (he : i ≤ x + lanes)
    {v0 v1 : ℕ → ℤ} (hv0 : ∀ l < lanes, v0 l = f 0 y (x + l))
    (hv1 : ∀ l < lanes, v1 l = f 1 y (x + l)) :
    FilledPairs f n old y (x + lanes) (LucasKanade.vst2 m ((y * n + x) * 2) lanes v0 v1) where
  even := by
    rw [vst2_even]
    exact filledRows_vst1 h.even hx he hv0
  odd := by
    rw [vst2_odd]
    exact filledRows_vst1 h.odd hx he hv1

end FilledPairs

end Buffers

/-- The masks keep the last `n % 4` lanes. -/
theorem leftoverAccumulateMaskS16_eq {n l : ℕ} (hn : n % 4 ≠ 0) :
    leftoverAccumulateMaskS16 n l = decide (4 - l ≤ n % 4) := by
  rw [leftoverAccumulateMaskS16, show (n - 1) % 4 + 1 = n % 4 by omega]

theorem leftoverAccumulateMaskS32_eq {n l : ℕ} (hn : n % 4 ≠ 0) :
    leftoverAccumulateMaskS32 n l = decide (4 - l ≤ n % 4) := by
  rw [leftoverAccumulateMaskS32, if_neg (by omega)]
  rw [Nat.or_zero]

/-! ### The first pass -/

namespace SampleCall

variable {wrap : ℤ → ℤ} {c : SampleCall}

/-- What the validation and the image data promise. -/
structure Admissible (c : SampleCall) : Prop where
  scharr_mem : ∀ p, -4080 ≤ c.scharr p ∧ c.scharr p ≤ 4080
  coeff : c.place.coeff.Valid

/-- An interpolated pixel. -/
def pixel (c : SampleCall) (y x : ℕ) : ℤ :=
  corners (fun p => c.prev p) (c.place.imageRow c.prevStride y + x) c.place.channels c.prevStride
    (lerpScalar (fractionBits - 5) c.place.coeff)

theorem u8_mem (v : U8) : 0 ≤ (v : ℤ) ∧ (v : ℤ) ≤ 255 := by omega

theorem pixel_mem (h : c.Admissible) (y x : ℕ) : -1 ≤ c.pixel y x ∧ c.pixel y x ≤ 8161 :=
  LucasKanade.pixel_mem h.coeff (u8_mem _) (u8_mem _) (u8_mem _) (u8_mem _)

theorem scharrScalar_mem (h : c.Admissible) (k y x : ℕ) :
    -4081 ≤ c.scharrScalar k y x ∧ c.scharrScalar k y x ≤ 4081 :=
  LucasKanade.scharr_mem h.coeff (h.scharr_mem _) (h.scharr_mem _) (h.scharr_mem _) (h.scharr_mem _)

theorem pixelLanes_eq (h : c.Admissible) (y x l : ℕ) : c.pixelLanes y x l = c.pixel y (x + l) := by
  rw [pixel, Nat.cast_add, ← add_assoc]
  exact lerpLane_pixel h.coeff (u8_mem _) (u8_mem _) (u8_mem _) (u8_mem _)

theorem scharrLanes_eq (h : c.Admissible) (k y x l : ℕ) :
    c.scharrLanes k y x l = c.scharrScalar k y (x + l) := by
  rw [scharrScalar, Nat.cast_add]
  exact lerpLane_scharr h.coeff (h.scharr_mem _) (h.scharr_mem _) (h.scharr_mem _) (h.scharr_mem _)

/-- Products of two derivatives. -/
def product (c : SampleCall) (k k' y x : ℕ) : ℤ := c.scharrScalar k y x * c.scharrScalar k' y x

/-- Everything up to element `i` of row `y` is done. -/
structure Sampled (wrap : ℤ → ℤ) (c : SampleCall) (window scharrWindow : ℕ → ℤ) (y i : ℕ)
    (s : Patch) : Prop where
  window : FilledRows c.pixel c.place.windowWidthTimesChannels window y i s.window
  scharrWindow :
    FilledPairs c.scharrScalar c.place.windowWidthTimesChannels scharrWindow y i s.scharrWindow
  xx : s.xx = .upTo wrap (c.product 0 0) c.place.windowWidthTimesChannels y i
  xy : s.xy = .upTo wrap (c.product 0 1) c.place.windowWidthTimesChannels y i
  yy : s.yy = .upTo wrap (c.product 1 1) c.place.windowWidthTimesChannels y i

theorem windowRow_eq (w : Placement) (y : ℕ) : w.windowRow y = y * w.windowWidthTimesChannels :=
  Nat.mul_assoc _ _ _

theorem scharrWindowRow_eq (w : Placement) (y x : ℕ) :
    w.scharrWindowRow y + x * 2 = (y * w.windowWidthTimesChannels + x) * 2 := by
  rw [Placement.scharrWindowRow, Nat.mul_assoc y, Nat.add_mul]
  rfl

section Steps

variable {y i : ℕ} {s : Patch} {window scharrWindow : ℕ → ℤ}

theorem windowStored (h : c.Admissible)
    (hs : FilledRows c.pixel c.place.windowWidthTimesChannels window y i s.window) {x lanes : ℕ}
    (hx : x ≤ i) (he : i ≤ x + lanes) :
    FilledRows c.pixel c.place.windowWidthTimesChannels window y (x + lanes)
      (c.storeInterpolatedPixels lanes y x s).window := by
  show FilledRows _ _ _ _ _ (vst1 s.window (c.place.windowRow y + x) lanes (c.pixelLanes y x))
  rw [windowRow_eq]
  exact filledRows_vst1 hs hx he fun l _ => pixelLanes_eq h y x l

theorem scharrStored (h : c.Admissible)
    (hs : FilledPairs c.scharrScalar c.place.windowWidthTimesChannels scharrWindow y i
      s.scharrWindow) {x lanes : ℕ} (hx : x ≤ i) (he : i ≤ x + lanes) :
    FilledPairs c.scharrScalar c.place.windowWidthTimesChannels scharrWindow y (x + lanes)
      (c.computeScharr lanes y x s).scharrWindow := by
  show FilledPairs _ _ _ _ _ (vst2 s.scharrWindow (c.place.scharrWindowRow y + x * 2) lanes _ _)
  rw [scharrWindowRow_eq]
  exact hs.vst2 hx he (fun l _ => scharrLanes_eq h 0 y x l) fun l _ => scharrLanes_eq h 1 y x l

variable {k k' : ℕ}

theorem vmlal_low (h : c.Admissible) (hn : i + 4 ≤ c.place.windowWidthTimesChannels)
    (hi : 4 ∣ i) :
    (Accumulator.upTo wrap (c.product k k') c.place.windowWidthTimesChannels y i).vmlal wrap
        (c.scharrLanes k y i) (c.scharrLanes k' y i) =
      .upTo wrap (c.product k k') c.place.windowWidthTimesChannels y (i + 4) := by
  refine Accumulator.upTo_vaddq (by omega) hi fun l _ => ?_
  rw [scharrLanes_eq h, scharrLanes_eq h, product]

theorem vmlal_high (h : c.Admissible) (hn : i + 8 ≤ c.place.windowWidthTimesChannels)
    (hi : 4 ∣ i) :
    (Accumulator.upTo wrap (c.product k k') c.place.windowWidthTimesChannels y (i + 4)).vmlal wrap
        (fun l => c.scharrLanes k y i (4 + l)) (fun l => c.scharrLanes k' y i (4 + l)) =
      .upTo wrap (c.product k k') c.place.windowWidthTimesChannels y (i + 8) := by
  refine Accumulator.upTo_vaddq (by omega) (hi.add (by decide)) fun l _ => ?_
  show c.scharrLanes k y i (4 + l) * c.scharrLanes k' y i (4 + l) = _
  rw [scharrLanes_eq h, scharrLanes_eq h, product, add_assoc]

theorem vmlal_tail (h : c.Admissible) (hi : 4 ∣ i) (hlt : i < c.place.windowWidthTimesChannels)
    (hend : c.place.windowWidthTimesChannels < i + 4) (hn : 4 < c.place.windowWidthTimesChannels) :
    (Accumulator.upTo wrap (c.product k k') c.place.windowWidthTimesChannels y i).vmlal wrap
        (vand (c.scharrLanes k y (c.place.windowWidthTimesChannels - 4))
          (leftoverAccumulateMaskS16 c.place.windowWidthTimesChannels))
        (vand (c.scharrLanes k' y (c.place.windowWidthTimesChannels - 4))
          (leftoverAccumulateMaskS16 c.place.windowWidthTimesChannels)) =
      .upTo wrap (c.product k k') c.place.windowWidthTimesChannels y
        c.place.windowWidthTimesChannels := by
  refine Accumulator.upTo_vaddq_tail hi hlt hend hn fun l _ => ?_
  rw [vand, vand, leftoverAccumulateMaskS16_eq (by omega)]
  by_cases hmask : 4 - l ≤ c.place.windowWidthTimesChannels % 4
  · rw [if_pos hmask, decide_eq_true hmask, if_pos rfl, if_pos rfl, scharrLanes_eq h,
      scharrLanes_eq h, product]
  · rw [if_neg hmask, decide_eq_false hmask, if_neg Bool.false_ne_true, zero_mul]

theorem Sampled.twice (h : c.Admissible) (hi : 4 ∣ i)
    (hn : i + 8 ≤ c.place.windowWidthTimesChannels) (hs : Sampled wrap c window scharrWindow y i s) :
    Sampled wrap c window scharrWindow y (i + 8)
      (c.accumulateScharr8 wrap y i (c.storeInterpolatedPixels 8 y i s)) where
  window := windowStored h hs.window le_rfl (by omega)
  scharrWindow := scharrStored h hs.scharrWindow le_rfl (by omega)
  xx := by
    show (s.xx.vmlal wrap (c.scharrLanes 0 y i) (c.scharrLanes 0 y i)).vmlal wrap
      (fun l => c.scharrLanes 0 y i (4 + l)) (fun l => c.scharrLanes 0 y i (4 + l)) = _
    rw [hs.xx, vmlal_low h (by omega) hi, vmlal_high h hn hi]
  xy := by
    show (s.xy.vmlal wrap (c.scharrLanes 0 y i) (c.scharrLanes 1 y i)).vmlal wrap
      (fun l => c.scharrLanes 0 y i (4 + l)) (fun l => c.scharrLanes 1 y i (4 + l)) = _
    rw [hs.xy, vmlal_low h (by omega) hi, vmlal_high h hn hi]
  yy := by
    show (s.yy.vmlal wrap (c.scharrLanes 1 y i) (c.scharrLanes 1 y i)).vmlal wrap
      (fun l => c.scharrLanes 1 y i (4 + l)) (fun l => c.scharrLanes 1 y i (4 + l)) = _
    rw [hs.yy, vmlal_low h (by omega) hi, vmlal_high h hn hi]

theorem Sampled.once (h : c.Admissible) (hi : 4 ∣ i)
    (hn : i + 4 ≤ c.place.windowWidthTimesChannels) (hs : Sampled wrap c window scharrWindow y i s) :
    Sampled wrap c window scharrWindow y (i + 4)
      (c.accumulateScharr4 wrap y i (c.storeInterpolatedPixels 4 y i s)) where
  window := windowStored h hs.window le_rfl (by omega)
  scharrWindow := scharrStored h hs.scharrWindow le_rfl (by omega)
  xx := by
    show s.xx.vmlal wrap _ _ = _
    rw [hs.xx, vmlal_low h hn hi]
  xy := by
    show s.xy.vmlal wrap _ _ = _
    rw [hs.xy, vmlal_low h hn hi]
  yy := by
    show s.yy.vmlal wrap _ _ = _
    rw [hs.yy, vmlal_low h hn hi]

theorem Sampled.tail (h : c.Admissible) (hi : 4 ∣ i) (hlt : i < c.place.windowWidthTimesChannels)
    (hend : c.place.windowWidthTimesChannels < i + 4) (hn : 4 < c.place.windowWidthTimesChannels)
    (hs : Sampled wrap c window scharrWindow y i s) :
    Sampled wrap c window scharrWindow y c.place.windowWidthTimesChannels
      (c.storeInterpolatedPixels 4 y (c.place.windowWidthTimesChannels - 4)
        (c.accumulateScharr4Tail wrap y s)) where
  window := by
    have hstored := windowStored (s := c.accumulateScharr4Tail wrap y s) h hs.window
      (x := c.place.windowWidthTimesChannels - 4) (by omega)
      (show i ≤ c.place.windowWidthTimesChannels - 4 + 4 by omega)
    rwa [Nat.sub_add_cancel hn.le] at hstored
  scharrWindow := by
    have hstored := scharrStored h hs.scharrWindow
      (x := c.place.windowWidthTimesChannels - 4) (by omega)
      (show i ≤ c.place.windowWidthTimesChannels - 4 + 4 by omega)
    rwa [Nat.sub_add_cancel hn.le] at hstored
  xx := by
    show s.xx.vmlal wrap _ _ = _
    rw [hs.xx]
    exact vmlal_tail h hi hlt hend hn
  xy := by
    show s.xy.vmlal wrap _ _ = _
    rw [hs.xy]
    exact vmlal_tail h hi hlt hend hn
  yy := by
    show s.yy.vmlal wrap _ _ = _
    rw [hs.yy]
    exact vmlal_tail h hi hlt hend hn

theorem Sampled.scalar (h : c.Admissible) (hn : c.place.windowWidthTimesChannels < 4)
    (hs : Sampled wrap c window scharrWindow y i s) :
    Sampled wrap c window scharrWindow y (i + 1) (c.storeInterpolatedPixel y i (c.accumulateScharrScalar y i s)) where
  window := by
    show FilledRows _ _ _ _ _
      (vst1 s.window (c.place.windowRow y + i) 1 fun _ => word 16 (c.pixel y i))
    rw [windowRow_eq]
    refine filledRows_vst1 hs.window le_rfl (by omega) fun l hl => ?_
    have hmem := pixel_mem h y i
    obtain rfl : l = 0 := by omega
    exact word_eq (x := c.pixel y i) (by omega) (by omega) (by decide)
  scharrWindow := by
    show FilledPairs _ _ _ _ _ (vst2 s.scharrWindow (c.place.scharrWindowRow y + i * 2) 1
      (fun _ => word 16 (c.scharrScalar 0 y i)) fun _ => word 16 (c.scharrScalar 1 y i))
    rw [scharrWindowRow_eq]
    have hword : ∀ k, ∀ l < 1, word 16 (c.scharrScalar k y i) = c.scharrScalar k y (i + l) := by
      intro k l hl
      have hmem := scharrScalar_mem h k y i
      obtain rfl : l = 0 := by omega
      exact word_eq (by omega) (by omega) (by decide)
    exact hs.scharrWindow.vst2 le_rfl (by omega) (hword 0) (hword 1)
  xx := by
    show s.xx.addScalar _ = _
    rw [hs.xx]
    exact Accumulator.upTo_addScalar hn rfl
  xy := by
    show s.xy.addScalar _ = _
    rw [hs.xy]
    exact Accumulator.upTo_addScalar hn rfl
  yy := by
    show s.yy.addScalar _ = _
    rw [hs.yy]
    exact Accumulator.upTo_addScalar hn rfl

theorem Sampled.row (hs : Sampled wrap c window scharrWindow y c.place.windowWidthTimesChannels s) :
    Sampled wrap c window scharrWindow (y + 1) 0 s where
  window := hs.window.row
  scharrWindow := hs.scharrWindow.row
  xx := by rw [hs.xx, Accumulator.upTo_row]
  xy := by rw [hs.xy, Accumulator.upTo_row]
  yy := by rw [hs.yy, Accumulator.upTo_row]

end Steps

/-- **The whole pass**: the buffers hold the window and its derivatives, and each
accumulator has got all its products. -/
theorem samplePatchAndGradients_sampled (wrap : ℤ → ℤ) (h : c.Admissible) (window scharrWindow : ℕ → ℤ) :
    Sampled wrap c window scharrWindow c.place.windowHeight 0
      (c.samplePatchAndGradients wrap window scharrWindow) := by
  refine forRange_invariant (fun y s => Sampled wrap c window scharrWindow y 0 s) ?_ fun y _ s hs => ?_
  · exact ⟨.start, ⟨.start, .start⟩, Accumulator.upTo_zero.symm, Accumulator.upTo_zero.symm,
      Accumulator.upTo_zero.symm⟩
  · exact Sampled.row (windowRow_invariant (fun i s => Sampled wrap c window scharrWindow y i s) hs
      (fun i s hi hn hs => hs.twice h hi hn) (fun i s hi hn hs => hs.once h hi hn)
      (fun i s hi hlt hend hn hs => hs.tail h hi hlt hend hn) fun i s _ hn hs => hs.scalar h hn)

end SampleCall

/-! ### The second pass -/

namespace MismatchCall

variable {wrap : ℤ → ℤ} {c : MismatchCall} {p : SampleCall}

/-- A window of the next image is compared with what a first pass has left. -/
structure Follows (c : MismatchCall) (p : SampleCall) : Prop where
  admissible : p.Admissible
  coeff : c.place.coeff.Valid
  channels : c.place.channels = p.place.channels
  windowWidth : c.place.windowWidth = p.place.windowWidth
  windowHeight : c.place.windowHeight = p.place.windowHeight
  window : ∃ old, FilledRows p.pixel p.place.windowWidthTimesChannels old p.place.windowHeight 0
    c.window
  scharrWindow : ∃ old, FilledPairs p.scharrScalar p.place.windowWidthTimesChannels old
    p.place.windowHeight 0 c.scharrWindow

/-- An interpolated pixel of the next image. -/
def pixel (c : MismatchCall) (y x : ℕ) : ℤ :=
  corners (fun p => c.next p) (c.place.imageRow c.nextStride y + x) c.place.channels c.nextStride
    (lerpScalar (fractionBits - 5) c.place.coeff)

/-- The difference of the images times a derivative. -/
def product (c : MismatchCall) (p : SampleCall) (k y x : ℕ) : ℤ :=
  p.scharrScalar k y x * (c.pixel y x - p.pixel y x)

/-- Everything up to element `i` of row `y` is done. -/
structure Compared (wrap : ℤ → ℤ) (c : MismatchCall) (p : SampleCall) (y i : ℕ) (s : Mismatch) :
    Prop where
  x : s.x = .upTo wrap (c.product p 0) c.place.windowWidthTimesChannels y i
  y : s.y = .upTo wrap (c.product p 1) c.place.windowWidthTimesChannels y i

theorem Follows.width_eq (h : c.Follows p) :
    p.place.windowWidthTimesChannels = c.place.windowWidthTimesChannels := by
  rw [Placement.windowWidthTimesChannels, Placement.windowWidthTimesChannels, h.windowWidth,
    h.channels]

theorem pixel_mem (h : c.Follows p) (y x : ℕ) : -1 ≤ c.pixel y x ∧ c.pixel y x ≤ 8161 :=
  LucasKanade.pixel_mem h.coeff (SampleCall.u8_mem _) (SampleCall.u8_mem _) (SampleCall.u8_mem _)
    (SampleCall.u8_mem _)

section Steps

variable {y i : ℕ} {s : Mismatch}

theorem window_eq (h : c.Follows p) (hy : y < c.place.windowHeight) {x : ℕ}
    (hx : x < c.place.windowWidthTimesChannels) : c.window (c.place.windowRow y + x) = p.pixel y x := by
  obtain ⟨_, hwindow⟩ := h.window
  rw [SampleCall.windowRow_eq, ← h.width_eq]
  exact hwindow.done y x (h.width_eq ▸ hx) (.inl (h.windowHeight ▸ hy))

theorem scharrWindow_eq (h : c.Follows p) (hy : y < c.place.windowHeight) {x : ℕ}
    (hx : x < c.place.windowWidthTimesChannels) :
    c.scharrWindow (c.place.scharrWindowRow y + x * 2) = p.scharrScalar 0 y x ∧
      c.scharrWindow (c.place.scharrWindowRow y + x * 2 + 1) = p.scharrScalar 1 y x := by
  obtain ⟨_, hscharr⟩ := h.scharrWindow
  rw [SampleCall.scharrWindowRow_eq, ← h.width_eq]
  exact ⟨hscharr.even.done y x (h.width_eq ▸ hx) (.inl (h.windowHeight ▸ hy)),
    hscharr.odd.done y x (h.width_eq ▸ hx) (.inl (h.windowHeight ▸ hy))⟩

theorem diffLanes_eq (h : c.Follows p) (hy : y < c.place.windowHeight) {x l : ℕ}
    (hx : x + l < c.place.windowWidthTimesChannels) :
    c.diffLanes y x l = c.pixel y (x + l) - p.pixel y (x + l) := by
  have hnext : corners (fun p => c.next p) (c.place.imageRow c.nextStride y + x + l) c.place.channels
      c.nextStride (lerpLane (fractionBits - 5) c.place.coeff) = c.pixel y (x + l) := by
    rw [pixel, Nat.cast_add, ← add_assoc]
    exact lerpLane_pixel h.coeff (SampleCall.u8_mem _) (SampleCall.u8_mem _) (SampleCall.u8_mem _)
      (SampleCall.u8_mem _)
  have hmem := pixel_mem h y (x + l)
  have hmem' := SampleCall.pixel_mem h.admissible y (x + l)
  rw [diffLanes, hnext, add_assoc, window_eq h hy hx]
  exact word_eq (by omega) (by omega) (by decide)

variable {k : ℕ}

theorem scharrLanes_mul (h : c.Follows p) (hk : k < 2) (hy : y < c.place.windowHeight) {x l : ℕ}
    (hx : x + l < c.place.windowWidthTimesChannels) :
    c.scharrLanes k y x l * c.diffLanes y x l = c.product p k y (x + l) := by
  have hpair := scharrWindow_eq h hy hx
  rw [diffLanes_eq h hy hx, product]
  obtain rfl | rfl : k = 0 ∨ k = 1 := by omega
  · rw [← hpair.1]
    rfl
  · rw [← hpair.2]
    rfl

theorem vmlal_low (h : c.Follows p) (hk : k < 2) (hy : y < c.place.windowHeight) (hi : 4 ∣ i)
    (hn : i + 4 ≤ c.place.windowWidthTimesChannels) :
    (Accumulator.upTo wrap (c.product p k) c.place.windowWidthTimesChannels y i).vmlal wrap
        (c.scharrLanes k y i) (c.diffLanes y i) =
      .upTo wrap (c.product p k) c.place.windowWidthTimesChannels y (i + 4) :=
  Accumulator.upTo_vaddq (by omega) hi fun _ _ => scharrLanes_mul h hk hy (by omega)

theorem vmlal_high (h : c.Follows p) (hk : k < 2) (hy : y < c.place.windowHeight) (hi : 4 ∣ i)
    (hn : i + 8 ≤ c.place.windowWidthTimesChannels) :
    (Accumulator.upTo wrap (c.product p k) c.place.windowWidthTimesChannels y (i + 4)).vmlal wrap
        (fun l => c.scharrLanes k y i (4 + l)) (fun l => c.diffLanes y i (4 + l)) =
      .upTo wrap (c.product p k) c.place.windowWidthTimesChannels y (i + 8) := by
  refine Accumulator.upTo_vaddq (by omega) (hi.add (by decide)) fun l _ => ?_
  rw [add_assoc]
  exact scharrLanes_mul h hk hy (by omega)

theorem vaddq_tail (h : c.Follows p) (hk : k < 2) (hy : y < c.place.windowHeight) (hi : 4 ∣ i)
    (hlt : i < c.place.windowWidthTimesChannels) (hend : c.place.windowWidthTimesChannels < i + 4)
    (hn : 4 < c.place.windowWidthTimesChannels) :
    (Accumulator.upTo wrap (c.product p k) c.place.windowWidthTimesChannels y i).vaddq wrap
        (vand (fun l => c.scharrLanes k y (c.place.windowWidthTimesChannels - 4) l *
            c.diffLanes y (c.place.windowWidthTimesChannels - 4) l)
          (leftoverAccumulateMaskS32 c.place.windowWidthTimesChannels)) =
      .upTo wrap (c.product p k) c.place.windowWidthTimesChannels y
        c.place.windowWidthTimesChannels := by
  refine Accumulator.upTo_vaddq_tail hi hlt hend hn fun l hl => ?_
  rw [vand, leftoverAccumulateMaskS32_eq (by omega)]
  by_cases hmask : 4 - l ≤ c.place.windowWidthTimesChannels % 4
  · rw [if_pos hmask, decide_eq_true hmask, if_pos rfl]
    exact scharrLanes_mul h hk hy (by omega)
  · rw [if_neg hmask, decide_eq_false hmask, if_neg Bool.false_ne_true]

theorem Compared.twice (h : c.Follows p) (hy : y < c.place.windowHeight) (hi : 4 ∣ i)
    (hn : i + 8 ≤ c.place.windowWidthTimesChannels) (hs : Compared wrap c p y i s) :
    Compared wrap c p y (i + 8) (c.accumulateDiffScharr8 wrap y i s) where
  x := by
    show (s.x.vmlal wrap (c.scharrLanes 0 y i) (c.diffLanes y i)).vmlal wrap
      (fun l => c.scharrLanes 0 y i (4 + l)) (fun l => c.diffLanes y i (4 + l)) = _
    rw [hs.x, vmlal_low h (by decide) hy hi (by omega), vmlal_high h (by decide) hy hi hn]
  y := by
    show (s.y.vmlal wrap (c.scharrLanes 1 y i) (c.diffLanes y i)).vmlal wrap
      (fun l => c.scharrLanes 1 y i (4 + l)) (fun l => c.diffLanes y i (4 + l)) = _
    rw [hs.y, vmlal_low h (by decide) hy hi (by omega), vmlal_high h (by decide) hy hi hn]

theorem Compared.once (h : c.Follows p) (hy : y < c.place.windowHeight) (hi : 4 ∣ i)
    (hn : i + 4 ≤ c.place.windowWidthTimesChannels) (hs : Compared wrap c p y i s) :
    Compared wrap c p y (i + 4) (c.accumulateDiffScharr4 wrap y i s) where
  x := by
    show s.x.vmlal wrap (c.scharrLanes 0 y i) (c.diffLanes y i) = _
    rw [hs.x, vmlal_low h (by decide) hy hi hn]
  y := by
    show s.y.vmlal wrap (c.scharrLanes 1 y i) (c.diffLanes y i) = _
    rw [hs.y, vmlal_low h (by decide) hy hi hn]

theorem Compared.tail (h : c.Follows p) (hy : y < c.place.windowHeight) (hi : 4 ∣ i)
    (hlt : i < c.place.windowWidthTimesChannels) (hend : c.place.windowWidthTimesChannels < i + 4)
    (hn : 4 < c.place.windowWidthTimesChannels) (hs : Compared wrap c p y i s) :
    Compared wrap c p y c.place.windowWidthTimesChannels
      (c.accumulateDiffScharr4Tail wrap y s) where
  x := by
    show s.x.vaddq wrap _ = _
    rw [hs.x]
    exact vaddq_tail h (by decide) hy hi hlt hend hn
  y := by
    show s.y.vaddq wrap _ = _
    rw [hs.y]
    exact vaddq_tail h (by decide) hy hi hlt hend hn

theorem Compared.scalar (h : c.Follows p) (hy : y < c.place.windowHeight)
    (hi : i < c.place.windowWidthTimesChannels) (hn : c.place.windowWidthTimesChannels < 4)
    (hs : Compared wrap c p y i s) :
    Compared wrap c p y (i + 1) (c.accumulateDiffScharrScalar y i s) where
  x := by
    show s.x.addScalar ((c.pixel y i - c.window (c.place.windowRow y + i)) *
      c.scharrWindow (c.place.scharrWindowRow y + i * 2)) = _
    rw [hs.x, window_eq h hy hi, (scharrWindow_eq h hy hi).1]
    exact Accumulator.upTo_addScalar hn (mul_comm _ _)
  y := by
    show s.y.addScalar ((c.pixel y i - c.window (c.place.windowRow y + i)) *
      c.scharrWindow (c.place.scharrWindowRow y + i * 2 + 1)) = _
    rw [hs.y, window_eq h hy hi, (scharrWindow_eq h hy hi).2]
    exact Accumulator.upTo_addScalar hn (mul_comm _ _)

theorem Compared.row (hs : Compared wrap c p y c.place.windowWidthTimesChannels s) :
    Compared wrap c p (y + 1) 0 s where
  x := by rw [hs.x, Accumulator.upTo_row]
  y := by rw [hs.y, Accumulator.upTo_row]

end Steps

/-- **The whole pass**: each accumulator has got all its products. -/
theorem accumulateMismatchVector_compared (wrap : ℤ → ℤ) (h : c.Follows p) :
    Compared wrap c p c.place.windowHeight 0 (c.accumulateMismatchVector wrap) := by
  refine forRange_invariant (fun y s => Compared wrap c p y 0 s) ?_ fun y hy s hs => ?_
  · exact ⟨Accumulator.upTo_zero.symm, Accumulator.upTo_zero.symm⟩
  · exact Compared.row (windowRow_invariant (fun i s => Compared wrap c p y i s) hs
      (fun i s hi hn hs => hs.twice h hy hi hn) (fun i s hi hn hs => hs.once h hy hi hn)
      (fun i s hi hlt hend hn hs => hs.tail h hy hi hlt hend hn)
      fun i s hi hn hs => hs.scalar h hy hi hn)

end MismatchCall

end LucasKanade

end KleidiCV
