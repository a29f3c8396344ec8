/-
`resize_linear` by 2, by 4 and by 8, of `float` images on Neon.

The operations on `float` are left open: where a kernel stores does not depend
on them.  Images are memories of elements, and pointers and strides count
elements.

* `resize2x2F32`, `resize4x4F32` — kernels of the shape of `FixedScale`;
* `Resize8x8F32.stripe` — the kernel by 8, which computes every row;
* `Resize8x8F32.stripe_unchanged` — it stores inside the rows of the image.
-/
import KleidiCV.ResizeFixedScale

open Loop

namespace KleidiCV

/-- `float` with the operations the kernels use. -/
structure FloatOps (α : Type) where
  add : α → α → α
  sub : α → α → α
  mul : α → α → α
  /-- One lane of `vmlaq`. -/
  vmla : α → α → α → α
  /-- A constant. -/
  lit : ℚ → α

variable {α : Type} (ops : FloatOps α)

namespace Resize2x2F32

def lerp1dScalar (near far : α) : α :=
  ops.add (ops.mul near (ops.lit 0.75)) (ops.mul far (ops.lit 0.25))

def lerp1dVector (near far : Fin 4 → α) : Fin 4 → α := fun lane =>
  ops.vmla (ops.mul (near lane) (ops.lit 0.75)) (far lane) (ops.lit 0.25)

def lerp2dScalar (near midA midB far : α) : α :=
  ops.add (ops.add (ops.add (ops.mul near (ops.lit 0.5625)) (ops.mul midA (ops.lit 0.1875)))
    (ops.mul midB (ops.lit 0.1875))) (ops.mul far (ops.lit 0.0625))

def lerp2dVector (a b c d : Fin 4 → α) : Fin 4 → α := fun lane =>
  ops.vmla (ops.vmla (ops.vmla (ops.mul (a lane) (ops.lit 0.5625)) (b lane) (ops.lit 0.1875))
    (c lane) (ops.lit 0.1875)) (d lane) (ops.lit 0.0625)

end Resize2x2F32

open Resize2x2F32 in
/-- `resize_2x2_f32`. -/
def resize2x2F32 : FixedScale α where
  half := 1
  lanes := 4
  edgeScalar := fun i left right =>
    match i with
    | 0 => lerp1dScalar ops left right
    | _ => lerp1dScalar ops right left
  edgeVector := fun i left right =>
    match i with
    | 0 => lerp1dVector ops left right
    | _ => lerp1dVector ops right left
  rowScalar := fun j i a b c d =>
    match j, i with
    | 0, 0 => lerp2dScalar ops a b c d
    | 0, _ => lerp2dScalar ops b a d c
    | _, 0 => lerp2dScalar ops c a d b
    | _, _ => lerp2dScalar ops d b c a
  rowVector := fun j i a b c d =>
    match j, i with
    | 0, 0 => lerp2dVector ops a b c d
    | 0, _ => lerp2dVector ops b a d c
    | _, 0 => lerp2dVector ops c a d b
    | _, _ => lerp2dVector ops d b c a
  half_eq := FixedScale.half_eq_one
  lanes_pos := four_lanes_pos

namespace Resize4x4F32

def lerp1dScalar (coeffA : ℚ) (a : α) (coeffB : ℚ) (b : α) : α :=
  ops.add (ops.mul (ops.lit coeffA) a) (ops.mul (ops.lit coeffB) b)

def lerp1dVector (coeffA : ℚ) (a : Fin 4 → α) (coeffB : ℚ) (b : Fin 4 → α) : Fin 4 → α :=
  fun lane => ops.vmla (ops.mul (a lane) (ops.lit coeffA)) (b lane) (ops.lit coeffB)

def lerp2dScalar (coeffA : ℚ) (a : α) (coeffB : ℚ) (b : α) (coeffC : ℚ) (c : α) (coeffD : ℚ)
    (d : α) : α :=
  ops.add (ops.add (ops.add (ops.mul (ops.lit coeffA) a) (ops.mul (ops.lit coeffB) b))
    (ops.mul (ops.lit coeffC) c)) (ops.mul (ops.lit coeffD) d)

def lerp2dVector (coeffA : ℚ) (a : Fin 4 → α) (coeffB : ℚ) (b : Fin 4 → α) (coeffC : ℚ)
    (c : Fin 4 → α) (coeffD : ℚ) (d : Fin 4 → α) : Fin 4 → α := fun lane =>
  ops.vmla (ops.vmla (ops.vmla (ops.mul (a lane) (ops.lit coeffA)) (b lane) (ops.lit coeffB))
    (c lane) (ops.lit coeffC)) (d lane) (ops.lit coeffD)

/-- The first and the last of the four rows. -/
def outerRow (j i : ℕ) (a b c d : Fin 4 → α) : Fin 4 → α :=
  match j, i with
  | 0, 0 => lerp2dVector ops 0.765625 a 0.109375 b 0.109375 c 0.015625 d
  | 0, 1 => lerp2dVector ops 0.546875 a 0.328125 b 0.078125 c 0.046875 d
  | 0, 2 => lerp2dVector ops 0.328125 a 0.546875 b 0.046875 c 0.078125 d
  | 0, _ => lerp2dVector ops 0.109375 a 0.765625 b 0.015625 c 0.109375 d
  | _, 0 => lerp2dVector ops 0.109375 a 0.015625 b 0.765625 c 0.109375 d
  | _, 1 => lerp2dVector ops 0.078125 a 0.046875 b 0.546875 c 0.328125 d
  | _, 2 => lerp2dVector ops 0.046875 a 0.078125 b 0.328125 c 0.546875 d
  | _, _ => lerp2dVector ops 0.015625 a 0.109375 b 0.109375 c 0.765625 d

end Resize4x4F32

open Resize4x4F32 in
/-- `resize_4x4_f32`. -/
def resize4x4F32 : FixedScale α where
  half := 2
  lanes := 4
  edgeScalar := fun i a b =>
    match i with
    | 0 => lerp1dScalar ops 0.875 a 0.125 b
    | 1 => lerp1dScalar ops 0.625 a 0.375 b
    | 2 => lerp1dScalar ops 0.375 a 0.625 b
    | _ => lerp1dScalar ops 0.125 a 0.875 b
  edgeVector := fun i a b =>
    match i with
    | 0 => lerp1dVector ops 0.875 a 0.125 b
    | 1 => lerp1dVector ops 0.625 a 0.375 b
    | 2 => lerp1dVector ops 0.375 a 0.625 b
    | _ => lerp1dVector ops 0.125 a 0.875 b
  rowScalar := fun j i a b c d =>
    match j, i with
    | 0, 0 => lerp2dScalar ops 0.765625 a 0.109375 b 0.109375 c 0.015625 d
    | 0, 1 => lerp2dScalar ops 0.546875 a 0.328125 b 0.078125 c 0.046875 d
    | 0, 2 => lerp2dScalar ops 0.328125 a 0.546875 b 0.046875 c 0.078125 d
    | 0, _ => lerp2dScalar ops 0.109375 a 0.765625 b 0.015625 c 0.109375 d
    | 1, 0 => lerp2dScalar ops 0.546875 a 0.078125 b 0.328125 c 0.046875 d
    | 1, 1 => lerp2dScalar ops 0.390625 a 0.234375 b 0.234375 c 0.140625 d
    | 1, 2 => lerp2dScalar ops 0.234375 a 0.390625 b 0.140625 c 0.234375 d
    | 1, _ => lerp2dScalar ops 0.078125 a 0.546875 b 0.046875 c 0.328125 d
    | 2, 0 => lerp2dScalar ops 0.328125 a 0.046875 b 0.546875 c 0.078125 d
    | 2, 1 => lerp2dScalar ops 0.234375 a 0.140625 b 0.390625 c 0.234375 d
    | 2, 2 => lerp2dScalar ops 0.140625 a 0.234375 b 0.234375 c 0.390625 d
    | 2, _ => lerp2dScalar ops 0.046875 a 0.328125 b 0.078125 c 0.546875 d
    | _, 0 => lerp2dScalar ops 0.109375 a 0.015625 b 0.765625 c 0.109375 d
    | _, 1 => lerp2dScalar ops 0.078125 a 0.046875 b 0.546875 c 0.328125 d
    | _, 2 => lerp2dScalar ops 0.046875 a 0.078125 b 0.328125 c 0.546875 d
    | _, _ => lerp2dScalar ops 0.015625 a 0.109375 b 0.109375 c 0.765625 d
  -- The vector code computes two rows and interpolates between them.
  rowVector := fun j i a b c d =>
    let dstA := outerRow ops 0 i a b c d
    let dstD := outerRow ops 3 i a b c d
    match j with
    | 0 => dstA
    | 1 => lerp1dVector ops 0.6666666666666667 dstA 0.3333333333333333 dstD
    | 2 => lerp1dVector ops 0.3333333333333333 dstA 0.6666666666666667 dstD
    | _ => dstD
  half_eq := FixedScale.half_eq_two
  lanes_pos := four_lanes_pos

/-! ### By eight -/

namespace Resize8x8F32

/-- `coeffs_a`. -/
def coeffsA (i : ℕ) : α := ops.lit ((15 - 2 * i) / 16)

/-- `coeffs_b`. -/
def coeffsB (i : ℕ) : α := ops.lit ((2 * i + 1) / 16)

/-- Lanes `4 * k` to `4 * k + 3` of `lerp1d_vector` with the coefficients. -/
def edgeVector (k : ℕ) (a b : α) : Fin 4 → α := fun lane =>
  ops.vmla (ops.mul a (coeffsA ops (4 * k + lane))) b (coeffsB ops (4 * k + lane))

/-- `lerp1d_vector_n`, with the weights of row `i`. -/
def columnVector (i : ℕ) (s0 s1 : α) : Fin 4 → α := fun _ =>
  ops.vmla (ops.mul s0 (ops.lit ((15 - 2 * i) / 16))) s1 (ops.lit ((2 * i + 1) / 16))

/-- `dst_0`. -/
def outerRow (a b c d : α) : Fin 8 → α := fun lane =>
  let p := ops.mul (coeffsA ops lane) (ops.lit (15 / 16))
  let q := ops.mul (coeffsB ops lane) (ops.lit (15 / 16))
  let r := ops.mul (coeffsA ops lane) (ops.lit (1 / 16))
  let s := ops.mul (coeffsB ops lane) (ops.lit (1 / 16))
  ops.vmla (ops.vmla (ops.vmla (ops.mul p a) q b) r c) s d

/-- `dst_7`. -/
def lastRow (a b c d : α) : Fin 8 → α := fun lane =>
  let p := ops.mul (coeffsA ops lane) (ops.lit (15 / 16))
  let q := ops.mul (coeffsB ops lane) (ops.lit (15 / 16))
  let r := ops.mul (coeffsA ops lane) (ops.lit (1 / 16))
  let s := ops.mul (coeffsB ops lane) (ops.lit (1 / 16))
  ops.vmla (ops.vmla (ops.vmla (ops.mul r a) s b) p c) q d

/-- `process_edge_row`. -/
def processEdgeRow (src : ℕ → α) (srcWidth srcRow dstRow dstStride : ℕ) (m : ℕ → α) : ℕ → α :=
  let dstWidth := srcWidth * 8
  m |>
    forRange 4 (fun j => forRange 4 fun i m =>
      Function.update m (dstRow + j * dstStride + i) (src srcRow)) |>
    forRange 4 (fun j => forRange 4 fun i m =>
      Function.update m (dstRow + (dstWidth - 4) + j * dstStride + i)
        (src (srcRow + (srcWidth - 1)))) |>
    forRange (srcWidth - 1) (fun srcX => forRange 2 fun k => forRange 4 fun j m =>
      vst1q m (dstRow + srcX * 8 + 4 + j * dstStride + k * 4)
        (edgeVector ops k (src (srcRow + srcX)) (src (srcRow + (srcX + 1)))))

/-- `process_row`. -/
def processRow (src : ℕ → α) (srcWidth srcRow0 srcRow1 dstRow0 dstStride : ℕ) (m : ℕ → α) :
    ℕ → α :=
  m |>
    forRange 8 (fun i m =>
      vst1q m (dstRow0 + i * dstStride) (columnVector ops i (src srcRow0) (src srcRow1))) |>
    forRange (srcWidth - 1) (fun srcX m =>
      let a := src (srcRow0 + srcX)
      let b := src (srcRow0 + (srcX + 1))
      let c := src (srcRow1 + srcX)
      let d := src (srcRow1 + (srcX + 1))
      let dst0 := outerRow ops a b c d
      let dst7 := lastRow ops a b c d
      let dstRow := fun j => dstRow0 + 4 + srcX * 8 + j * dstStride
      vst1q (vst1q m (dstRow 0) dst0) (dstRow 7) dst7 |>
        forFrom 1 6 fun j m => vst1q m (dstRow j) fun lane : Fin 8 =>
          ops.vmla (dst0 lane) (ops.sub (dst7 lane) (dst0 lane)) (ops.lit (j / 7))) |>
    forRange 8 (fun i m =>
      vst1q m (dstRow0 + 4 + (srcWidth - 1) * 8 + i * dstStride)
        (columnVector ops i (src (srcRow0 + (srcWidth - 1))) (src (srcRow1 + (srcWidth - 1)))))

/-- `resize_8x8_f32`; `dst` and `dstStride` count elements. -/
def stripe (src : ℕ → α) (srcPtr srcStride srcWidth srcHeight yBegin yEnd dst dstStride : ℕ)
    (m : ℕ → α) : KleidicvError × (ℕ → α) :=
  let dstHeight := srcHeight * 8
  (.ok, m |>
    -- Top rows.
    (fun m => if yBegin = 0 then processEdgeRow ops src srcWidth srcPtr dst dstStride m else m) |>
    -- Middle rows.
    forFrom yBegin (yEnd - 1 - yBegin) (fun srcY =>
      let dstY := srcY * 8 + 4
      let srcRow0 := srcPtr + srcStride * srcY
      processRow ops src srcWidth srcRow0 (srcRow0 + srcStride) (dst + dstStride * dstY)
        dstStride) |>
    -- Bottom rows.
    (fun m => if yEnd = srcHeight then
      processEdgeRow ops src srcWidth (srcPtr + srcStride * (srcHeight - 1))
        (dst + dstStride * (dstHeight - 4)) dstStride m
      else m))

/-! ### Where the kernel by eight stores -/

section

variable {ops} {rows : Rows} {src : ℕ → α} {srcWidth : ℕ}

variable (ops) in
theorem processEdgeRow_unchanged {srcRow r dstRow height : ℕ} (hw : 0 < srcWidth)
    (hrow : dstRow = rows.address (r, 0)) (hr : r + 4 ≤ height) (m : ℕ → α) :
    UnchangedOutside (rows.image (srcWidth * 8) height) m
      (processEdgeRow ops src srcWidth srcRow dstRow rows.stride m) := by
  have haddr : ∀ j c, dstRow + j * rows.stride + c = rows.address (r + j, c) := fun j c => by
    rw [hrow]
    simp only [Rows.address]
    ring
  refine UnchangedOutside.trans (UnchangedOutside.trans
    (UnchangedOutside.forRange (fun j hj m => ?_) m) (UnchangedOutside.forRange (fun j hj m => ?_) _))
    (UnchangedOutside.forRange (fun srcX hx m => UnchangedOutside.forRange (fun k hk m =>
      UnchangedOutside.forRange (fun j hj m => ?_) m) m) _)
  · rw [forRange_update (g := fun _ => src srcRow), ← Nat.add_zero (dstRow + _), haddr]
    exact rows.overwrite_unchanged (by omega) (by omega) _ m
  · rw [forRange_update (g := fun _ => src (srcRow + (srcWidth - 1))),
      Nat.add_right_comm, haddr]
    exact rows.overwrite_unchanged (by omega) (by omega) _ m
  · refine rows.vst1q_unchanged (r := r + j) (c := srcX * 8 + 4 + k * 4) ?_ (by omega) (by omega) _ m
    rw [← haddr]
    omega

variable (ops) in
theorem processRow_unchanged {srcRow0 srcRow1 r dstRow0 height : ℕ} (hw : 0 < srcWidth)
    (hrow : dstRow0 = rows.address (r, 0)) (hr : r + 8 ≤ height) (m : ℕ → α) :
    UnchangedOutside (rows.image (srcWidth * 8) height) m
      (processRow ops src srcWidth srcRow0 srcRow1 dstRow0 rows.stride m) := by
  have haddr : ∀ j c, dstRow0 + c + j * rows.stride = rows.address (r + j, c) := fun j c => by
    rw [hrow]
    simp only [Rows.address]
    ring
  have hcolumn : ∀ j x, dstRow0 + 4 + x * 8 + j * rows.stride = rows.address (r + j, 4 + x * 8) :=
    fun j x => by rw [Nat.add_assoc dstRow0, haddr]
  refine UnchangedOutside.trans (UnchangedOutside.trans
    (UnchangedOutside.forRange (fun j hj m => ?_) m)
    (UnchangedOutside.forRange (fun srcX hx m => ?_) _))
    (UnchangedOutside.forRange (fun j hj m => ?_) _)
  · exact rows.vst1q_unchanged (haddr j 0) (by omega) (by omega) _ m
  · have hstore : ∀ j < 8, ∀ (v : Fin 8 → α) m, UnchangedOutside (rows.image (srcWidth * 8) height) m
        (vst1q m (dstRow0 + 4 + srcX * 8 + j * rows.stride) v) := fun j hj v m =>
      rows.vst1q_unchanged (hcolumn j srcX) (by omega) (by omega) v m
    exact ((hstore 0 (by decide) _ m).trans (hstore 7 (by decide) _ _)).trans
      (UnchangedOutside.forFrom (fun j _ hj m => hstore j (by omega) _ m) _)
  · exact rows.vst1q_unchanged (hcolumn j (srcWidth - 1)) (by omega) (by omega) _ m

/-- **The kernel by eight stores inside the image.** -/
theorem stripe_unchanged {srcPtr srcStride srcHeight yBegin yEnd : ℕ} (hw : 0 < srcWidth)
    (hh : 0 < srcHeight) (hend : yEnd ≤ srcHeight) (m : ℕ → α) :
    UnchangedOutside (rows.image (srcWidth * 8) (srcHeight * 8)) m
      (stripe ops src srcPtr srcStride srcWidth srcHeight yBegin yEnd rows.ptr rows.stride m).2 := by
  refine UnchangedOutside.trans (UnchangedOutside.trans (UnchangedOutside.ite fun _ => ?_)
    (UnchangedOutside.forFrom (fun srcY h1 h2 m => ?_) _)) (UnchangedOutside.ite fun _ => ?_)
  · exact processEdgeRow_unchanged ops hw (r := 0) (by simp [Rows.address]) (by omega) m
  · refine processRow_unchanged ops hw (r := srcY * 8 + 4) ?_ (by omega) m
    rw [Rows.address, Nat.mul_comm]
    rfl
  · refine processEdgeRow_unchanged ops hw (r := srcHeight * 8 - 4) ?_ (by omega) _
    rw [Rows.address, Nat.mul_comm]
    rfl

end

end Resize8x8F32

end KleidiCV
