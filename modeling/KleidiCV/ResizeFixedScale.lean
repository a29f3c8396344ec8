/-
The Neon kernels that enlarge an image by 2 or 4 in each direction.

`kleidicv_resize_2x2_stripe_u8`, `kleidicv_resize_4x4_stripe_u8`,
`resize_2x2_f32` and `resize_4x4_f32` have one shape: the rows between two
source rows are computed from both of them, the rows at the top and at the
bottom from one.  A kernel is given by its interpolation functions, one for
vectors and one for single elements; images are memories of elements, source
and destination different ones.

* `lines_wrote` — some rows, from left elements, right elements and the columns
  between;
* `stripe_wrote` — what a stripe writes: its pixels, and at ratio 4 the padding
  of two rows;
* `batches_wrote` — batches of gaps between source rows, in any order;
* `stripe_unchanged_iff` — when a call changes nothing but pixels.
-/
import KleidiCV.Multithreading
import KleidiCV.SeparableWorkspace

open Loop

namespace KleidiCV

/-- A kernel that enlarges by `2 * half`. -/
structure FixedScale (α : Type) where
  half : ℕ
  lanes : ℕ
  /-- Element `i` after a source element, between that and the next. -/
  edgeScalar : ℕ → α → α → α
  edgeVector : ℕ → (Fin lanes → α) → (Fin lanes → α) → Fin lanes → α
  /-- Element `i` of row `j` after a source element, between four of them. -/
  rowScalar : ℕ → ℕ → α → α → α → α → α
  rowVector : ℕ → ℕ → (Fin lanes → α) → (Fin lanes → α) → (Fin lanes → α) → (Fin lanes → α) →
    Fin lanes → α
  half_eq : half = 1 ∨ half = 2
  lanes_pos : 0 < lanes

theorem FixedScale.half_eq_one : 1 = 1 ∨ 1 = 2 := .inl rfl

theorem FixedScale.half_eq_two : 2 = 1 ∨ 2 = 2 := .inr rfl

/-- `vst2` and `vst4`: `n` vectors, interleaved. -/
def vstInterleaved {α : Type} {lanes : ℕ} (n : ℕ) (v : ℕ → Fin lanes → α) (ptr : ℕ) (m : ℕ → α) :
    ℕ → α := fun a =>
  if h : ptr ≤ a ∧ a < ptr + n * lanes then
    v ((a - ptr) % n) ⟨(a - ptr) / n, Nat.div_lt_of_lt_mul (by omega)⟩
  else m a

/-- The two loops over `src_x`: vectors while `src_x + lanes < src_width`, single
columns while `src_x + 1 < src_width`. -/
def forColumns {σ : Type} (lanes srcWidth : ℕ) (vector scalar : ℕ → σ → σ) (s : σ) : σ :=
  let vectors := (srcWidth - 1) / lanes
  forFrom (vectors * lanes) (srcWidth - 1 - vectors * lanes) scalar
    (forRange vectors (fun k => vector (k * lanes)) s)

namespace FixedScale

variable {α : Type} (scale : FixedScale α)

/-- The factor by which the image grows. -/
def ratio : ℕ := 2 * scale.half

/-- The body of `process_edge_row` and `process_row`: `n` destination rows, each
with its left elements, its right elements and the elements between. -/
def processLines (srcWidth n : ℕ) (dstRow : ℕ → ℕ) (left right : ℕ → α)
    (vector : ℕ → ℕ → ℕ → Fin scale.lanes → α) (scalar : ℕ → ℕ → ℕ → α) (m : ℕ → α) : ℕ → α :=
  let dstWidth := srcWidth * scale.ratio
  m |>
    forRange n (fun j => forRange scale.half fun i m =>
      Function.update m (dstRow j + i) (left j)) |>
    forRange n (fun j => forRange scale.half fun i m =>
      Function.update m (dstRow j + (dstWidth - scale.half) + i) (right j)) |>
    forColumns scale.lanes srcWidth
      (fun srcX => forRange n fun j =>
        vstInterleaved scale.ratio (fun i => vector j i srcX)
          (dstRow j + (srcX * scale.ratio + scale.half)))
      (fun srcX => forRange n fun j => forRange scale.ratio fun i m =>
        Function.update m (dstRow j + (srcX * scale.ratio + scale.half) + i) (scalar j i srcX))

/-- `process_edge_row`. -/
def processEdgeRow (src : ℕ → α) (srcWidth srcRow dstRow : ℕ) : (ℕ → α) → ℕ → α :=
  scale.processLines srcWidth 1 (fun _ => dstRow) (fun _ => src srcRow)
    (fun _ => src (srcRow + (srcWidth - 1)))
    (fun _ i srcX => scale.edgeVector i (vld1q src (srcRow + srcX)) (vld1q src (srcRow + srcX + 1)))
    (fun _ i srcX => scale.edgeScalar i (src (srcRow + srcX)) (src (srcRow + srcX + 1)))

/-- `process_row`. -/
def processRow (src : ℕ → α) (srcWidth srcRow0 srcRow1 dstRow0 dstStride : ℕ) :
    (ℕ → α) → ℕ → α :=
  scale.processLines srcWidth scale.ratio (fun j => dstRow0 + j * dstStride)
    (fun j => scale.edgeScalar j (src srcRow0) (src srcRow1))
    (fun j => scale.edgeScalar j (src (srcRow0 + (srcWidth - 1))) (src (srcRow1 + (srcWidth - 1))))
    (fun j i srcX => scale.rowVector j i (vld1q src (srcRow0 + srcX))
      (vld1q src (srcRow0 + srcX + 1)) (vld1q src (srcRow1 + srcX)) (vld1q src (srcRow1 + srcX + 1)))
    (fun j i srcX => scale.rowScalar j i (src (srcRow0 + srcX)) (src (srcRow0 + srcX + 1))
      (src (srcRow1 + srcX)) (src (srcRow1 + srcX + 1)))

/-- The rows at an edge; at ratio 4 there are two, the second one a copy of the
first over the whole stride. -/
def processEdge (src : ℕ → α) (srcWidth srcRow dstRow dstStride : ℕ) (m : ℕ → α) : ℕ → α :=
  let m := scale.processEdgeRow src srcWidth srcRow dstRow m
  if scale.half = 2 then copyN dstRow dstStride (dstRow + dstStride) m else m

/-- The stripe function; `dst` and `dstStride` count elements. -/
def stripe (src : ℕ → α) (srcPtr srcStride srcWidth srcHeight yBegin yEnd dst dstStride : ℕ)
    (m : ℕ → α) : KleidicvError × (ℕ → α) :=
  let dstHeight := srcHeight * scale.ratio
  (.ok, m |>
    -- Top rows.
    (fun m => if yBegin = 0 then scale.processEdge src srcWidth srcPtr dst dstStride m else m) |>
    -- Middle rows.
    forFrom yBegin (yEnd - 1 - yBegin) (fun srcY =>
      let dstY := srcY * scale.ratio + scale.half
      let srcRow0 := srcPtr + srcStride * srcY
      scale.processRow src srcWidth srcRow0 (srcRow0 + srcStride) (dst + dstStride * dstY)
        dstStride) |>
    -- Bottom rows.
    (fun m => if yEnd = srcHeight then
      scale.processEdge src srcWidth (srcPtr + srcStride * (srcHeight - 1))
        (dst + dstStride * (dstHeight - scale.half)) dstStride m
      else m))

end FixedScale

/-! ### Blocks of pixels -/

section

variable {α : Type} {rows : Rows} {v : ℕ × ℕ → α} {m : ℕ → α} {r n c k : ℕ}

/-- `n` rows from row `r` on, and `k` columns from column `c` on. -/
def block (r n c k : ℕ) : Set (ℕ × ℕ) := {p | r ≤ p.1 ∧ p.1 < r + n ∧ c ≤ p.2 ∧ p.2 < c + k}

theorem block_subset {length : ℕ} (h : c + k ≤ length) : block r n c k ⊆ {p | p.2 < length} :=
  fun _ hp => hp.2.2.2.trans_le h

/-- A part of one row. -/
theorem segment_wrote {g : ℕ → α} (hg : ∀ i < k, g i = v (r, c + i)) (m : ℕ → α) :
    Wrote rows.address v (block r 1 c k) m (overwrite m (rows.address (r, c)) k g) := by
  refine overwrite_wrote ?_ fun i hi => ⟨(r, c + i), ?_, (Nat.add_assoc ..).symm⟩
  · rintro ⟨y, x⟩ ⟨h1, h2, h3, h4⟩
    obtain rfl : y = r := by
      simp only at h1 h2
      omega
    obtain ⟨i, rfl⟩ := Nat.exists_eq_add_of_le h3
    have hi : i < k := by
      simp only at h4
      omega
    exact ⟨i, hi, (Nat.add_assoc ..).symm, hg i hi⟩
  · exact ⟨le_rfl, Nat.lt_succ_self _, Nat.le_add_right _ _, by simpa using hi⟩

/-- A row of the block after another. -/
theorem block_wrote {f : ℕ → (ℕ → α) → ℕ → α} (hstride : c + k ≤ rows.stride)
    (hf : ∀ j < n, ∀ m, ∃ g, f j m = overwrite m (rows.address (r + j, c)) k g ∧
      ∀ i < k, g i = v (r + j, c + i)) (m : ℕ → α) :
    Wrote rows.address v (block r n c k) m (forRange n f m) := by
  refine forRange_invariant (fun j m' => Wrote rows.address v (block r j c k) m m') ?_ ?_
  · exact Wrote.refl_of_empty m fun p hp => Nat.not_lt.mpr hp.1 hp.2.1
  · intro j hj m' h
    obtain ⟨g, heq, hg⟩ := hf j hj m'
    have hpiece : Wrote rows.address v (block (r + j) 1 c k) m' (f j m') := by
      rw [heq]
      exact segment_wrote hg m'
    refine (h.trans (Rows.address_injOn le_rfl) (block_subset hstride) (block_subset hstride)
      hpiece).congr ?_
    ext p
    simp only [block, Set.mem_union, Set.mem_ofPred_eq]
    omega

theorem vstInterleaved_eq {lanes : ℕ} (v : ℕ → Fin lanes → α) (ptr : ℕ) (m : ℕ → α) (hn : 0 < n) :
    ∃ g, vstInterleaved n v ptr m = overwrite m ptr (n * lanes) g ∧
      ∀ lane : Fin lanes, ∀ i < n, g (n * lane + i) = v i lane := by
  have hlt : ∀ j < n * lanes, j / n < lanes := fun j hj => Nat.div_lt_of_lt_mul hj
  refine ⟨fun j => if h : j < n * lanes then v (j % n) ⟨j / n, hlt j h⟩ else m (ptr + j), ?_, ?_⟩
  · funext a
    by_cases ha : ptr ≤ a ∧ a < ptr + n * lanes
    · obtain ⟨j, rfl⟩ := Nat.exists_eq_add_of_le ha.1
      have hj : j < n * lanes := by omega
      rw [vstInterleaved, dif_pos ha, overwrite_add hj, dif_pos hj]
      simp only [Nat.add_sub_cancel_left]
    · rw [vstInterleaved, dif_neg ha, overwrite_of_not_mem ha]
  · intro lane i hi
    have hj : n * lane.val + i < n * lanes := by
      have := Nat.mul_le_mul_left n (Nat.succ_le_of_lt lane.isLt)
      rw [Nat.mul_succ] at this
      omega
    simp only [dif_pos hj, Nat.mul_add_mod, Nat.mod_eq_of_lt hi, Nat.mul_add_div hn,
      Nat.div_eq_of_lt hi, Nat.add_zero]

/-- The loops over the columns pass all of them but the last. -/
theorem forColumns_invariant {σ : Type} (inv : ℕ → σ → Prop) {lanes srcWidth : ℕ} (hw : 0 < srcWidth)
    {vector scalar : ℕ → σ → σ} {s : σ} (h0 : inv 0 s)
    (hvector : ∀ k, (k + 1) * lanes < srcWidth → ∀ s, inv (k * lanes) s →
      inv ((k + 1) * lanes) (vector (k * lanes) s))
    (hscalar : ∀ x, (srcWidth - 1) / lanes * lanes ≤ x → x + 1 < srcWidth → ∀ s, inv x s →
      inv (x + 1) (scalar x s)) :
    inv (srcWidth - 1) (forColumns lanes srcWidth vector scalar s) := by
  have hle := Nat.div_mul_le_self (srcWidth - 1) lanes
  have hvectors : inv ((srcWidth - 1) / lanes * lanes)
      (forRange ((srcWidth - 1) / lanes) (fun k => vector (k * lanes)) s) := by
    refine forRange_invariant (fun k => inv (k * lanes)) (by simpa using h0) fun k hk s h => ?_
    have hstep := Nat.mul_le_mul_right lanes (show k + 1 ≤ _ from hk)
    exact hvector k (by omega) s h
  have hend := forFrom_invariant inv (n := srcWidth - 1 - (srcWidth - 1) / lanes * lanes) hvectors
    fun x h1 h2 s h => hscalar x h1 (by omega) s h
  rwa [Nat.add_sub_cancel' hle] at hend

namespace FixedScale

variable (scale : FixedScale α)

theorem half_pos : 0 < scale.half := by
  have := scale.half_eq
  omega

theorem ratio_pos : 0 < scale.ratio := Nat.mul_pos (by decide) scale.half_pos

/-- The columns end half a source element before the right edge. -/
theorem columns_end {w : ℕ} (hw : 0 < w) :
    (w - 1) * scale.ratio + scale.half = w * scale.ratio - scale.half := by
  have hsplit : w * scale.ratio = (w - 1) * scale.ratio + scale.ratio := by
    rw [← Nat.succ_mul, Nat.succ_eq_add_one, Nat.sub_add_cancel hw]
  have hratio : scale.ratio = 2 * scale.half := rfl
  omega

variable {scale}

/-- What the rows from `r` on have to hold, for `processLines` to write it. -/
structure LinesHold (scale : FixedScale α) (v : ℕ × ℕ → α) (r srcWidth n : ℕ) (left right : ℕ → α)
    (vector : ℕ → ℕ → ℕ → Fin scale.lanes → α) (scalar : ℕ → ℕ → ℕ → α) : Prop where
  left : ∀ j < n, ∀ i < scale.half, v (r + j, i) = left j
  right : ∀ j < n, ∀ i < scale.half, v (r + j, srcWidth * scale.ratio - scale.half + i) = right j
  vector : ∀ j < n, ∀ i < scale.ratio, ∀ k, (k + 1) * scale.lanes < srcWidth →
    ∀ lane : Fin scale.lanes, v (r + j, (k * scale.lanes + lane) * scale.ratio + scale.half + i) =
      vector j i (k * scale.lanes) lane
  scalar : ∀ j < n, ∀ i < scale.ratio, ∀ x, (srcWidth - 1) / scale.lanes * scale.lanes ≤ x →
    x + 1 < srcWidth → v (r + j, x * scale.ratio + scale.half + i) = scalar j i x

/-- **Left elements, right elements and the columns between make up the rows.** -/
theorem lines_wrote {left right : ℕ → α} {vector : ℕ → ℕ → ℕ → Fin scale.lanes → α}
    {scalar : ℕ → ℕ → ℕ → α} {srcWidth : ℕ} {dstRow : ℕ → ℕ} (hw : 0 < srcWidth)
    (hstride : srcWidth * scale.ratio ≤ rows.stride)
    (hrow : ∀ j < n, dstRow j = rows.address (r + j, 0))
    (hv : LinesHold scale v r srcWidth n left right vector scalar) (m : ℕ → α) :
    Wrote rows.address v (block r n 0 (srcWidth * scale.ratio)) m
      (scale.processLines srcWidth n dstRow left right vector scalar m) := by
  have hinj : Set.InjOn rows.address {p | p.2 < rows.stride} := Rows.address_injOn le_rfl
  have hhalf : 2 * scale.half ≤ srcWidth * scale.ratio :=
    Nat.le_mul_of_pos_left scale.ratio hw
  have hend := scale.columns_end hw
  have haddr : ∀ j < n, ∀ c, dstRow j + c = rows.address (r + j, c) := fun j hj c => by
    rw [hrow j hj]
    simp only [Rows.address]
    omega
  have hleft : ∀ m, Wrote rows.address v (block r n 0 scale.half) m (forRange n (fun j =>
      forRange scale.half fun i m => Function.update m (dstRow j + i) (left j)) m) := fun m =>
    block_wrote (by omega) (fun j hj m => ⟨fun _ => left j, by
      rw [forRange_update (g := fun _ => left j), ← haddr j hj, Nat.add_zero], fun i hi => by
      rw [Nat.zero_add, hv.left j hj i hi]⟩) m
  have hright : ∀ m, Wrote rows.address v
      (block r n (srcWidth * scale.ratio - scale.half) scale.half) m (forRange n (fun j =>
        forRange scale.half fun i m =>
          Function.update m (dstRow j + (srcWidth * scale.ratio - scale.half) + i) (right j)) m) :=
    fun m => block_wrote (by omega) (fun j hj m => ⟨fun _ => right j, by
      rw [forRange_update (g := fun _ => right j), haddr j hj], fun i hi => by
      rw [hv.right j hj i hi]⟩) m
  -- The columns from `half` up to those of source column `x`.
  have hcolumns : ∀ m, Wrote rows.address v
      (block r n scale.half ((srcWidth - 1) * scale.ratio)) m (forColumns scale.lanes srcWidth
        (fun srcX => forRange n fun j => vstInterleaved scale.ratio (fun i => vector j i srcX)
          (dstRow j + (srcX * scale.ratio + scale.half)))
        (fun srcX => forRange n fun j => forRange scale.ratio fun i m =>
          Function.update m (dstRow j + (srcX * scale.ratio + scale.half) + i) (scalar j i srcX))
        m) := by
    intro m
    have hfit : ∀ x, x + 1 ≤ srcWidth → x * scale.ratio + scale.half ≤ rows.stride := by
      intro x hx
      have := Nat.mul_le_mul_right scale.ratio (show x ≤ srcWidth - 1 by omega)
      omega
    -- A block of columns that follows the ones done so far.
    have hstep : ∀ {x x' m' m''}, x ≤ x' → x' + 1 ≤ srcWidth →
        Wrote rows.address v (block r n scale.half (x * scale.ratio)) m m' →
        Wrote rows.address v
          (block r n (x * scale.ratio + scale.half) ((x' - x) * scale.ratio)) m' m'' →
        Wrote rows.address v (block r n scale.half (x' * scale.ratio)) m m'' := by
      intro x x' m' m'' hx hx' h h'
      have hcut : x * scale.ratio + (x' - x) * scale.ratio = x' * scale.ratio := by
        rw [← Nat.add_mul, Nat.add_sub_cancel' hx]
      have hfit' := hfit x' hx'
      refine (h.trans hinj (block_subset (by omega)) (block_subset (by omega)) h').congr ?_
      ext p
      simp only [block, Set.mem_union, Set.mem_ofPred_eq]
      omega
    refine forColumns_invariant
      (fun x m' => Wrote rows.address v (block r n scale.half (x * scale.ratio)) m m') hw ?_ ?_ ?_
    · refine Wrote.refl_of_empty m fun p hp => ?_
      have h3 := hp.2.2.1
      have h4 := hp.2.2.2
      omega
    · intro k hk m' h
      have hle : k * scale.lanes ≤ (k + 1) * scale.lanes := Nat.mul_le_mul_right _ (Nat.le_succ k)
      have hlanes : (k + 1) * scale.lanes - k * scale.lanes = scale.lanes := by
        rw [Nat.succ_mul, Nat.add_sub_cancel_left]
      have hfit' := hfit _ hk
      have hsize : (k + 1) * scale.lanes * scale.ratio =
          k * scale.lanes * scale.ratio + scale.lanes * scale.ratio := by
        rw [← Nat.add_mul, ← Nat.succ_mul]
      refine hstep hle hk h (block_wrote (by rw [hlanes]; omega) (fun j hj m => ?_) m')
      obtain ⟨g, heq, hg⟩ := vstInterleaved_eq (fun i => vector j i (k * scale.lanes))
        (dstRow j + (k * scale.lanes * scale.ratio + scale.half)) m scale.ratio_pos
      refine ⟨g, ?_, fun i hi => ?_⟩
      · rw [heq, haddr j hj, hlanes, Nat.mul_comm scale.ratio]
      · rw [hlanes, Nat.mul_comm] at hi
        have hmod := Nat.mod_lt i scale.ratio_pos
        have hlane : i / scale.ratio < scale.lanes := Nat.div_lt_of_lt_mul hi
        rw [← Nat.div_add_mod i scale.ratio, hg ⟨i / scale.ratio, hlane⟩ _ hmod,
          ← hv.vector j hj _ hmod k hk]
        congr 2
        simp only
        ring
    · intro x hx hx' m' h
      have hfit' := hfit (x + 1) hx'
      refine hstep (Nat.le_succ x) hx' h (block_wrote ?_ (fun j hj m => ?_) m')
      · rw [Nat.add_sub_cancel_left, Nat.one_mul]
        rw [Nat.succ_mul] at hfit'
        omega
      · refine ⟨fun i => scalar j i x, ?_, fun i hi => ?_⟩
        · rw [Nat.add_sub_cancel_left, Nat.one_mul, forRange_update (g := fun i => scalar j i x),
            haddr j hj]
        · rw [Nat.add_sub_cancel_left, Nat.one_mul] at hi
          rw [hv.scalar j hj i hi x hx hx']
  refine (((hleft m).trans hinj (block_subset (by omega)) (block_subset (by omega))
    (hright _)).trans hinj (Set.union_subset (block_subset (by omega)) (block_subset (by omega)))
    (block_subset (by omega)) (hcolumns _)).congr ?_
  ext p
  simp only [block, Set.mem_union, Set.mem_ofPred_eq]
  omega

/-! ### The value of a pixel -/

variable (scale)

/-- Element `c` of a row as the loops compute it. -/
def lineAt (srcWidth : ℕ) (left right : α) (vector : ℕ → ℕ → Fin scale.lanes → α)
    (scalar : ℕ → ℕ → α) (c : ℕ) : α :=
  if c < scale.half then left
  else if srcWidth * scale.ratio - scale.half ≤ c then right
  else
    let x := (c - scale.half) / scale.ratio
    let i := (c - scale.half) % scale.ratio
    if x < (srcWidth - 1) / scale.lanes * scale.lanes then
      vector i (x / scale.lanes * scale.lanes) ⟨x % scale.lanes, Nat.mod_lt _ scale.lanes_pos⟩
    else scalar i x

/-- Element `c` of a row at an edge. -/
def edgeAt (src : ℕ → α) (srcWidth srcRow : ℕ) : ℕ → α :=
  scale.lineAt srcWidth (src srcRow) (src (srcRow + (srcWidth - 1)))
    (fun i srcX => scale.edgeVector i (vld1q src (srcRow + srcX)) (vld1q src (srcRow + srcX + 1)))
    (fun i srcX => scale.edgeScalar i (src (srcRow + srcX)) (src (srcRow + srcX + 1)))

/-- Element `c` of row `j` between two source rows. -/
def rowAt (src : ℕ → α) (srcWidth srcRow0 srcRow1 j : ℕ) : ℕ → α :=
  scale.lineAt srcWidth (scale.edgeScalar j (src srcRow0) (src srcRow1))
    (scale.edgeScalar j (src (srcRow0 + (srcWidth - 1))) (src (srcRow1 + (srcWidth - 1))))
    (fun i srcX => scale.rowVector j i (vld1q src (srcRow0 + srcX))
      (vld1q src (srcRow0 + srcX + 1)) (vld1q src (srcRow1 + srcX)) (vld1q src (srcRow1 + srcX + 1)))
    (fun i srcX => scale.rowScalar j i (src (srcRow0 + srcX)) (src (srcRow0 + srcX + 1))
      (src (srcRow1 + srcX)) (src (srcRow1 + srcX + 1)))

/-- The pixel in row `p.1` and column `p.2` of the enlarged image. -/
def pixelAt (src : ℕ → α) (srcPtr srcStride srcWidth srcHeight : ℕ) (p : ℕ × ℕ) : α :=
  if p.1 < scale.half then scale.edgeAt src srcWidth srcPtr p.2
  else if srcHeight * scale.ratio - scale.half ≤ p.1 then
    scale.edgeAt src srcWidth (srcPtr + srcStride * (srcHeight - 1)) p.2
  else
    let srcRow0 := srcPtr + srcStride * ((p.1 - scale.half) / scale.ratio)
    scale.rowAt src srcWidth srcRow0 (srcRow0 + srcStride) ((p.1 - scale.half) % scale.ratio) p.2

variable {scale}

/-- A position between two edges, as a multiple of the ratio and a rest. -/
theorem split_position {w x i : ℕ} (hx : x + 1 < w) (hi : i < scale.ratio) :
    ¬x * scale.ratio + scale.half + i < scale.half ∧
      ¬w * scale.ratio - scale.half ≤ x * scale.ratio + scale.half + i ∧
      (x * scale.ratio + scale.half + i - scale.half) / scale.ratio = x ∧
      (x * scale.ratio + scale.half + i - scale.half) % scale.ratio = i := by
  have hend := scale.columns_end (show 0 < w by omega)
  have hle := Nat.mul_le_mul_right scale.ratio (show x + 1 ≤ w - 1 by omega)
  rw [Nat.succ_mul] at hle
  have hsub : x * scale.ratio + scale.half + i - scale.half = scale.ratio * x + i := by
    rw [Nat.mul_comm]
    omega
  refine ⟨by omega, by omega, ?_, ?_⟩
  · rw [hsub, Nat.mul_add_div scale.ratio_pos, Nat.div_eq_of_lt hi, Nat.add_zero]
  · rw [hsub, Nat.mul_add_mod, Nat.mod_eq_of_lt hi]

/-- Where a position of the enlarged image lies: before the first of `n` source
elements, after the last, or between two of them. -/
theorem position_cases {p : ℕ} (hn : 0 < n) (hp : p < n * scale.ratio) :
    ∃ n' i, i < scale.ratio ∧ p + scale.half = n' * scale.ratio + i ∧
      (p < scale.half ∧ n' = 0 ∨
        ¬p < scale.half ∧ n * scale.ratio - scale.half ≤ p ∧ n' = n ∨
        ¬p < scale.half ∧ ¬n * scale.ratio - scale.half ≤ p ∧ 0 < n' ∧ n' < n ∧
          (p - scale.half) / scale.ratio = n' - 1 ∧ (p - scale.half) % scale.ratio = i) := by
  have hratio : scale.ratio = 2 * scale.half := rfl
  have hend := scale.columns_end hn
  have hsplit : n * scale.ratio = (n - 1) * scale.ratio + scale.ratio := by
    rw [← Nat.succ_mul, Nat.succ_eq_add_one, Nat.sub_add_cancel hn]
  by_cases hfirst : p < scale.half
  · exact ⟨0, p + scale.half, by omega, by omega, .inl ⟨hfirst, rfl⟩⟩
  by_cases hlast : n * scale.ratio - scale.half ≤ p
  · exact ⟨n, p + scale.half - n * scale.ratio, by omega, by omega, .inr (.inl ⟨hfirst, hlast, rfl⟩)⟩
  · have hlt : (p - scale.half) / scale.ratio < n - 1 :=
      Nat.div_lt_of_lt_mul (by rw [Nat.mul_comm]; omega)
    have hdiv := Nat.div_add_mod' (p - scale.half) scale.ratio
    refine ⟨(p - scale.half) / scale.ratio + 1, _, Nat.mod_lt _ scale.ratio_pos, ?_,
      .inr (.inr ⟨hfirst, hlast, Nat.succ_pos _, by omega, rfl, rfl⟩)⟩
    rw [Nat.succ_mul]
    omega

/-- Rows that hold what the loops compute. -/
theorem linesHold_of_lineAt {left right : ℕ → α} {vector : ℕ → ℕ → ℕ → Fin scale.lanes → α}
    {scalar : ℕ → ℕ → ℕ → α} {srcWidth : ℕ} (hw : 0 < srcWidth)
    (hv : ∀ j < n, ∀ c < srcWidth * scale.ratio,
      v (r + j, c) = scale.lineAt srcWidth (left j) (right j) (vector j) (scalar j) c) :
    LinesHold scale v r srcWidth n left right vector scalar := by
  have hhalf : 2 * scale.half ≤ srcWidth * scale.ratio := Nat.le_mul_of_pos_left scale.ratio hw
  have hpos := scale.half_pos
  have hlt : ∀ {x i}, x + 1 < srcWidth → i < scale.ratio →
      x * scale.ratio + scale.half + i < srcWidth * scale.ratio := fun hx hi => by
    have := (split_position hx hi).2.1
    omega
  refine ⟨fun j hj i hi => ?_, fun j hj i hi => ?_, fun j hj i hi k hk lane => ?_,
    fun j hj i hi x hx hx' => ?_⟩
  · rw [hv j hj i (by omega), lineAt, if_pos hi]
  · rw [hv j hj _ (by omega), lineAt, if_neg (by omega), if_pos (by omega)]
  · have hx : k * scale.lanes + lane + 1 < srcWidth := by
      have := lane.isLt
      rw [Nat.succ_mul] at hk
      omega
    obtain ⟨h1, h2, h3, h4⟩ := split_position hx hi
    have hvector : k * scale.lanes + lane < (srcWidth - 1) / scale.lanes * scale.lanes := by
      have hq : k + 1 ≤ (srcWidth - 1) / scale.lanes :=
        (Nat.le_div_iff_mul_le scale.lanes_pos).mpr (by omega)
      have hle := Nat.mul_le_mul_right scale.lanes hq
      rw [Nat.succ_mul] at hle
      have := lane.isLt
      omega
    have hdiv : (k * scale.lanes + lane) / scale.lanes = k := by
      rw [Nat.mul_comm, Nat.mul_add_div scale.lanes_pos, Nat.div_eq_of_lt lane.isLt, Nat.add_zero]
    have hmod : (k * scale.lanes + lane) % scale.lanes = lane := by
      rw [Nat.mul_comm, Nat.mul_add_mod, Nat.mod_eq_of_lt lane.isLt]
    rw [hv j hj _ (hlt hx hi), lineAt, if_neg h1, if_neg h2]
    simp only [h3, h4, hdiv, hmod, if_pos hvector]
  · obtain ⟨h1, h2, h3, h4⟩ := split_position hx' hi
    rw [hv j hj _ (hlt hx' hi), lineAt, if_neg h1, if_neg h2]
    simp only [h3, h4, if_neg (Nat.not_lt.mpr hx)]

/-! ### Stripes -/

/-- The rows of an edge: their pixels, and at ratio 4 the padding of the copied
row. -/
def edgeSet (scale : FixedScale α) (length stride r : ℕ) : Set (ℕ × ℕ) :=
  {p | r ≤ p.1 ∧ p.1 < r + scale.half ∧
    (p.2 < length ∨ scale.half = 2 ∧ p.1 = r + 1 ∧ p.2 < stride)}

/-- What a stripe of the rows from `yBegin` up to `yEnd` writes. -/
def stripeSet (scale : FixedScale α) (length stride srcHeight yBegin yEnd : ℕ) : Set (ℕ × ℕ) :=
  {p | yBegin = 0 ∧ p ∈ edgeSet scale length stride 0 ∨
    p ∈ block (yBegin * scale.ratio + scale.half) ((yEnd - 1 - yBegin) * scale.ratio) 0 length ∨
    yEnd = srcHeight ∧ p ∈ edgeSet scale length stride (srcHeight * scale.ratio - scale.half)}

/-- The pixels and, beyond them, the padding of the row above. -/
def written (scale : FixedScale α) (src : ℕ → α) (srcPtr srcStride srcWidth srcHeight : ℕ)
    (rows : Rows) (m : ℕ → α) (p : ℕ × ℕ) : α :=
  if p.2 < srcWidth * scale.ratio then scale.pixelAt src srcPtr srcStride srcWidth srcHeight p
  else m (rows.address (p.1 - 1, p.2))

theorem edgeSet_subset {length stride r : ℕ} (h : length ≤ stride) :
    edgeSet scale length stride r ⊆ {p | p.2 < stride} := by
  rintro p ⟨-, -, hp | hp⟩
  · exact hp.trans_le h
  · exact hp.2.2

theorem stripeSet_subset {length stride srcHeight yBegin yEnd : ℕ} (h : length ≤ stride) :
    stripeSet scale length stride srcHeight yBegin yEnd ⊆ {p | p.2 < stride} := by
  rintro p (⟨-, hp⟩ | hp | ⟨-, hp⟩)
  · exact edgeSet_subset h hp
  · exact block_subset (by omega) hp
  · exact edgeSet_subset h hp

/-- An edge: its row, and at ratio 4 a copy of it. -/
theorem processEdge_wrote {src : ℕ → α} {srcWidth srcRow dstRow : ℕ} (hw : 0 < srcWidth)
    (hstride : srcWidth * scale.ratio ≤ rows.stride) (hrow : dstRow = rows.address (r, 0))
    (hv : ∀ j < scale.half, ∀ c < srcWidth * scale.ratio,
      v (r + j, c) = scale.edgeAt src srcWidth srcRow c)
    (hpad : ∀ c, srcWidth * scale.ratio ≤ c → c < rows.stride →
      v (r + 1, c) = m (rows.address (r, c))) :
    Wrote rows.address v (edgeSet scale (srcWidth * scale.ratio) rows.stride r) m
      (scale.processEdge src srcWidth srcRow dstRow rows.stride m) := by
  have hpos := scale.half_pos
  have hfirst : Wrote rows.address v (block r 1 0 (srcWidth * scale.ratio)) m
      (scale.processEdgeRow src srcWidth srcRow dstRow m) := by
    refine lines_wrote hw hstride (fun j hj => ?_) (linesHold_of_lineAt hw fun j hj c hc => ?_) m
    · rw [hrow, show j = 0 by omega, Nat.add_zero]
    · exact hv j (by omega) c hc
  unfold processEdge
  simp only
  split
  · rename_i hhalf
    set m' := scale.processEdgeRow src srcWidth srcRow dstRow m with hm'
    have haddr : ∀ c, dstRow + c = rows.address (r, c) := fun c => by
      rw [hrow]
      simp only [Rows.address]
      omega
    have hcopied : Wrote rows.address v (block (r + 1) 1 0 rows.stride) m'
        (copyN dstRow rows.stride (dstRow + rows.stride) m') := by
      have hcopy : copyN dstRow rows.stride (dstRow + rows.stride) m' =
          overwrite m' (rows.address (r + 1, 0)) rows.stride fun c => m' (dstRow + c) := by
        rw [copyN_eq (.inl le_rfl), hrow]
        congr 1
        simp only [Rows.address]
        ring
      rw [hcopy]
      refine segment_wrote (fun c hc => ?_) m'
      rw [Nat.zero_add]
      rcases Nat.lt_or_ge c (srcWidth * scale.ratio) with hlt | hge
      · rw [haddr, hfirst.value (r, c) ⟨le_rfl, Nat.lt_succ_self r, Nat.zero_le c, by omega⟩,
          show (r, c) = (r + 0, c) from rfl, hv 0 (by omega) c hlt, hv 1 (by omega) c hlt]
      · rw [haddr, hpad c hge hc]
        refine hfirst.frame _ fun p hp heq => ?_
        have hpc : p = (r, c) := Rows.address_injOn le_rfl (block_subset (by omega) hp) hc heq
        have hp4 := hp.2.2.2
        rw [hpc] at hp4
        simp only at hp4
        omega
    refine (hfirst.trans (Rows.address_injOn le_rfl) (block_subset (by omega))
      (block_subset (by omega)) hcopied).congr ?_
    ext p
    simp only [edgeSet, block, Set.mem_union, Set.mem_ofPred_eq, hhalf, true_and]
    omega
  · have hone : scale.half = 1 := scale.half_eq.resolve_right ‹_›
    refine hfirst.congr ?_
    ext p
    simp only [edgeSet, block, Set.mem_ofPred_eq, hone]
    omega

/-- The padding that edges are copied from is never written. -/
theorem padding_not_mem {length stride srcHeight yBegin yEnd c : ℕ} (hh : 0 < srcHeight)
    (hr : r = 0 ∨ r = srcHeight * scale.ratio - scale.half) (hc : length ≤ c) :
    (r, c) ∉ stripeSet scale length stride srcHeight yBegin yEnd := by
  have hheight : scale.ratio ≤ srcHeight * scale.ratio := Nat.le_mul_of_pos_left _ hh
  have hratio : scale.ratio = 2 * scale.half := rfl
  rintro (⟨-, -, -, hlt | hrow⟩ | ⟨-, -, -, hlt⟩ | ⟨-, -, -, hlt | hrow⟩)
  all_goals simp only at *
  all_goals omega

/-- A stripe of all rows has every pixel. -/
theorem mem_stripeSet {length stride srcHeight c : ℕ} (hh : 0 < srcHeight)
    (hr : r < srcHeight * scale.ratio) (hc : c < length) :
    (r, c) ∈ stripeSet scale length stride srcHeight 0 srcHeight := by
  have hend := scale.columns_end hh
  by_cases hfirst : r < scale.half
  · exact .inl ⟨rfl, Nat.zero_le r, by simpa using hfirst, .inl hc⟩
  by_cases hlast : srcHeight * scale.ratio - scale.half ≤ r
  · exact .inr (.inr ⟨rfl, hlast, by simp only; omega, .inl hc⟩)
  · refine .inr (.inl ⟨?_, ?_, Nat.zero_le c, ?_⟩)
    all_goals simp only [Nat.sub_zero]
    all_goals omega

/-- The middle rows: one gap between source rows after another. -/
theorem gaps_wrote {src : ℕ → α} {srcPtr srcStride srcWidth srcHeight yEnd : ℕ}
    (hw : 0 < srcWidth) (hstride : srcWidth * scale.ratio ≤ rows.stride)
    (hend : yEnd ≤ srcHeight) (yBegin : ℕ) (m' : ℕ → α) :
    Wrote rows.address (written scale src srcPtr srcStride srcWidth srcHeight rows m)
      (block (yBegin * scale.ratio + scale.half) ((yEnd - 1 - yBegin) * scale.ratio) 0
        (srcWidth * scale.ratio)) m'
      (forFrom yBegin (yEnd - 1 - yBegin) (fun srcY =>
        scale.processRow src srcWidth (srcPtr + srcStride * srcY)
          (srcPtr + srcStride * srcY + srcStride)
          (rows.ptr + rows.stride * (srcY * scale.ratio + scale.half)) rows.stride) m') := by
  have hblock : ∀ r n, block r n 0 (srcWidth * scale.ratio) ⊆ {p | p.2 < rows.stride} :=
    fun _ _ => block_subset (by omega)
  refine forRange_invariant (fun j m'' =>
    Wrote rows.address (written scale src srcPtr srcStride srcWidth srcHeight rows m)
      (block (yBegin * scale.ratio + scale.half) (j * scale.ratio) 0 (srcWidth * scale.ratio))
      m' m'') ?_ ?_
  · refine Wrote.refl_of_empty m' fun p hp => ?_
    have h1 := hp.1
    have h2 := hp.2.1
    omega
  · intro j hj m'' h
    have hgap : Wrote rows.address
        (written scale src srcPtr srcStride srcWidth srcHeight rows m)
        (block ((yBegin + j) * scale.ratio + scale.half) scale.ratio 0 (srcWidth * scale.ratio))
        m'' (scale.processRow src srcWidth (srcPtr + srcStride * (yBegin + j))
          (srcPtr + srcStride * (yBegin + j) + srcStride)
          (rows.ptr + rows.stride * ((yBegin + j) * scale.ratio + scale.half)) rows.stride
          m'') := by
      refine lines_wrote hw hstride (fun i _ => ?_) (linesHold_of_lineAt hw fun i hi c hc => ?_) m''
      · simp only [Rows.address]
        ring
      · obtain ⟨h1, h2, h3, h4⟩ := split_position (show yBegin + j + 1 < srcHeight by omega) hi
        rw [written, if_pos hc, pixelAt, if_neg h1, if_neg h2]
        simp only [h3, h4]
        rfl
    refine (h.trans (Rows.address_injOn le_rfl) (hblock _ _) (hblock _ _) hgap).congr ?_
    have hsplit : (yBegin + j) * scale.ratio = yBegin * scale.ratio + j * scale.ratio :=
      Nat.add_mul ..
    have hnext : (j + 1) * scale.ratio = j * scale.ratio + scale.ratio := Nat.succ_mul ..
    ext p
    simp only [block, Set.mem_union, Set.mem_ofPred_eq]
    omega

/-- **A stripe writes its rows**: the pixels of the gaps it counts and of the edges
it reaches, and at ratio 4 the padding of a copied row. -/
theorem stripe_wrote (rows : Rows) (src : ℕ → α) (srcPtr srcStride yBegin : ℕ)
    {srcWidth srcHeight yEnd : ℕ} {m m' : ℕ → α} (hw : 0 < srcWidth) (hh : 0 < srcHeight)
    (hstride : srcWidth * scale.ratio ≤ rows.stride) (hend : yEnd ≤ srcHeight)
    (hpad : ∀ r, r = 0 ∨ r = srcHeight * scale.ratio - scale.half → ∀ c,
      srcWidth * scale.ratio ≤ c → c < rows.stride →
        m' (rows.address (r, c)) = m (rows.address (r, c))) :
    Wrote rows.address (written scale src srcPtr srcStride srcWidth srcHeight rows m)
      (stripeSet scale (srcWidth * scale.ratio) rows.stride srcHeight yBegin yEnd) m'
      (scale.stripe src srcPtr srcStride srcWidth srcHeight yBegin yEnd rows.ptr rows.stride
        m').2 := by
  have hinj : Set.InjOn rows.address {p | p.2 < rows.stride} := Rows.address_injOn le_rfl
  have hheight : scale.ratio ≤ srcHeight * scale.ratio := Nat.le_mul_of_pos_left _ hh
  have hratio : scale.ratio = 2 * scale.half := rfl
  have hpos := scale.half_pos
  -- An edge row, after pieces of the stripe that leave its padding alone.
  have hedge : ∀ r srcRow dstRow,
      r = 0 ∧ srcRow = srcPtr ∨
        r = srcHeight * scale.ratio - scale.half ∧ srcRow = srcPtr + srcStride * (srcHeight - 1) →
      dstRow = rows.ptr + rows.stride * r → ∀ {S m''},
      S ⊆ stripeSet scale (srcWidth * scale.ratio) rows.stride srcHeight yBegin yEnd →
      Wrote rows.address (written scale src srcPtr srcStride srcWidth srcHeight rows m) S m' m'' →
      Wrote rows.address (written scale src srcPtr srcStride srcWidth srcHeight rows m)
        (edgeSet scale (srcWidth * scale.ratio) rows.stride r) m''
        (scale.processEdge src srcWidth srcRow dstRow rows.stride m'') := by
    intro r srcRow dstRow hr hdst S m'' hS h
    refine processEdge_wrote hw hstride ?_ (fun j hj c hc => ?_) fun c hc hc' => ?_
    · rw [hdst, Rows.address, Nat.mul_comm, Nat.add_zero]
    · rw [written, if_pos hc, pixelAt]
      rcases hr with ⟨rfl, rfl⟩ | ⟨rfl, rfl⟩
      · rw [if_pos (by omega)]
      · rw [if_neg (by omega), if_pos (by omega)]
    · have hrow := hr.imp And.left And.left
      rw [written, if_neg (Nat.not_lt.mpr hc), Nat.add_sub_cancel, ← hpad r hrow c hc hc']
      refine (h.read fun p hp heq => ?_).symm
      have hp' : p = (r, c) := hinj (stripeSet_subset hstride (hS hp)) hc' heq
      exact padding_not_mem hh hrow hc (hp' ▸ hS hp)
  have htop := Wrote.ite (c := yBegin = 0) fun _ => hedge 0 srcPtr rows.ptr (.inl ⟨rfl, rfl⟩)
    (by rw [Nat.mul_zero, Nat.add_zero]) (Set.empty_subset _) (Wrote.refl m')
  have hmiddle := htop.trans hinj (fun p hp => edgeSet_subset hstride hp.2) (block_subset (by omega))
    (gaps_wrote hw hstride hend yBegin _)
  have hbottom := Wrote.ite (c := yEnd = srcHeight) fun _ =>
    hedge (srcHeight * scale.ratio - scale.half) (srcPtr + srcStride * (srcHeight - 1)) _
      (.inr ⟨rfl, rfl⟩) rfl (Set.union_subset (fun p hp => .inl hp) fun p hp => .inr (.inl hp))
      hmiddle
  refine (hmiddle.trans hinj (Set.union_subset (fun p hp => edgeSet_subset hstride hp.2)
    (block_subset (by omega))) (fun p hp => edgeSet_subset hstride hp.2) hbottom).congr ?_
  ext p
  simp only [stripeSet, Set.mem_union, Set.mem_ofPred_eq, or_assoc]

/-- The rows a batch of gaps hands to the stripe function. -/
def batchSet (scale : FixedScale α) (length stride srcHeight : ℕ) (r : ℕ × ℕ) : Set (ℕ × ℕ) :=
  stripeSet scale length stride srcHeight r.1 (min srcHeight (r.2 + 1))

/-- Batches that cover the gaps have all rows. -/
theorem batchSet_cover {length stride srcHeight : ℕ} {l : List (ℕ × ℕ)} (hh : 0 < srcHeight)
    (hl : IsPartition (max 1 (srcHeight - 1)) l) :
    ⋃ r ∈ l, batchSet scale length stride srcHeight r =
      stripeSet scale length stride srcHeight 0 srcHeight := by
  have hpos := scale.ratio_pos
  ext p
  simp only [batchSet, stripeSet, Set.mem_iUnion, exists_prop, Set.mem_ofPred_eq, true_and]
  constructor
  · rintro ⟨r, hr, ⟨-, hp⟩ | hp | ⟨-, hp⟩⟩
    · exact .inl hp
    · have hb := hl.bounds r hr
      obtain ⟨h1, h2, h3, h4⟩ := hp
      have hstart := Nat.zero_le (r.1 * scale.ratio)
      have hgaps : r.1 * scale.ratio + (min srcHeight (r.2 + 1) - 1 - r.1) * scale.ratio ≤
          (srcHeight - 1 - 0) * scale.ratio ∨ min srcHeight (r.2 + 1) - 1 - r.1 = 0 := by
        rcases Nat.le_total (min srcHeight (r.2 + 1) - 1) r.1 with hle | hle
        · exact .inr (Nat.sub_eq_zero_of_le hle)
        · rw [← Nat.add_mul]
          exact .inl (Nat.mul_le_mul_right _ (by omega))
      refine .inr (.inl ⟨by omega, ?_, h3, h4⟩)
      rcases hgaps with hgaps | hgaps
      · omega
      · rw [hgaps] at h2
        omega
    · exact .inr (.inr hp)
  · rintro (hp | ⟨h1, h2, h3, h4⟩ | hp)
    · obtain ⟨r, hr, h1, -⟩ := hl.cover 0 (by omega)
      exact ⟨r, hr, .inl ⟨Nat.le_zero.mp h1, hp⟩⟩
    · -- The gap that the row lies in.
      obtain ⟨d, hd⟩ := Nat.exists_eq_add_of_le (show scale.half ≤ p.1 by omega)
      rw [Nat.sub_zero] at h2
      have hdlt : d < (srcHeight - 1) * scale.ratio := by omega
      have hgap : d / scale.ratio < srcHeight - 1 := Nat.div_lt_of_lt_mul (by rwa [Nat.mul_comm])
      obtain ⟨r, hr, hr1, hr2⟩ := hl.cover (d / scale.ratio) (by omega)
      have hmin : d / scale.ratio + 1 ≤ min srcHeight (r.2 + 1) - 1 := by omega
      have hlo : r.1 * scale.ratio ≤ d := (Nat.le_div_iff_mul_le hpos).mp hr1
      have hhi : d < (min srcHeight (r.2 + 1) - 1) * scale.ratio :=
        (Nat.div_lt_iff_lt_mul hpos).mp hmin
      have hsplit : (min srcHeight (r.2 + 1) - 1) * scale.ratio =
          r.1 * scale.ratio + (min srcHeight (r.2 + 1) - 1 - r.1) * scale.ratio := by
        rw [← Nat.add_mul]
        congr 1
        omega
      exact ⟨r, hr, .inr (.inl ⟨by omega, by omega, h3, h4⟩)⟩
    · obtain ⟨r, hr, -, h2⟩ := hl.cover (max 1 (srcHeight - 1) - 1) (by omega)
      have hb := hl.bounds r hr
      exact ⟨r, hr, .inr (.inr ⟨by omega, hp⟩)⟩

/-- **Batches of gaps, in any order, write what one stripe of all rows does.** -/
theorem batches_wrote (rows : Rows) {src : ℕ → α} {srcPtr srcStride srcWidth srcHeight : ℕ}
    {l : List (ℕ × ℕ)} (hw : 0 < srcWidth) (hh : 0 < srcHeight)
    (hstride : srcWidth * scale.ratio ≤ rows.stride)
    (hl : IsPartition (max 1 (srcHeight - 1)) l) (m : ℕ → α) :
    Wrote rows.address (written scale src srcPtr srcStride srcWidth srcHeight rows m)
      (stripeSet scale (srcWidth * scale.ratio) rows.stride srcHeight 0 srcHeight) m
      (l.foldl (fun m r => (scale.stripe src srcPtr srcStride srcWidth srcHeight r.1
        (min srcHeight (r.2 + 1)) rows.ptr rows.stride m).2) m) := by
  have hinj : Set.InjOn rows.address {p | p.2 < rows.stride} := Rows.address_injOn le_rfl
  have hsub : ∀ r, batchSet scale (srcWidth * scale.ratio) rows.stride srcHeight r ⊆
      {p | p.2 < rows.stride} := fun _ => stripeSet_subset hstride
  refine (Wrote.foldl hinj (fun r _ => hsub r) m fun done r rest _ m' h => ?_).congr
    (batchSet_cover hh hl)
  refine stripe_wrote rows _ _ _ _ hw hh hstride (min_le_left _ _) fun row hrow c hc hc' => ?_
  refine h.read fun p hp heq => ?_
  obtain ⟨q, -, hp⟩ := Set.mem_iUnion₂.mp hp
  exact padding_not_mem hh hrow hc (hinj (hsub q hp) hc' heq ▸ hp)

/-! ### The frame of a whole call -/

/-- The padding that the edges of a copied row change keeps its values. -/
def PaddingKept (rows : Rows) (length height : ℕ) (m : ℕ → α) : Prop :=
  ∀ c, length ≤ c → c < rows.stride → m (rows.address (1, c)) = m (rows.address (0, c)) ∧
    m (rows.address (height - 1, c)) = m (rows.address (height - 2, c))

/-- Positions that a stripe of all rows writes: pixels, and the padding of two
rows. -/
theorem stripeSet_cases {length stride srcHeight : ℕ} {p : ℕ × ℕ} (hh : 0 < srcHeight)
    (hp : p ∈ stripeSet scale length stride srcHeight 0 srcHeight) :
    p.1 < srcHeight * scale.ratio ∧ (p.2 < length ∨ scale.half = 2 ∧ p.2 < stride ∧
      (p.1 = 1 ∨ p.1 = srcHeight * scale.ratio - 1)) := by
  have hheight : scale.ratio ≤ srcHeight * scale.ratio := Nat.le_mul_of_pos_left _ hh
  have hratio : scale.ratio = 2 * scale.half := rfl
  have hend := scale.columns_end hh
  have hpos := scale.half_pos
  rcases hp with ⟨-, -, h2, hp⟩ | ⟨-, h2, -, hp⟩ | ⟨-, h1, h2, hp⟩
  · refine ⟨by omega, hp.imp_right fun ⟨hhalf, hrow, hlt⟩ => ⟨hhalf, hlt, .inl (by omega)⟩⟩
  · rw [Nat.sub_zero] at h2
    exact ⟨by omega, .inl (by omega)⟩
  · refine ⟨by omega, hp.imp_right fun ⟨hhalf, hrow, hlt⟩ => ⟨hhalf, hlt, .inr (by omega)⟩⟩

variable (scale) in
/-- **At ratio 2 nothing but pixels changes; at ratio 4 only with padding that the
copied rows do not change.** -/
theorem stripe_unchanged_iff (rows : Rows) (src : ℕ → α) (srcPtr srcStride : ℕ)
    {srcWidth srcHeight : ℕ} (hw : 0 < srcWidth) (hh : 0 < srcHeight)
    (hstride : srcWidth * scale.ratio ≤ rows.stride) (m : ℕ → α) :
    UnchangedOutside (rows.image (srcWidth * scale.ratio) (srcHeight * scale.ratio)) m
        (scale.stripe src srcPtr srcStride srcWidth srcHeight 0 srcHeight rows.ptr rows.stride m).2 ↔
      (scale.half = 2 → PaddingKept rows (srcWidth * scale.ratio) (srcHeight * scale.ratio) m) := by
  have hinj : Set.InjOn rows.address {p | p.2 < rows.stride} := Rows.address_injOn le_rfl
  have hwrote := scale.stripe_wrote rows src srcPtr srcStride 0 hw hh hstride le_rfl
    (m := m) fun _ _ _ _ _ => rfl
  have hheight : scale.ratio ≤ srcHeight * scale.ratio := Nat.le_mul_of_pos_left _ hh
  have hratio : scale.ratio = 2 * scale.half := rfl
  have hpad : ∀ r c, srcWidth * scale.ratio ≤ c → c < rows.stride →
      rows.address (r, c) ∉ rows.image (srcWidth * scale.ratio) (srcHeight * scale.ratio) := by
    rintro r c hc hlt ⟨p, -, hp, heq⟩
    have hpc : p = (r, c) := hinj (hp.trans_le hstride) hlt heq
    rw [hpc] at hp
    exact absurd hp (Nat.not_lt.mpr hc)
  constructor
  · intro h hhalf c hc hlt
    have hvalue : ∀ r, (r + 1, c) ∈ stripeSet scale (srcWidth * scale.ratio) rows.stride srcHeight 0
        srcHeight → m (rows.address (r + 1, c)) = m (rows.address (r, c)) := fun r hr => by
      rw [← h _ (hpad _ c hc hlt), hwrote.value _ hr, written, if_neg (Nat.not_lt.mpr hc),
        Nat.add_sub_cancel]
    refine ⟨hvalue 0 (.inl ⟨rfl, Nat.zero_le _, by simp only; omega, .inr ⟨hhalf, rfl, hlt⟩⟩), ?_⟩
    have hlast := hvalue (srcHeight * scale.ratio - 2)
      (.inr (.inr ⟨rfl, by simp only; omega, by simp only; omega,
        .inr ⟨hhalf, by simp only; omega, hlt⟩⟩))
    rwa [show srcHeight * scale.ratio - 2 + 1 = srcHeight * scale.ratio - 1 by omega] at hlast
  · intro hkept a ha
    by_cases hmem : ∃ p ∈ stripeSet scale (srcWidth * scale.ratio) rows.stride srcHeight 0
        srcHeight, rows.address p = a
    · obtain ⟨p, hp, rfl⟩ := hmem
      obtain ⟨hrow, hcolumn⟩ := stripeSet_cases hh hp
      have hc : ¬p.2 < srcWidth * scale.ratio := fun hc => ha ⟨p, hrow, hc, rfl⟩
      obtain ⟨hhalf, hlt, hcases⟩ := hcolumn.resolve_left hc
      obtain ⟨h1, h2⟩ := hkept hhalf p.2 (Nat.not_lt.mp hc) hlt
      rw [hwrote.value p hp, written, if_neg hc]
      rcases hcases with hcase | hcase
      · rw [hcase, ← h1, ← hcase]
      · rw [hcase, show srcHeight * scale.ratio - 1 - 1 = srcHeight * scale.ratio - 2 by omega, ← h2,
          ← hcase]
    · push Not at hmem
      exact hwrote.frame a hmem

end FixedScale

end

end KleidiCV
