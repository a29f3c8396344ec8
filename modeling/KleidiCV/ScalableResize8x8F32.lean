/-
`resize_linear` by 8 of `float` images: Neon, SVE with four lanes, and SVE with more.

Values are read as exact rationals.  The kernels interpolate the first and the last of eight rows
in both directions and blend the six between; with four lanes a source element is passed at a time,
with more lanes half as many source elements as there are lanes, through tables of indices.
Pointers and strides count elements.

* `linear_clamped` — the centres of the elements of an enlarged line;
* `Writes.stripe`, `Writes.batches` — stripes, from what edges and gaps between rows write;
* `sectionIndices_eq` — the zips count eight elements to a source element;
* `resize8x8F32_agree` — the three kernels, on every cut into stripes.
-/
import KleidiCV.Lib.Bilinear
import KleidiCV.Lib.Extension
import KleidiCV.ResizeLinearF32
import KleidiCV.SveLanes

open Loop Bilinear

namespace KleidiCV

namespace Resize8x8F32

/-- `float`, as exact rationals. -/
def exact : FloatOps ℚ where
  add := (· + ·)
  sub := (· - ·)
  mul := (· * ·)
  vmla := fun a b c => a + b * c
  lit := id

/-! ### Scalable kernels -/

/-- `svmul_x`. -/
def svmul (a b : ℕ → ℚ) : ℕ → ℚ := fun l => a l * b l

/-- `svmla_x`. -/
def svmla (acc a b : ℕ → ℚ) : ℕ → ℚ := fun l => acc l + a l * b l

/-- `svdup`. -/
def svdup {α : Type} (a : α) : ℕ → α := fun _ => a

/-- `svptrue_pat_b32(SV_VL1)` and `svptrue_pat_b32(SV_VL4)`. -/
def svptruePat (n : ℕ) : ℕ → Bool := fun l => decide (l < n)

/-- `lerp1d_vector_n` of four lanes, `lerp1d_vector` of more. -/
def lerp1dVectorN (p : ℚ) (a : ℕ → ℚ) (q : ℚ) (b : ℕ → ℚ) : ℕ → ℚ :=
  svmla (svmul a (svdup p)) b (svdup q)

/-- The left or the right elements of a row at an edge: four rows of four. -/
def edgeElements (dst dstStride : ℕ) (value : ℚ) (m : ℕ → ℚ) : ℕ → ℚ :=
  forRange 4 (fun i => forRange 4 fun j m => Function.update m (dst + i * dstStride + j) value) m

/-- The left or the right elements of the rows between two source rows. -/
def gapElements (lanes dst dstStride : ℕ) (s0 s1 : ℚ) (m : ℕ → ℚ) : ℕ → ℚ :=
  forRange 8 (fun i m => Sve.svst1 lanes (svptruePat 4) m (dst + i * dstStride)
    (lerp1dVectorN ((15 - i * 2 : ℚ) / 16) (svdup s0) ((i * 2 + 1 : ℚ) / 16) (svdup s1))) m

/-- The stores of eight rows: the first, the last, and those that are blended from them. -/
def storeRows (lanes : ℕ) (pg : ℕ → Bool) (dst dstStride : ℕ) (dst0 dst7 : ℕ → ℚ) (m : ℕ → ℚ) :
    ℕ → ℚ :=
  Sve.svst1 lanes pg (Sve.svst1 lanes pg m dst dst0) (dst + 7 * dstStride) dst7 |>
    forFrom 1 6 fun j m => Sve.svst1 lanes pg m (dst + j * dstStride)
      (lerp1dVectorN ((7 - j : ℚ) / 7) dst0 ((j : ℚ) / 7) dst7)

/-- A stripe, from the rows at an edge and the rows between two source rows. -/
def stripeOf (processEdgeRow : ℕ → ℕ → (ℕ → ℚ) → ℕ → ℚ)
    (processRow : ℕ → ℕ → ℕ → (ℕ → ℚ) → ℕ → ℚ) (srcPtr srcStride srcHeight yBegin yEnd dst
    dstStride : ℕ) (m : ℕ → ℚ) : ℕ → ℚ :=
  let dstHeight := srcHeight * 8
  m |>
    -- Top rows.
    (fun m => if yBegin = 0 then processEdgeRow srcPtr dst m else m) |>
    -- Middle rows.
    forFrom yBegin (yEnd - 1 - yBegin) (fun srcY =>
      let dstY := srcY * 8 + 4
      let srcRow0 := srcPtr + srcStride * srcY
      processRow srcRow0 (srcRow0 + srcStride) (dst + dstStride * dstY)) |>
    -- Bottom rows.
    (fun m => if yEnd = srcHeight then
      processEdgeRow (srcPtr + srcStride * (srcHeight - 1)) (dst + dstStride * (dstHeight - 4)) m
      else m)

section

variable (src : ℕ → ℚ) (srcWidth : ℕ)

namespace Sve128

/-- `coeffs_a0` and `coeffs_a1`. -/
def coeffsA (k : ℕ) : ℕ → ℚ := fun l => Resize8x8F32.coeffsA exact (4 * k + l)

/-- `coeffs_b0` and `coeffs_b1`. -/
def coeffsB (k : ℕ) : ℕ → ℚ := fun l => Resize8x8F32.coeffsB exact (4 * k + l)

/-- `lerp1d_vector`. -/
def lerp1dVector (p a q b : ℕ → ℚ) : ℕ → ℚ := svmla (svmul a p) b q

/-- `lerp2d_vector`. -/
def lerp2dVector (a p b q c r d s : ℕ → ℚ) : ℕ → ℚ :=
  svmla (svmla (svmla (svmul a p) b q) c r) d s

/-- `process_edge_row`. -/
def processEdgeRow (dstStride srcRow dstRow : ℕ) (m : ℕ → ℚ) : ℕ → ℚ :=
  let dstWidth := srcWidth * 8
  m |>
    edgeElements dstRow dstStride (src srcRow) |>
    forRange (srcWidth - 1) (fun srcX =>
      let a := svdup (src (srcRow + srcX))
      let b := svdup (src (srcRow + (srcX + 1)))
      forRange 2 fun k => forRange 4 fun j m =>
        Sve.svst1 4 svptrue m (dstRow + srcX * 8 + 4 + j * dstStride + 4 * k)
          (lerp1dVector (coeffsA k) a (coeffsB k) b)) |>
    edgeElements (dstRow + (dstWidth - 4)) dstStride (src (srcRow + (srcWidth - 1)))

/-- `process_row`. -/
def processRow (dstStride srcRow0 srcRow1 dstRow0 : ℕ) (m : ℕ → ℚ) : ℕ → ℚ :=
  m |>
    gapElements 4 dstRow0 dstStride (src srcRow0) (src srcRow1) |>
    forRange (srcWidth - 1) (fun srcX =>
      let a := svdup (src (srcRow0 + srcX))
      let b := svdup (src (srcRow0 + (srcX + 1)))
      let c := svdup (src (srcRow1 + srcX))
      let d := svdup (src (srcRow1 + (srcX + 1)))
      forRange 2 fun k =>
        let p := svmul (coeffsA k) (svdup (15 / 16))
        let q := svmul (coeffsB k) (svdup (15 / 16))
        let r := svmul (coeffsA k) (svdup (1 / 16))
        let s := svmul (coeffsB k) (svdup (1 / 16))
        storeRows 4 svptrue (dstRow0 + 4 + srcX * 8 + 4 * k) dstStride
          (lerp2dVector a p b q c r d s) (lerp2dVector a r b s c p d q)) |>
    gapElements 4 (dstRow0 + 4 + (srcWidth - 1) * 8) dstStride (src (srcRow0 + (srcWidth - 1)))
      (src (srcRow1 + (srcWidth - 1)))

end Sve128

/-- `resize_8x8_f32_sve128_sc`. -/
def resize8x8F32Sve128Sc (srcPtr srcStride srcHeight yBegin yEnd dst dstStride : ℕ) (m : ℕ → ℚ) :
    KleidicvError × (ℕ → ℚ) :=
  (.ok, stripeOf (Sve128.processEdgeRow src srcWidth dstStride)
    (Sve128.processRow src srcWidth dstStride) srcPtr srcStride srcHeight yBegin yEnd dst dstStride
    m)

namespace Sve256Plus

variable (lanes : ℕ)

/-- `svreinterpret_u32_u64`. -/
def svreinterpretU32U64 (v : ℕ → ℕ) : ℕ → ℕ := fun l =>
  if l % 2 = 0 then v (l / 2) % 2 ^ 32 else v (l / 2) / 2 ^ 32 % 2 ^ 32

/-- `svzip1`. -/
def svzip1 (a b : ℕ → ℕ) : ℕ → ℕ := Sve.interleave a b

/-- `svzip2`. -/
def svzip2 (a b : ℕ → ℕ) : ℕ → ℕ :=
  Sve.interleave (fun l => a (lanes / 2 + l)) fun l => b (lanes / 2 + l)

/-- `svtbl`. -/
def svtbl (v : ℕ → ℚ) (indices : ℕ → ℕ) : ℕ → ℚ := fun l =>
  if indices l < lanes then v (indices l) else 0

/-- The tables of indices that are zipped from `tmp_2x`, for each of four vectors. -/
def sectionIndices (tmp2x : ℕ → ℕ) (k : ℕ) : ℕ → ℕ :=
  let tmp4x := if k < 2 then svzip1 tmp2x tmp2x else svzip2 lanes tmp2x tmp2x
  if k % 2 = 0 then svzip1 tmp4x tmp4x else svzip2 lanes tmp4x tmp4x

/-- `indices_0a` to `indices_3a`. -/
def indicesA : ℕ → ℕ → ℕ :=
  sectionIndices lanes (svreinterpretU32U64 (Scalable.svindex 8 0 0x100000001))

/-- `indices_0b` to `indices_3b`. -/
def indicesB : ℕ → ℕ → ℕ :=
  sectionIndices lanes (svreinterpretU32U64 (Scalable.svindex 8 0x100000001 0x100000001))

/-- `coeffs_b`. -/
def coeffsB : ℕ → ℚ := fun l => ((Scalable.svindex 4 1 2 l &&& 0x0F : ℕ) : ℚ) / 16

/-- `coeffs_a`. -/
def coeffsA : ℕ → ℚ := fun l => 1 - coeffsB l

/-- `index_and_lerp1d`. -/
def indexAndLerp1d (k : ℕ) (src : ℕ → ℚ) : ℕ → ℚ :=
  svmla (svmul (svtbl lanes src (indicesA lanes k)) coeffsA) (svtbl lanes src (indicesB lanes k))
    coeffsB

/-- `index_and_lerp2d`. -/
def indexAndLerp2d (k : ℕ) (src0 src1 : ℕ → ℚ) : ℕ → ℚ :=
  let p := svmul coeffsA (svdup (15 / 16))
  let q := svmul coeffsB (svdup (15 / 16))
  let r := svmul coeffsA (svdup (1 / 16))
  let s := svmul coeffsB (svdup (1 / 16))
  svmla (svmla (svmla (svmul (svtbl lanes src0 (indicesA lanes k)) p)
    (svtbl lanes src0 (indicesB lanes k)) q) (svtbl lanes src1 (indicesA lanes k)) r)
    (svtbl lanes src1 (indicesB lanes k)) s

/-- `process_edge_row`. -/
def processEdgeRow (dstStride srcRow dstRow : ℕ) (m : ℕ → ℚ) : ℕ → ℚ :=
  let dstWidth := srcWidth * 8
  m |>
    edgeElements dstRow dstStride (src srcRow) |>
    forSteps 0 (lanes / 2) (srcWidth - 1) (fun srcX =>
      let svsrc := Sve.svld1 (svwhilelt srcX srcWidth) src (srcRow + srcX)
      let dstLength := 8 * (srcWidth - srcX - 1)
      forRange 4 fun k => forRange 4 fun j m =>
        Sve.svst1 lanes (svwhilelt (k * lanes) dstLength) m
          (dstRow + srcX * 8 + 4 + j * dstStride + k * lanes) (indexAndLerp1d lanes k svsrc)) |>
    edgeElements (dstRow + (dstWidth - 4)) dstStride (src (srcRow + (srcWidth - 1)))

/-- `process_row`. -/
def processRow (dstStride srcRow0 srcRow1 dstRow : ℕ) (m : ℕ → ℚ) : ℕ → ℚ :=
  let dstWidth := srcWidth * 8
  m |>
    gapElements lanes dstRow dstStride (src srcRow0) (src srcRow1) |>
    forSteps 0 (lanes / 2) (srcWidth - 1) (fun srcX =>
      let src0 := Sve.svld1 (svwhilelt srcX srcWidth) src (srcRow0 + srcX)
      let src1 := Sve.svld1 (svwhilelt srcX srcWidth) src (srcRow1 + srcX)
      let dstLength := 8 * (srcWidth - srcX - 1)
      forRange 4 fun k =>
        storeRows lanes (svwhilelt (k * lanes) dstLength) (dstRow + (srcX * 8 + 4) + k * lanes)
          dstStride (indexAndLerp2d lanes k src0 src1) (indexAndLerp2d lanes k src1 src0)) |>
    gapElements lanes (dstRow + (dstWidth - 4)) dstStride (src (srcRow0 + (srcWidth - 1)))
      (src (srcRow1 + (srcWidth - 1)))

end Sve256Plus

/-- `resize_8x8_f32_sve256plus_sc`, with `lanes` lanes. -/
def resize8x8F32Sve256plusSc (lanes srcPtr srcStride srcHeight yBegin yEnd dst dstStride : ℕ)
    (m : ℕ → ℚ) : KleidicvError × (ℕ → ℚ) :=
  (.ok, stripeOf (Sve256Plus.processEdgeRow src srcWidth lanes dstStride)
    (Sve256Plus.processRow src srcWidth lanes dstStride) srcPtr srcStride srcHeight yBegin yEnd dst
    dstStride m)

/-- `resize_8x8_f32`, of `kleidicv::neon`. -/
def resize8x8F32Neon (srcPtr srcStride srcHeight yBegin yEnd dst dstStride : ℕ) (m : ℕ → ℚ) :
    KleidicvError × (ℕ → ℚ) :=
  stripe exact src srcPtr srcStride srcWidth srcHeight yBegin yEnd dst dstStride m

end

/-! ### The enlarged image -/

/-- Between two samples, for the `i`th of eight elements. -/
def lerp (i : ℕ) (a b : ℚ) : ℚ := ((15 - 2 * i) * a + (2 * i + 1) * b) / 16

/-- Element `c` of a line of `n` samples, enlarged by eight. -/
def line (n : ℕ) (f : ℕ → ℚ) (c : ℕ) : ℚ :=
  if c < 4 then f 0
  else if n * 8 - 4 ≤ c then f (n - 1)
  else lerp ((c - 4) % 8) (f ((c - 4) / 8)) (f ((c - 4) / 8 + 1))

/-- The interpolation of the edge-clamped source at the centre of an element. -/
def enlarged (src : ℕ → ℚ) (srcPtr srcStride srcWidth srcHeight : ℕ) (p : ℕ × ℕ) : ℚ :=
  bilinear (fun y x => src (srcPtr + srcStride * (Extension.edge.index srcHeight y).toNat +
    (Extension.edge.index srcWidth x).toNat)) (centre 8 p.1) (centre 8 p.2)

/-- **The centres of an enlarged line**, between samples that repeat at the ends. -/
theorem linear_clamped {n c : ℕ} (hn : 0 < n) (hc : c < n * 8) (f : ℕ → ℚ) :
    linear (fun i => f (Extension.edge.index n i).toNat) (centre 8 c) = line n f c := by
  have hbetween : ∀ n' i, i < 8 → c + 4 = n' * 8 + i →
      linear (fun i => f (Extension.edge.index n i).toNat) (centre 8 c) =
        lerp i (f (n' - 1 : ℕ)) (f (min n' (n - 1))) := by
    intro n' i hi hk
    have hcentre := linear_centre (fun i => f (Extension.edge.index n i).toNat)
      (show i < 2 * 4 from hi) (show c + 4 = n' * (2 * 4) + i from hk)
    refine hcentre.trans ?_
    have hfar : (Extension.edge.index n n').toNat = min n' (n - 1) := by
      simp only [Extension.index]
      omega
    have hnear : (Extension.edge.index n (n' - 1)).toNat = n' - 1 := by
      simp only [Extension.index]
      omega
    simp only [hfar, hnear, lerp]
    push_cast
    ring
  have hsame : ∀ i a, lerp i a a = a := fun i a => by
    unfold lerp
    ring
  unfold line
  split_ifs with hfirst hlast
  · rw [hbetween 0 (c + 4) (by omega) (by omega), Nat.zero_sub, Nat.zero_min, hsame]
  · rw [hbetween n (c + 4 - n * 8) (by omega) (by omega), Nat.min_eq_right (by omega), hsame]
  · rw [hbetween ((c - 4) / 8 + 1) ((c - 4) % 8) (by omega) (by omega), Nat.add_sub_cancel,
      Nat.min_eq_left (by omega)]

theorem enlarged_eq {src : ℕ → ℚ} {srcPtr srcStride srcWidth srcHeight r c : ℕ} (hw : 0 < srcWidth)
    (hh : 0 < srcHeight) (hr : r < srcHeight * 8) (hc : c < srcWidth * 8) :
    enlarged src srcPtr srcStride srcWidth srcHeight (r, c) =
      line srcHeight (fun y => line srcWidth (fun x => src (srcPtr + srcStride * y + x)) c) r := by
  rw [enlarged, bilinear, ← linear_clamped hh hr]
  congr 1
  funext y
  exact linear_clamped hw hc fun x =>
    src (srcPtr + srcStride * (Extension.edge.index srcHeight y).toNat + x)

/-! ### Stores of rows -/

section

variable {rows : Rows} {v : ℕ × ℕ → ℚ} {m m' m'' : ℕ → ℚ} {r n c k l : ℕ}

/-- Rows that fit in their stride, or have nothing. -/
theorem block_fits (hstride : k = 0 ∨ c + k ≤ rows.stride) :
    block r n c k ⊆ {p | p.2 < rows.stride} := by
  rintro p ⟨-, -, h1, h2⟩
  show p.2 < rows.stride
  omega

/-- Rows one after another. -/
theorem block_rows {f : ℕ → (ℕ → ℚ) → ℕ → ℚ} (hstride : k = 0 ∨ c + k ≤ rows.stride)
    (hf : ∀ j < n, ∀ m, Wrote rows.address v (block (r + j) 1 c k) m (f j m)) (m : ℕ → ℚ) :
    Wrote rows.address v (block r n c k) m (forRange n f m) := by
  refine forRange_invariant (fun j m' => Wrote rows.address v (block r j c k) m m') ?_ ?_
  · exact Wrote.refl_of_empty m fun p hp => Nat.not_lt.mpr hp.1 hp.2.1
  · intro j hj m' h
    refine (h.trans (Rows.address_injOn le_rfl) (block_fits hstride) (block_fits hstride)
      (hf j hj m')).congr ?_
    ext p
    simp only [block, Set.mem_union, Set.mem_ofPred_eq]
    omega

/-- Columns that follow others. -/
theorem block_columns (hstride : c + k + l ≤ rows.stride)
    (h : Wrote rows.address v (block r n c k) m m')
    (h' : Wrote rows.address v (block r n (c + k) l) m' m'') :
    Wrote rows.address v (block r n c (k + l)) m m'' := by
  refine (h.trans (Rows.address_injOn le_rfl) (block_subset (by omega)) (block_subset hstride)
    h').congr ?_
  ext p
  simp only [block, Set.mem_union, Set.mem_ofPred_eq]
  omega

/-- Eight rows, the first and the last before the others. -/
theorem block_outerFirst {first last : (ℕ → ℚ) → ℕ → ℚ} {f : ℕ → (ℕ → ℚ) → ℕ → ℚ}
    (hstride : k = 0 ∨ c + k ≤ rows.stride)
    (hfirst : ∀ m, Wrote rows.address v (block r 1 c k) m (first m))
    (hlast : ∀ m, Wrote rows.address v (block (r + 7) 1 c k) m (last m))
    (hf : ∀ j, 1 ≤ j → j < 7 → ∀ m, Wrote rows.address v (block (r + j) 1 c k) m (f j m))
    (m : ℕ → ℚ) :
    Wrote rows.address v (block r 8 c k) m (forFrom 1 6 f (last (first m))) := by
  have hinj : Set.InjOn rows.address {p | p.2 < rows.stride} := Rows.address_injOn le_rfl
  have hsub : ∀ r n, block r n c k ⊆ {p | p.2 < rows.stride} := fun _ _ => block_fits hstride
  have houter := (hfirst m).trans hinj (hsub _ _) (hsub _ _) (hlast (first m))
  have hinner := block_rows (r := r + 1) (n := 6) hstride
    (fun j hj m => by
      rw [Nat.add_assoc]
      exact hf (1 + j) (by omega) (by omega) m) (last (first m))
  refine (houter.trans hinj (Set.union_subset (hsub _ _) (hsub _ _)) (hsub _ _) hinner).congr ?_
  ext p
  simp only [block, Set.mem_union, Set.mem_ofPred_eq]
  omega

/-- Left elements, the columns between, and right elements, in the order of the scalable kernels. -/
theorem block_pieces {w : ℕ} (hw : 0 < w) (hstride : w * 8 ≤ rows.stride)
    (hleft : Wrote rows.address v (block r n 0 4) m m')
    (hmiddle : Wrote rows.address v (block r n 4 ((w - 1) * 8)) m' m'')
    {m₃ : ℕ → ℚ} (hright : Wrote rows.address v (block r n (w * 8 - 4) 4) m'' m₃) :
    Wrote rows.address v (block r n 0 (w * 8)) m m₃ := by
  have hbefore : Wrote rows.address v (block r n 0 (4 + (w - 1) * 8)) m m'' :=
    block_columns (by omega) hleft (by rwa [Nat.zero_add])
  have hstart : 0 + (4 + (w - 1) * 8) = w * 8 - 4 := by omega
  have hall : Wrote rows.address v (block r n 0 (4 + (w - 1) * 8 + 4)) m m₃ :=
    block_columns (by omega) hbefore (by rwa [hstart])
  rwa [show 4 + (w - 1) * 8 + 4 = w * 8 by omega] at hall

end

/-! ### Stripes -/

/-- What the rows at an edge and the rows between two source rows have to be. -/
structure Writes (rows : Rows) (src : ℕ → ℚ) (srcWidth : ℕ)
    (processEdgeRow : ℕ → ℕ → (ℕ → ℚ) → ℕ → ℚ) (processRow : ℕ → ℕ → ℕ → (ℕ → ℚ) → ℕ → ℚ) :
    Prop where
  edge : ∀ (v : ℕ × ℕ → ℚ) srcRow r m,
    (∀ j < 4, ∀ c < srcWidth * 8, v (r + j, c) = line srcWidth (fun x => src (srcRow + x)) c) →
      Wrote rows.address v (block r 4 0 (srcWidth * 8)) m
        (processEdgeRow srcRow (rows.address (r, 0)) m)
  gap : ∀ (v : ℕ × ℕ → ℚ) srcRow0 srcRow1 r m,
    (∀ j < 8, ∀ c < srcWidth * 8, v (r + j, c) =
      lerp j (line srcWidth (fun x => src (srcRow0 + x)) c)
        (line srcWidth (fun x => src (srcRow1 + x)) c)) →
      Wrote rows.address v (block r 8 0 (srcWidth * 8)) m
        (processRow srcRow0 srcRow1 (rows.address (r, 0)) m)

/-- The elements that a stripe writes. -/
def stripeSet (srcWidth srcHeight yBegin yEnd : ℕ) : Set (ℕ × ℕ) :=
  {p | p.2 < srcWidth * 8 ∧ (yBegin = 0 ∧ p.1 < 4 ∨
    (yBegin * 8 + 4 ≤ p.1 ∧ p.1 < (yEnd - 1) * 8 + 4) ∨
    yEnd = srcHeight ∧ srcHeight * 8 - 4 ≤ p.1 ∧ p.1 < srcHeight * 8)}

namespace Writes

variable {rows : Rows} {src : ℕ → ℚ} {srcPtr srcStride srcWidth srcHeight yEnd : ℕ}
  {processEdgeRow : ℕ → ℕ → (ℕ → ℚ) → ℕ → ℚ} {processRow : ℕ → ℕ → ℕ → (ℕ → ℚ) → ℕ → ℚ}

/-- The rows between source rows `y` and `y + 1`. -/
theorem gap_wrote (hk : Writes rows src srcWidth processEdgeRow processRow) (hw : 0 < srcWidth)
    {y : ℕ} (hy : y + 1 < srcHeight) (m : ℕ → ℚ) :
    Wrote rows.address (enlarged src srcPtr srcStride srcWidth srcHeight)
      (block (y * 8 + 4) 8 0 (srcWidth * 8)) m
      (processRow (srcPtr + srcStride * y) (srcPtr + srcStride * y + srcStride)
        (rows.ptr + rows.stride * (y * 8 + 4)) m) := by
  have haddress : rows.ptr + rows.stride * (y * 8 + 4) = rows.address (y * 8 + 4, 0) := by
    rw [Rows.address, Nat.mul_comm]
    rfl
  rw [haddress]
  refine hk.gap _ _ _ _ m fun j hj c hc => ?_
  rw [enlarged_eq hw (by omega) (by omega) hc, line, if_neg (by omega), if_neg (by omega),
    show (y * 8 + 4 + j - 4) % 8 = j by omega, show (y * 8 + 4 + j - 4) / 8 = y by omega,
    Nat.mul_succ, Nat.add_assoc srcPtr]

/-- The rows at the top and at the bottom. -/
theorem edge_wrote (hk : Writes rows src srcWidth processEdgeRow processRow) (hw : 0 < srcWidth)
    (hh : 0 < srcHeight) {y r : ℕ} (hr : y = 0 ∧ r = 0 ∨ y = srcHeight - 1 ∧ r = srcHeight * 8 - 4)
    (m : ℕ → ℚ) :
    Wrote rows.address (enlarged src srcPtr srcStride srcWidth srcHeight)
      (block r 4 0 (srcWidth * 8)) m
      (processEdgeRow (srcPtr + srcStride * y) (rows.ptr + rows.stride * r) m) := by
  have haddress : rows.ptr + rows.stride * r = rows.address (r, 0) := by
    rw [Rows.address, Nat.mul_comm]
    rfl
  rw [haddress]
  refine hk.edge _ _ _ m fun j hj c hc => ?_
  rw [enlarged_eq hw hh (by omega) hc, line]
  obtain ⟨rfl, rfl⟩ | ⟨rfl, rfl⟩ := hr
  · rw [if_pos (by omega)]
  · rw [if_neg (by omega), if_pos (by omega)]

/-- **A stripe** writes the elements of its rows. -/
theorem stripe (hk : Writes rows src srcWidth processEdgeRow processRow) (srcPtr srcStride : ℕ)
    (hw : 0 < srcWidth) (hh : 0 < srcHeight) (hstride : srcWidth * 8 ≤ rows.stride)
    (hend : yEnd ≤ srcHeight) (yBegin : ℕ) (m : ℕ → ℚ) :
    Wrote rows.address (enlarged src srcPtr srcStride srcWidth srcHeight)
      (stripeSet srcWidth srcHeight yBegin yEnd) m
      (stripeOf processEdgeRow processRow srcPtr srcStride srcHeight yBegin yEnd rows.ptr
        rows.stride m) := by
  have hinj : Set.InjOn rows.address {p | p.2 < rows.stride} := Rows.address_injOn le_rfl
  have hblock : ∀ r n, block r n 0 (srcWidth * 8) ⊆ {p | p.2 < rows.stride} :=
    fun _ _ => block_subset (by omega)
  have htop : ∀ m, Wrote rows.address (enlarged src srcPtr srcStride srcWidth srcHeight)
      {p | yBegin = 0 ∧ p ∈ block 0 4 0 (srcWidth * 8)} m
      (if yBegin = 0 then processEdgeRow srcPtr rows.ptr m else m) := fun m =>
    Wrote.ite fun _ => by simpa using hk.edge_wrote hw hh (.inl ⟨rfl, rfl⟩) m
  have hbottom : ∀ m, Wrote rows.address (enlarged src srcPtr srcStride srcWidth srcHeight)
      {p | yEnd = srcHeight ∧ p ∈ block (srcHeight * 8 - 4) 4 0 (srcWidth * 8)} m
      (if yEnd = srcHeight then processEdgeRow (srcPtr + srcStride * (srcHeight - 1))
        (rows.ptr + rows.stride * (srcHeight * 8 - 4)) m else m) := fun m =>
    Wrote.ite fun _ => hk.edge_wrote hw hh (.inr ⟨rfl, rfl⟩) m
  have hgaps : ∀ m, Wrote rows.address (enlarged src srcPtr srcStride srcWidth srcHeight)
      (block (yBegin * 8 + 4) ((yEnd - 1 - yBegin) * 8) 0 (srcWidth * 8)) m
      (forFrom yBegin (yEnd - 1 - yBegin) (fun srcY =>
        processRow (srcPtr + srcStride * srcY) (srcPtr + srcStride * srcY + srcStride)
          (rows.ptr + rows.stride * (srcY * 8 + 4))) m) := by
    intro m
    refine forRange_invariant (fun j m' => Wrote rows.address
      (enlarged src srcPtr srcStride srcWidth srcHeight)
      (block (yBegin * 8 + 4) (j * 8) 0 (srcWidth * 8)) m m') ?_ fun j hj m' h => ?_
    · exact Wrote.refl_of_empty m fun p hp => by
        have h1 := hp.1
        have h2 := hp.2.1
        omega
    · refine (h.trans hinj (hblock _ _) (hblock _ _)
        (hk.gap_wrote hw (show yBegin + j + 1 < srcHeight by omega) m')).congr ?_
      ext p
      simp only [block, Set.mem_union, Set.mem_ofPred_eq]
      omega
  refine (((htop m).trans hinj (fun p hp => hblock _ _ hp.2) (hblock _ _) (hgaps _)).trans hinj
    (Set.union_subset (fun p hp => hblock _ _ hp.2) (hblock _ _)) (fun p hp => hblock _ _ hp.2)
    (hbottom _)).congr ?_
  ext p
  simp only [block, stripeSet, Set.mem_union, Set.mem_ofPred_eq]
  omega

/-- **Stripes of the gaps between source rows**, in any order. -/
theorem batches (hk : Writes rows src srcWidth processEdgeRow processRow) (srcPtr srcStride : ℕ)
    (hw : 0 < srcWidth) (hh : 0 < srcHeight) (hstride : srcWidth * 8 ≤ rows.stride)
    {l : List (ℕ × ℕ)} (hl : IsPartition (max 1 (srcHeight - 1)) l) (m : ℕ → ℚ) :
    Wrote rows.address (enlarged src srcPtr srcStride srcWidth srcHeight)
      {p | p.1 < srcHeight * 8 ∧ p.2 < srcWidth * 8} m
      (l.foldl (fun m r => stripeOf processEdgeRow processRow srcPtr srcStride srcHeight r.1
        (min srcHeight (r.2 + 1)) rows.ptr rows.stride m) m) := by
  have hsub : ∀ y z, stripeSet srcWidth srcHeight y z ⊆ {p | p.2 < rows.stride} :=
    fun _ _ _ hp => hp.1.trans_le hstride
  refine (Wrote.foldl (Rows.address_injOn le_rfl)
    (S := fun r => stripeSet srcWidth srcHeight r.1 (min srcHeight (r.2 + 1))) (fun r _ => hsub _ _)
    m fun done r rest _ m' _ =>
      hk.stripe srcPtr srcStride hw hh hstride (min_le_left _ _) r.1 m').congr ?_
  ext p
  simp only [stripeSet, Set.mem_iUnion, exists_prop, Set.mem_ofPred_eq]
  constructor
  · rintro ⟨r, hr, hc, hrow⟩
    have hb := hl.bounds r hr
    omega
  · rintro ⟨hr, hc⟩
    by_cases hfirst : p.1 < 4
    · obtain ⟨r, hr, h1, -⟩ := hl.cover 0 (by omega)
      exact ⟨r, hr, hc, .inl ⟨by omega, hfirst⟩⟩
    by_cases hlast : srcHeight * 8 - 4 ≤ p.1
    · obtain ⟨r, hr, -, h2⟩ := hl.cover (max 1 (srcHeight - 1) - 1) (by omega)
      exact ⟨r, hr, hc, .inr (.inr ⟨by omega, hlast, by omega⟩)⟩
    · obtain ⟨r, hr, h1, h2⟩ := hl.cover ((p.1 - 4) / 8) (by omega)
      exact ⟨r, hr, hc, .inr (.inl ⟨by omega, by omega⟩)⟩

end Writes

/-! ### Elements of a line -/

section

variable {w x i : ℕ} {f : ℕ → ℚ}

theorem line_left (f : ℕ → ℚ) (hi : i < 4) : line w f i = f 0 := if_pos hi

theorem line_right (f : ℕ → ℚ) (hw : 0 < w) (hi : i < 4) :
    line w f (w * 8 - 4 + i) = f (w - 1) := by
  rw [line, if_neg (by omega), if_pos (by omega)]

theorem line_middle (f : ℕ → ℚ) (hx : x + 1 < w) (hi : i < 8) :
    line w f (x * 8 + 4 + i) = lerp i (f x) (f (x + 1)) := by
  rw [line, if_neg (by omega), if_neg (by omega), show (x * 8 + 4 + i - 4) % 8 = i by omega,
    show (x * 8 + 4 + i - 4) / 8 = x by omega]

/-- The rows between the first and the last of eight. -/
theorem blend (j : ℕ) (a b : ℚ) :
    lerp 0 a b * ((7 - j) / 7) + lerp 7 a b * (j / 7) = lerp j a b := by
  unfold lerp
  push_cast
  ring

end

section

variable {rows : Rows} {v : ℕ × ℕ → ℚ} {r n c k dst lanes : ℕ}

theorem address_row (hdst : dst = rows.address (r, c)) (j i : ℕ) :
    dst + j * rows.stride + i = rows.address (r + j, c + i) := by
  rw [hdst]
  simp only [Rows.address]
  ring

/-- Columns, the same number of them in every iteration. -/
theorem block_forColumns {f : ℕ → (ℕ → ℚ) → ℕ → ℚ} {u q : ℕ} (hstride : c + q * u ≤ rows.stride)
    (hf : ∀ x < q, ∀ m, Wrote rows.address v (block r n (c + x * u) u) m (f x m)) (m : ℕ → ℚ) :
    Wrote rows.address v (block r n c (q * u)) m (forRange q f m) := by
  refine forRange_invariant (fun x m' => Wrote rows.address v (block r n c (x * u)) m m') ?_ ?_
  · exact Wrote.refl_of_empty m fun p hp => by
      have h3 := hp.2.2.1
      have h4 := hp.2.2.2
      omega
  · intro x hx m' h
    have hle := Nat.mul_le_mul_right u (Nat.succ_le_of_lt hx)
    rw [Nat.succ_mul] at hle ⊢
    exact block_columns (by omega) h (hf x hx m')

/-- A store of leading lanes, in one row. -/
theorem svst1_wrote {pg : ℕ → Bool} {value : ℕ → ℚ} (hpg : Scalable.Leading lanes pg k)
    (hdst : dst = rows.address (r, c)) (hv : ∀ i < k, value i = v (r, c + i)) (m : ℕ → ℚ) :
    Wrote rows.address v (block r 1 c k) m (Sve.svst1 lanes pg m dst value) := by
  rw [Sve.svst1_eq hpg, hdst]
  exact segment_wrote hv m

theorem vst1q_wrote {n : ℕ} {value : Fin n → ℚ} (hdst : dst = rows.address (r, c))
    (hv : ∀ i : Fin n, value i = v (r, c + i)) (m : ℕ → ℚ) :
    Wrote rows.address v (block r 1 c n) m (vst1q m dst value) := by
  obtain ⟨g, heq, hg⟩ := vst1q_eq m dst value
  rw [heq, hdst]
  exact segment_wrote (fun i hi => (hg ⟨i, hi⟩).trans (hv ⟨i, hi⟩)) m

theorem edgeElements_wrote {value : ℚ} (hstride : c + 4 ≤ rows.stride)
    (hdst : dst = rows.address (r, c)) (hv : ∀ j < 4, ∀ i < 4, v (r + j, c + i) = value)
    (m : ℕ → ℚ) :
    Wrote rows.address v (block r 4 c 4) m (edgeElements dst rows.stride value m) := by
  refine block_wrote hstride (fun j hj m => ⟨fun _ => value, ?_, fun i hi => (hv j hj i hi).symm⟩) m
  rw [forRange_update (g := fun _ => value)]
  exact congrArg (overwrite m · 4 _) (address_row hdst j 0)

theorem svptruePat_leading (h : n ≤ lanes) : Scalable.Leading lanes (svptruePat n) n :=
  ⟨h, fun _ _ => rfl⟩

theorem lerp1dVectorN_lane (p q : ℚ) (a b : ℕ → ℚ) (l : ℕ) :
    lerp1dVectorN p a q b l = a l * p + b l * q := rfl

theorem gapElements_wrote {s0 s1 : ℚ} (hlanes : 4 ≤ lanes) (hstride : c + 4 ≤ rows.stride)
    (hdst : dst = rows.address (r, c)) (hv : ∀ j < 8, ∀ i < 4, v (r + j, c + i) = lerp j s0 s1)
    (m : ℕ → ℚ) :
    Wrote rows.address v (block r 8 c 4) m (gapElements lanes dst rows.stride s0 s1 m) := by
  refine block_rows (.inr hstride) (fun j hj m => svst1_wrote (svptruePat_leading hlanes)
    (address_row hdst j 0) (fun i hi => ?_) m) m
  show _ = v (r + j, c + i)
  rw [hv j hj i hi, lerp1dVectorN_lane, svdup, svdup, lerp]
  ring

/-- Rows blended from the first and the last one. -/
theorem storeRows_wrote {pg : ℕ → Bool} {dst0 dst7 : ℕ → ℚ} (near far : ℕ → ℚ)
    (hpg : Scalable.Leading lanes pg k) (hstride : k = 0 ∨ c + k ≤ rows.stride)
    (hdst : dst = rows.address (r, c))
    (hv : ∀ j < 8, ∀ i < k, v (r + j, c + i) = lerp j (near i) (far i))
    (h0 : ∀ i < k, dst0 i = lerp 0 (near i) (far i))
    (h7 : ∀ i < k, dst7 i = lerp 7 (near i) (far i)) (m : ℕ → ℚ) :
    Wrote rows.address v (block r 8 c k) m (storeRows lanes pg dst rows.stride dst0 dst7 m) := by
  refine block_outerFirst hstride (fun m => svst1_wrote hpg hdst (fun i hi => ?_) m)
    (fun m => svst1_wrote hpg (address_row hdst 7 0) (fun i hi => ?_) m)
    (fun j h1 h2 m => svst1_wrote hpg (address_row hdst j 0) (fun i hi => ?_) m) m
  · exact (h0 i hi).trans (hv 0 (by omega) i hi).symm
  · exact (h7 i hi).trans (hv 7 (by omega) i hi).symm
  · show _ = v (r + j, c + i)
    rw [hv j (by omega) i hi, lerp1dVectorN_lane, h0 i hi, h7 i hi, blend]

end

/-! ### One source element at a time -/

section

variable {rows : Rows} {v : ℕ × ℕ → ℚ} {src : ℕ → ℚ} {srcWidth srcRow srcRow0 srcRow1 r : ℕ}

/-- The columns between the left and the right elements, four rows at an edge. -/
theorem edgeColumns_wrote (store : ℕ → ℕ → ℕ → (ℕ → ℚ) → ℕ → ℚ) (hw : 0 < srcWidth)
    (hstride : srcWidth * 8 ≤ rows.stride)
    (hstore : ∀ x, x + 1 < srcWidth → ∀ k < 2, ∀ j < 4, ∀ m,
      Wrote rows.address v (block (r + j) 1 (4 + x * 8 + k * 4) 4) m (store x k j m)) (m : ℕ → ℚ) :
    Wrote rows.address v (block r 4 4 ((srcWidth - 1) * 8)) m
      (forRange (srcWidth - 1) (fun x => forRange 2 fun k => forRange 4 fun j => store x k j) m) :=
  block_forColumns (by omega) (fun x hx m => block_forColumns (u := 4) (q := 2) (by omega)
    (fun k hk m => block_rows (by omega) (fun j hj m =>
      hstore x (by omega) k hk j hj m) m) m) m

theorem edgeVector_eq (k : ℕ) (a b : ℚ) (lane : Fin 4) :
    edgeVector exact k a b lane = lerp (4 * k + lane) a b := by
  show a * ((15 - 2 * ((4 * k + lane : ℕ) : ℚ)) / 16) +
    b * ((2 * ((4 * k + lane : ℕ) : ℚ) + 1) / 16) = _
  unfold lerp
  ring

theorem outerRow_eq (a b c d : ℚ) (lane : Fin 8) :
    outerRow exact a b c d lane = lerp 0 (lerp lane a b) (lerp lane c d) := by
  show (15 - 2 * (lane : ℚ)) / 16 * (15 / 16) * a + (2 * (lane : ℚ) + 1) / 16 * (15 / 16) * b +
    (15 - 2 * (lane : ℚ)) / 16 * (1 / 16) * c + (2 * (lane : ℚ) + 1) / 16 * (1 / 16) * d = _
  unfold lerp
  push_cast
  ring

theorem lastRow_eq (a b c d : ℚ) (lane : Fin 8) :
    lastRow exact a b c d lane = lerp 7 (lerp lane a b) (lerp lane c d) := by
  show (15 - 2 * (lane : ℚ)) / 16 * (1 / 16) * a + (2 * (lane : ℚ) + 1) / 16 * (1 / 16) * b +
    (15 - 2 * (lane : ℚ)) / 16 * (15 / 16) * c + (2 * (lane : ℚ) + 1) / 16 * (15 / 16) * d = _
  unfold lerp
  push_cast
  ring

/-- The left and the right elements at an edge. -/
theorem edgeSides_wrote (hw : 0 < srcWidth) (hstride : srcWidth * 8 ≤ rows.stride)
    (hv : ∀ j < 4, ∀ c < srcWidth * 8,
      v (r + j, c) = line srcWidth (fun x => src (srcRow + x)) c) (m : ℕ → ℚ) :
    Wrote rows.address v (block r 4 0 4) m
        (edgeElements (rows.address (r, 0)) rows.stride (src srcRow) m) ∧
      Wrote rows.address v (block r 4 (srcWidth * 8 - 4) 4) m
        (edgeElements (rows.address (r, 0) + (srcWidth * 8 - 4)) rows.stride
          (src (srcRow + (srcWidth - 1))) m) := by
  refine ⟨edgeElements_wrote (by omega) rfl (fun j hj i hi => ?_) m,
    edgeElements_wrote (by omega) rfl (fun j hj i hi => ?_) m⟩
  · rw [Nat.zero_add, hv j hj i (by omega), line_left _ hi]
    rfl
  · rw [hv j hj _ (by omega), line_right _ hw hi]

/-- The left and the right elements of the rows between two source rows. -/
theorem gapSides_wrote {lanes : ℕ} (hlanes : 4 ≤ lanes) (hw : 0 < srcWidth)
    (hstride : srcWidth * 8 ≤ rows.stride)
    (hv : ∀ j < 8, ∀ c < srcWidth * 8, v (r + j, c) =
      lerp j (line srcWidth (fun x => src (srcRow0 + x)) c)
        (line srcWidth (fun x => src (srcRow1 + x)) c)) (m : ℕ → ℚ) :
    Wrote rows.address v (block r 8 0 4) m
        (gapElements lanes (rows.address (r, 0)) rows.stride (src srcRow0) (src srcRow1) m) ∧
      Wrote rows.address v (block r 8 (srcWidth * 8 - 4) 4) m
        (gapElements lanes (rows.address (r, 0) + (srcWidth * 8 - 4)) rows.stride
          (src (srcRow0 + (srcWidth - 1))) (src (srcRow1 + (srcWidth - 1))) m) := by
  refine ⟨gapElements_wrote hlanes (by omega) rfl (fun j hj i hi => ?_) m,
    gapElements_wrote hlanes (by omega) rfl (fun j hj i hi => ?_) m⟩
  · rw [Nat.zero_add, hv j hj i (by omega), line_left _ hi, line_left _ hi]
    rfl
  · rw [hv j hj _ (by omega), line_right _ hw hi, line_right _ hw hi]

/-- The rows between two source rows, in the columns between two source columns. -/
theorem gap_value {x i j : ℕ} (hx : x + 1 < srcWidth) (hi : i < 8) (hj : j < 8)
    (hv : ∀ j < 8, ∀ c < srcWidth * 8, v (r + j, c) =
      lerp j (line srcWidth (fun x => src (srcRow0 + x)) c)
        (line srcWidth (fun x => src (srcRow1 + x)) c)) :
    v (r + j, x * 8 + 4 + i) = lerp j (lerp i (src (srcRow0 + x)) (src (srcRow0 + (x + 1))))
      (lerp i (src (srcRow1 + x)) (src (srcRow1 + (x + 1)))) := by
  rw [hv j hj _ (by omega), line_middle _ hx hi, line_middle _ hx hi]

/-- `process_edge_row`, of `resize_8x8_f32`. -/
theorem neonEdge_wrote (hw : 0 < srcWidth) (hstride : srcWidth * 8 ≤ rows.stride)
    (hv : ∀ j < 4, ∀ c < srcWidth * 8,
      v (r + j, c) = line srcWidth (fun x => src (srcRow + x)) c) (m : ℕ → ℚ) :
    Wrote rows.address v (block r 4 0 (srcWidth * 8)) m
      (Resize8x8F32.processEdgeRow exact src srcWidth srcRow (rows.address (r, 0)) rows.stride
        m) := by
  have hinj : Set.InjOn rows.address {p | p.2 < rows.stride} := Rows.address_injOn le_rfl
  have hsides := edgeSides_wrote hw hstride hv
  have hmiddle := edgeColumns_wrote (r := r) (v := v) (fun srcX k j m =>
      vst1q m (rows.address (r, 0) + srcX * 8 + 4 + j * rows.stride + k * 4)
        (edgeVector exact k (src (srcRow + srcX)) (src (srcRow + (srcX + 1))))) hw hstride
    fun x hx k hk j hj m => vst1q_wrote (by simp only [Rows.address]; ring) (fun i => by
      rw [edgeVector_eq, hv j hj _ (by omega), Nat.add_comm 4, Nat.add_assoc (x * 8 + 4),
        line_middle _ hx (by omega), Nat.mul_comm 4]) m
  refine ((((hsides m).1.trans hinj (block_subset (by omega)) (block_subset (by omega))
    (hsides _).2).trans hinj (Set.union_subset (block_subset (by omega)) (block_subset (by omega)))
    (block_subset (by omega)) (hmiddle _))).congr ?_
  ext p
  simp only [block, Set.mem_union, Set.mem_ofPred_eq]
  omega

/-- `process_row`, of `resize_8x8_f32`. -/
theorem neonRow_wrote (hw : 0 < srcWidth) (hstride : srcWidth * 8 ≤ rows.stride)
    (hv : ∀ j < 8, ∀ c < srcWidth * 8, v (r + j, c) =
      lerp j (line srcWidth (fun x => src (srcRow0 + x)) c)
        (line srcWidth (fun x => src (srcRow1 + x)) c)) (m : ℕ → ℚ) :
    Wrote rows.address v (block r 8 0 (srcWidth * 8)) m
      (Resize8x8F32.processRow exact src srcWidth srcRow0 srcRow1 (rows.address (r, 0)) rows.stride
        m) := by
  have hcolumn : ∀ (i : ℕ) (s0 s1 : ℚ) (lane : Fin 4),
      columnVector exact i s0 s1 lane = lerp i s0 s1 := by
    intro i s0 s1 lane
    show s0 * ((15 - 2 * (i : ℚ)) / 16) + s1 * ((2 * (i : ℚ) + 1) / 16) = _
    unfold lerp
    ring
  have hleft : ∀ m, Wrote rows.address v (block r 8 0 4) m (forRange 8 (fun i m =>
      vst1q m (rows.address (r, 0) + i * rows.stride)
        (columnVector exact i (src srcRow0) (src srcRow1))) m) :=
    block_rows (by omega) fun j hj m => vst1q_wrote (address_row rfl j 0) (fun i => by
      rw [hcolumn, hv j hj _ (by omega), Nat.zero_add, line_left _ (by omega),
        line_left _ (by omega)]
      rfl) m
  have hright : ∀ m, Wrote rows.address v (block r 8 (srcWidth * 8 - 4) 4) m
      (forRange 8 (fun i m => vst1q m
        (rows.address (r, 0) + 4 + (srcWidth - 1) * 8 + i * rows.stride)
        (columnVector exact i (src (srcRow0 + (srcWidth - 1)))
          (src (srcRow1 + (srcWidth - 1))))) m) :=
    block_rows (by omega) fun j hj m => vst1q_wrote (by
      rw [show srcWidth * 8 - 4 = 4 + (srcWidth - 1) * 8 by omega]
      simp only [Rows.address]
      ring) (fun i => by
      rw [hcolumn, hv j hj _ (by omega), line_right _ hw (by omega), line_right _ hw (by omega)]) m
  have hmiddle : ∀ m, Wrote rows.address v (block r 8 4 ((srcWidth - 1) * 8)) m
      (forRange (srcWidth - 1) (fun srcX m =>
        let dst0 := outerRow exact (src (srcRow0 + srcX)) (src (srcRow0 + (srcX + 1)))
          (src (srcRow1 + srcX)) (src (srcRow1 + (srcX + 1)))
        let dst7 := lastRow exact (src (srcRow0 + srcX)) (src (srcRow0 + (srcX + 1)))
          (src (srcRow1 + srcX)) (src (srcRow1 + (srcX + 1)))
        let dstRow := fun j => rows.address (r, 0) + 4 + srcX * 8 + j * rows.stride
        forFrom 1 6 (fun j m => vst1q m (dstRow j) fun lane : Fin 8 =>
          dst0 lane + (dst7 lane - dst0 lane) * (j / 7))
          (vst1q (vst1q m (dstRow 0) dst0) (dstRow 7) dst7)) m) := by
    refine block_forColumns (by omega) fun x hx m => ?_
    have haddress : ∀ j, rows.address (r, 0) + 4 + x * 8 + j * rows.stride =
        rows.address (r + j, 4 + x * 8) := fun j => by
      simp only [Rows.address]
      ring
    have hvalue : ∀ j < 8, ∀ lane : Fin 8, v (r + j, 4 + x * 8 + lane) =
        lerp j (lerp lane (src (srcRow0 + x)) (src (srcRow0 + (x + 1))))
          (lerp lane (src (srcRow1 + x)) (src (srcRow1 + (x + 1)))) := fun j hj lane => by
      rw [Nat.add_comm 4]
      exact gap_value (by omega) lane.isLt hj hv
    refine block_outerFirst (by omega) (fun m => vst1q_wrote (haddress 0) (fun lane => ?_) m)
      (fun m => vst1q_wrote (haddress 7) (fun lane => ?_) m)
      (fun j h1 h2 m => vst1q_wrote (haddress j) (fun lane => ?_) m) m
    · rw [outerRow_eq, ← hvalue 0 (by omega) lane]
    · rw [lastRow_eq, ← hvalue 7 (by omega) lane]
    · rw [outerRow_eq, lastRow_eq, hvalue j (by omega) lane, ← blend j]
      ring
  exact block_pieces hw hstride (hleft m) (hmiddle _) (hright _)

/-- `index_and_lerp2d` and `lerp2d_vector`, for the first of eight rows. -/
theorem lerp2d_eq (i : ℕ) (a b c d : ℚ) :
    a * ((15 - 2 * i) / 16 * (15 / 16)) + b * ((2 * i + 1) / 16 * (15 / 16)) +
      c * ((15 - 2 * i) / 16 * (1 / 16)) + d * ((2 * i + 1) / 16 * (1 / 16)) =
        lerp 0 (lerp i a b) (lerp i c d) := by
  unfold lerp
  push_cast
  ring

/-- The last row is the first one, from the other side. -/
theorem lerp_swap (a b : ℚ) : lerp 7 a b = lerp 0 b a := by
  unfold lerp
  push_cast
  ring

/-- `resize_8x8_f32_sve128_sc`. -/
theorem sve128_writes (hw : 0 < srcWidth) (hstride : srcWidth * 8 ≤ rows.stride) :
    Writes rows src srcWidth (Sve128.processEdgeRow src srcWidth rows.stride)
      (Sve128.processRow src srcWidth rows.stride) := by
  refine ⟨fun v srcRow r m hv => ?_, fun v srcRow0 srcRow1 r m hv => ?_⟩
  · have hsides := edgeSides_wrote hw hstride hv
    have hmiddle := edgeColumns_wrote (r := r) (v := v) (fun srcX k j m =>
        Sve.svst1 4 svptrue m (rows.address (r, 0) + srcX * 8 + 4 + j * rows.stride + 4 * k)
          (Sve128.lerp1dVector (Sve128.coeffsA k) (svdup (src (srcRow + srcX)))
            (Sve128.coeffsB k) (svdup (src (srcRow + (srcX + 1)))))) hw hstride
      fun x hx k hk j hj m => svst1_wrote Scalable.leading_ptrue
        (by simp only [Rows.address]; ring) (fun i hi => by
          rw [hv j hj _ (by omega), Nat.add_comm 4, Nat.add_assoc (x * 8 + 4),
            line_middle _ hx (by omega), Nat.mul_comm k]
          exact edgeVector_eq k _ _ ⟨i, hi⟩) m
    exact block_pieces hw hstride (hsides m).1 (hmiddle _) (hsides _).2
  · have hsides := gapSides_wrote le_rfl hw hstride hv
    have hmiddle : ∀ m, Wrote rows.address v (block r 8 4 ((srcWidth - 1) * 8)) m
        (forRange (srcWidth - 1) (fun srcX => forRange 2 fun k =>
          storeRows 4 svptrue (rows.address (r, 0) + 4 + srcX * 8 + 4 * k) rows.stride
            (Sve128.lerp2dVector (svdup (src (srcRow0 + srcX)))
              (svmul (Sve128.coeffsA k) (svdup (15 / 16))) (svdup (src (srcRow0 + (srcX + 1))))
              (svmul (Sve128.coeffsB k) (svdup (15 / 16))) (svdup (src (srcRow1 + srcX)))
              (svmul (Sve128.coeffsA k) (svdup (1 / 16))) (svdup (src (srcRow1 + (srcX + 1))))
              (svmul (Sve128.coeffsB k) (svdup (1 / 16))))
            (Sve128.lerp2dVector (svdup (src (srcRow0 + srcX)))
              (svmul (Sve128.coeffsA k) (svdup (1 / 16))) (svdup (src (srcRow0 + (srcX + 1))))
              (svmul (Sve128.coeffsB k) (svdup (1 / 16))) (svdup (src (srcRow1 + srcX)))
              (svmul (Sve128.coeffsA k) (svdup (15 / 16))) (svdup (src (srcRow1 + (srcX + 1))))
              (svmul (Sve128.coeffsB k) (svdup (15 / 16))))) m) := by
      refine block_forColumns (by omega) fun x hx m => block_forColumns (u := 4) (q := 2) (by omega)
        (fun k hk m => ?_) m
      refine storeRows_wrote
        (fun i => lerp (4 * k + i) (src (srcRow0 + x)) (src (srcRow0 + (x + 1))))
        (fun i => lerp (4 * k + i) (src (srcRow1 + x)) (src (srcRow1 + (x + 1))))
        Scalable.leading_ptrue (by omega) (by simp only [Rows.address]; ring)
        (fun j hj i hi => ?_) (fun i _ => ?_) (fun i _ => ?_) m
      · rw [Nat.add_comm 4, Nat.add_assoc (x * 8 + 4), Nat.mul_comm k]
        exact gap_value (by omega) (by omega) hj hv
      · exact lerp2d_eq (4 * k + i) _ _ _ _
      · rw [lerp_swap, ← lerp2d_eq]
        show src (srcRow0 + x) * ((15 - 2 * ((4 * k + i : ℕ) : ℚ)) / 16 * (1 / 16)) +
          src (srcRow0 + (x + 1)) * ((2 * ((4 * k + i : ℕ) : ℚ) + 1) / 16 * (1 / 16)) +
          src (srcRow1 + x) * ((15 - 2 * ((4 * k + i : ℕ) : ℚ)) / 16 * (15 / 16)) +
          src (srcRow1 + (x + 1)) * ((2 * ((4 * k + i : ℕ) : ℚ) + 1) / 16 * (15 / 16)) = _
        ring
    have hstart : rows.address (r, 0) + 4 + (srcWidth - 1) * 8 =
        rows.address (r, 0) + (srcWidth * 8 - 4) := by omega
    unfold Sve128.processRow
    rw [hstart]
    exact block_pieces hw hstride (hsides m).1 (hmiddle _) (hsides _).2

end

/-! ### Half as many source elements as lanes at a time -/

section

open Sve256Plus

variable {lanes : ℕ}

/-- Pairs of lanes in order. -/
theorem svreinterpretU32U64_index (base : ℕ) {l : ℕ} (hl : l / 2 + base < 2 ^ 32) :
    svreinterpretU32U64 (Scalable.svindex 8 (base * 0x100000001) 0x100000001) l = l / 2 + base := by
  have hvalue : Scalable.svindex 8 (base * 0x100000001) 0x100000001 (l / 2) =
      (l / 2 + base) * 2 ^ 32 + (l / 2 + base) := by
    rw [Scalable.svindex, Nat.mod_eq_of_lt (by omega)]
    omega
  unfold svreinterpretU32U64
  rw [hvalue]
  split
  · rw [Nat.mul_add_mod', Nat.mod_eq_of_lt hl]
  · rw [Nat.mul_comm, Nat.mul_add_div (by decide), Nat.div_eq_of_lt hl, Nat.add_zero,
      Nat.mod_eq_of_lt hl]

/-- Lanes of the first halves, each twice. -/
theorem svzip1_self (a : ℕ → ℕ) (l : ℕ) : svzip1 a a l = a (l / 2) := by
  rw [svzip1, Sve.interleave, ite_self]

theorem svzip2_self (a : ℕ → ℕ) (l : ℕ) : svzip2 lanes a a l = a (lanes / 2 + l / 2) := by
  rw [svzip2, Sve.interleave, ite_self]

/-- **The zips count eight elements to a source element**, through four vectors. -/
theorem sectionIndices_eq {base l k : ℕ} {tmp2x : ℕ → ℕ} (hlanes : lanes % 8 = 0) (hk : k < 4)
    (hl : l < lanes) (htmp : ∀ l < lanes, tmp2x l = l / 2 + base) :
    sectionIndices lanes tmp2x k l = (k * lanes + l) / 8 + base := by
  have hcases : k = 0 ∨ k = 1 ∨ k = 2 ∨ k = 3 := by omega
  obtain rfl | rfl | rfl | rfl := hcases
  · show svzip1 (svzip1 tmp2x tmp2x) (svzip1 tmp2x tmp2x) l = _
    rw [svzip1_self, svzip1_self, htmp _ (by omega)]
    omega
  · show svzip2 lanes (svzip1 tmp2x tmp2x) (svzip1 tmp2x tmp2x) l = _
    rw [svzip2_self, svzip1_self, htmp _ (by omega)]
    omega
  · show svzip1 (svzip2 lanes tmp2x tmp2x) (svzip2 lanes tmp2x tmp2x) l = _
    rw [svzip1_self, svzip2_self, htmp _ (by omega)]
    omega
  · show svzip2 lanes (svzip2 lanes tmp2x tmp2x) (svzip2 lanes tmp2x tmp2x) l = _
    rw [svzip2_self, svzip2_self, htmp _ (by omega)]
    omega

theorem indicesA_eq {l k : ℕ} (hlanes : lanes % 8 = 0) (hbound : lanes ≤ 2 ^ 32) (hk : k < 4)
    (hl : l < lanes) : indicesA lanes k l = (k * lanes + l) / 8 :=
  sectionIndices_eq hlanes hk hl fun _ _ => svreinterpretU32U64_index 0 (by omega)

theorem indicesB_eq {l k : ℕ} (hlanes : lanes % 8 = 0) (hbound : lanes ≤ 2 ^ 32) (hk : k < 4)
    (hl : l < lanes) : indicesB lanes k l = (k * lanes + l) / 8 + 1 :=
  sectionIndices_eq hlanes hk hl fun _ _ => svreinterpretU32U64_index 1 (by omega)

/-- The weights repeat every eight lanes. -/
theorem coeffsB_eq (l : ℕ) : Sve256Plus.coeffsB l = (2 * ((l % 8 : ℕ) : ℚ) + 1) / 16 := by
  have hand : Scalable.svindex 4 1 2 l &&& 0x0F = 2 * (l % 8) + 1 := by
    rw [show (0x0F : ℕ) = 2 ^ 4 - 1 from rfl, Nat.and_two_pow_sub_one_eq_mod, Scalable.svindex]
    omega
  rw [Sve256Plus.coeffsB, hand]
  push_cast
  rfl

theorem coeffsA_eq (l : ℕ) : Sve256Plus.coeffsA l = (15 - 2 * ((l % 8 : ℕ) : ℚ)) / 16 := by
  rw [Sve256Plus.coeffsA, coeffsB_eq]
  ring

variable {rows : Rows} {v : ℕ × ℕ → ℚ} {src : ℕ → ℚ} {srcWidth srcRow srcRow0 srcRow1 r n x k i : ℕ}

/-- Four vectors for every half vector of source elements, up to the end of the row. -/
theorem sections_wrote (store : ℕ → ℕ → (ℕ → ℚ) → ℕ → ℚ) (hlanes : lanes % 8 = 0)
    (hpos : 0 < lanes) (hw : 0 < srcWidth) (hstride : srcWidth * 8 ≤ rows.stride)
    (hstore : ∀ x k, x + 1 < srcWidth → k < 4 → ∀ m,
      Wrote rows.address v (block r n (4 + x * 8 + k * lanes)
        (min lanes (8 * (srcWidth - x - 1) - k * lanes))) m (store x k m)) (m : ℕ → ℚ) :
    Wrote rows.address v (block r n 4 ((srcWidth - 1) * 8)) m
      (forSteps 0 (lanes / 2) (srcWidth - 1) (fun x => forRange 4 fun k => store x k) m) := by
  have hinj : Set.InjOn rows.address {p | p.2 < rows.stride} := Rows.address_injOn le_rfl
  refine forSteps_invariant (fun x m' => Wrote rows.address v (block r n 4 (x * 8)) m m')
    (by omega) (Nat.zero_le _) ?_ fun x _ hx m' h => ?_
  · exact Wrote.refl_of_empty m fun p hp => by
      have h3 := hp.2.2.1
      have h4 := hp.2.2.2
      omega
  · have hsections : Wrote rows.address v
        (block r n (4 + x * 8) (min (4 * lanes) (8 * (srcWidth - x - 1)))) m'
        (forRange 4 (fun k => store x k) m') := by
      refine forRange_invariant (fun k m'' => Wrote rows.address v
        (block r n (4 + x * 8) (min (k * lanes) (8 * (srcWidth - x - 1)))) m' m'') ?_
        fun k hk m'' h' => ?_
      · refine Wrote.refl_of_empty m' fun p hp => ?_
        have h3 := hp.2.2.1
        have h4 := hp.2.2.2
        omega
      · have hnext : (k + 1) * lanes = k * lanes + lanes := Nat.succ_mul k lanes
        refine (h'.trans hinj (block_subset (by omega)) (fun p hp => ?_)
          (hstore x k (by omega) hk m'')).congr ?_
        · have h3 := hp.2.2.1
          have h4 := hp.2.2.2
          show p.2 < rows.stride
          omega
        · ext p
          simp only [block, Set.mem_union, Set.mem_ofPred_eq]
          omega
    have hcolumns := block_columns (by omega) h hsections
    rwa [show x * 8 + min (4 * lanes) (8 * (srcWidth - x - 1)) =
      (x + min (lanes / 2) (srcWidth - 1 - x)) * 8 by omega] at hcolumns

/-- A lane of a vector of source elements, by its index. -/
theorem svtbl_lane {indices : ℕ → ℕ} {q : ℕ} (hindex : indices i = q) (hq : q < lanes)
    (hx : x + q < srcWidth) (srcRow : ℕ) :
    svtbl lanes (Sve.svld1 (svwhilelt x srcWidth) src (srcRow + x)) indices i =
      src (srcRow + (x + q)) := by
  rw [svtbl, hindex, if_pos hq, Sve.svld1, svwhilelt, if_pos (decide_eq_true hx), Nat.add_assoc]

/-- The two source elements of a lane, and its place between them. -/
theorem lanes_source (src : ℕ → ℚ) (hlanes : lanes % 8 = 0) (hbound : lanes ≤ 2 ^ 32) (hk : k < 4)
    (hi : i < lanes) (he : k * lanes + i < 8 * (srcWidth - x - 1)) :
    ∃ q, x + q + 1 < srcWidth ∧ x * 8 + 4 + k * lanes + i = (x + q) * 8 + 4 + i % 8 ∧
      ∀ srcRow, svtbl lanes (Sve.svld1 (svwhilelt x srcWidth) src (srcRow + x))
          (indicesA lanes k) i = src (srcRow + (x + q)) ∧
        svtbl lanes (Sve.svld1 (svwhilelt x srcWidth) src (srcRow + x)) (indicesB lanes k) i =
          src (srcRow + (x + q + 1)) := by
  have hsection : k * lanes % 8 = 0 := by rw [Nat.mul_mod, hlanes, Nat.mul_zero, Nat.zero_mod]
  have hle : k * lanes ≤ 3 * lanes := Nat.mul_le_mul_right lanes (by omega)
  refine ⟨(k * lanes + i) / 8, by omega, by omega, fun srcRow => ⟨?_, ?_⟩⟩
  · exact svtbl_lane (indicesA_eq hlanes hbound hk hi) (by omega) (by omega) srcRow
  · exact svtbl_lane (indicesB_eq hlanes hbound hk hi) (by omega) (by omega) srcRow

/-- `resize_8x8_f32_sve256plus_sc`. -/
theorem sve256plus_writes (hlanes : lanes % 8 = 0) (hpos : 0 < lanes) (hbound : lanes ≤ 2 ^ 32)
    (hw : 0 < srcWidth) (hstride : srcWidth * 8 ≤ rows.stride) :
    Writes rows src srcWidth (Sve256Plus.processEdgeRow src srcWidth lanes rows.stride)
      (Sve256Plus.processRow src srcWidth lanes rows.stride) := by
  refine ⟨fun v srcRow r m hv => ?_, fun v srcRow0 srcRow1 r m hv => ?_⟩
  · have hsides := edgeSides_wrote hw hstride hv
    have hmiddle := sections_wrote (r := r) (n := 4) (v := v) (fun x k => forRange 4 fun j m =>
        Sve.svst1 lanes (svwhilelt (k * lanes) (8 * (srcWidth - x - 1))) m
          (rows.address (r, 0) + x * 8 + 4 + j * rows.stride + k * lanes)
          (indexAndLerp1d lanes k (Sve.svld1 (svwhilelt x srcWidth) src (srcRow + x))))
      hlanes hpos hw hstride fun x k hx hk m => block_rows (by omega) (fun j hj m =>
        svst1_wrote (Scalable.leading_whilelt_min _ _) (by simp only [Rows.address]; ring)
          (fun i hi => by
            obtain ⟨q, hq, hcolumn, hsource⟩ := lanes_source src hlanes hbound hk (i := i)
              (by omega) (show k * lanes + i < 8 * (srcWidth - x - 1) by omega)
            rw [hv j hj _ (by omega), Nat.add_comm 4, hcolumn, line_middle _ hq (by omega)]
            show svtbl lanes _ _ i * Sve256Plus.coeffsA i +
              svtbl lanes _ _ i * Sve256Plus.coeffsB i = _
            rw [(hsource srcRow).1, (hsource srcRow).2, coeffsA_eq, coeffsB_eq, lerp]
            ring) m) m
    exact block_pieces hw hstride (hsides m).1 (hmiddle _) (hsides _).2
  · have hsides := gapSides_wrote (show 4 ≤ lanes by omega) hw hstride hv
    have hmiddle := sections_wrote (r := r) (n := 8) (v := v) (fun x k m =>
        storeRows lanes (svwhilelt (k * lanes) (8 * (srcWidth - x - 1)))
          (rows.address (r, 0) + (x * 8 + 4) + k * lanes) rows.stride
          (indexAndLerp2d lanes k (Sve.svld1 (svwhilelt x srcWidth) src (srcRow0 + x))
            (Sve.svld1 (svwhilelt x srcWidth) src (srcRow1 + x)))
          (indexAndLerp2d lanes k (Sve.svld1 (svwhilelt x srcWidth) src (srcRow1 + x))
            (Sve.svld1 (svwhilelt x srcWidth) src (srcRow0 + x))) m)
      hlanes hpos hw hstride fun x k hx hk m => by
        have hlane : ∀ i, i < min lanes (8 * (srcWidth - x - 1) - k * lanes) →
            i < lanes ∧ k * lanes + i < 8 * (srcWidth - x - 1) := fun i hi => by omega
        -- The four samples around an element.
        refine storeRows_wrote
          (fun i => lerp (i % 8) (svtbl lanes (Sve.svld1 (svwhilelt x srcWidth) src (srcRow0 + x))
              (indicesA lanes k) i)
            (svtbl lanes (Sve.svld1 (svwhilelt x srcWidth) src (srcRow0 + x)) (indicesB lanes k) i))
          (fun i => lerp (i % 8) (svtbl lanes (Sve.svld1 (svwhilelt x srcWidth) src (srcRow1 + x))
              (indicesA lanes k) i)
            (svtbl lanes (Sve.svld1 (svwhilelt x srcWidth) src (srcRow1 + x)) (indicesB lanes k) i))
          (Scalable.leading_whilelt_min _ _) (by omega) (by simp only [Rows.address]; ring)
          (fun j hj i hi => ?_) (fun i hi => ?_) (fun i hi => ?_) m
        · obtain ⟨q, hq, hcolumn, hsource⟩ := lanes_source src hlanes hbound hk
            (hlane i hi).1 (hlane i hi).2
          rw [Nat.add_comm 4, hcolumn, gap_value hq (by omega) hj hv, (hsource srcRow0).1,
            (hsource srcRow0).2, (hsource srcRow1).1, (hsource srcRow1).2]
        · rw [← lerp2d_eq, ← coeffsA_eq, ← coeffsB_eq]
          rfl
        · rw [lerp_swap, ← lerp2d_eq, ← coeffsA_eq, ← coeffsB_eq]
          rfl
    exact block_pieces hw hstride (hsides m).1 (hmiddle _) (hsides _).2

end

/-! ### The three kernels -/

/-- A stripe of a kernel: `srcPtr`, `srcStride`, `srcHeight`, `yBegin`, `yEnd`, `dst` and
`dstStride`. -/
abbrev Kernel := ℕ → ℕ → ℕ → ℕ → ℕ → ℕ → ℕ → (ℕ → ℚ) → KleidicvError × (ℕ → ℚ)

/-- Neon, SVE with four lanes, and SVE with `lanes`. -/
def kernels (src : ℕ → ℚ) (srcWidth lanes : ℕ) : List Kernel :=
  [resize8x8F32Neon src srcWidth, resize8x8F32Sve128Sc src srcWidth,
    resize8x8F32Sve256plusSc src srcWidth lanes]

/-- Every element of the destination is the interpolation of the source, and nothing else was
changed. -/
structure Enlarged (rows : Rows) (src : ℕ → ℚ) (srcPtr srcStride srcWidth srcHeight : ℕ)
    (m m' : ℕ → ℚ) : Prop where
  elements : ∀ r < srcHeight * 8, ∀ c < srcWidth * 8,
    m' (rows.address (r, c)) = enlarged src srcPtr srcStride srcWidth srcHeight (r, c)
  frame : ∀ a, (∀ r < srcHeight * 8, ∀ c < srcWidth * 8, rows.address (r, c) ≠ a) → m' a = m a

section

variable {rows : Rows} {src : ℕ → ℚ} {srcPtr srcStride srcWidth srcHeight lanes : ℕ}

/-- `resize_8x8_f32`. -/
theorem neon_writes (hw : 0 < srcWidth) (hstride : srcWidth * 8 ≤ rows.stride) :
    Writes rows src srcWidth
      (fun srcRow dstRow =>
        Resize8x8F32.processEdgeRow exact src srcWidth srcRow dstRow rows.stride)
      (fun srcRow0 srcRow1 dstRow0 =>
        Resize8x8F32.processRow exact src srcWidth srcRow0 srcRow1 dstRow0 rows.stride) :=
  ⟨fun _ _ _ m hv => neonEdge_wrote hw hstride hv m,
    fun _ _ _ _ m hv => neonRow_wrote hw hstride hv m⟩

/-- A kernel is its stripes. -/
theorem kernel_writes (hw : 0 < srcWidth) (hstride : srcWidth * 8 ≤ rows.stride) (h8 : 8 ≤ lanes)
    (hpow : ∃ k, lanes = 2 ^ k) (hbound : lanes ≤ 2 ^ 32) {kernel : Kernel}
    (hkernel : kernel ∈ kernels src srcWidth lanes) :
    ∃ processEdgeRow processRow, Writes rows src srcWidth processEdgeRow processRow ∧
      ∀ srcPtr srcStride srcHeight yBegin yEnd m,
        kernel srcPtr srcStride srcHeight yBegin yEnd rows.ptr rows.stride m =
          (.ok, stripeOf processEdgeRow processRow srcPtr srcStride srcHeight yBegin yEnd rows.ptr
            rows.stride m) := by
  have hlanes : lanes % 8 = 0 := by
    obtain ⟨k, rfl⟩ := hpow
    have hk : 3 ≤ k :=
      (Nat.pow_le_pow_iff_right (by decide : 1 < 2)).mp (show 2 ^ 3 ≤ 2 ^ k from h8)
    exact Nat.mod_eq_zero_of_dvd (pow_dvd_pow 2 hk)
  simp only [kernels, List.mem_cons, List.not_mem_nil, or_false] at hkernel
  obtain rfl | rfl | rfl := hkernel
  · exact ⟨_, _, neon_writes hw hstride, fun _ _ _ _ _ _ => rfl⟩
  · exact ⟨_, _, sve128_writes hw hstride, fun _ _ _ _ _ _ => rfl⟩
  · exact ⟨_, _, sve256plus_writes hlanes (by omega) hbound hw hstride, fun _ _ _ _ _ _ => rfl⟩

end

/-- **The resize by 8 of `float` images**: the three kernels, and every cut of the gaps between
rows into stripes, give the interpolation of the source.  The wide kernel has a power of two of
lanes, which its indices of 32 bits can count. -/
theorem resize8x8F32_agree (rows : Rows) (src : ℕ → ℚ) (srcPtr srcStride : ℕ)
    {srcWidth srcHeight lanes : ℕ} (hw : 0 < srcWidth) (hh : 0 < srcHeight)
    (hstride : srcWidth * 8 ≤ rows.stride) (h8 : 8 ≤ lanes) (hpow : ∃ k, lanes = 2 ^ k)
    (hbound : lanes ≤ 2 ^ 32) (m : ℕ → ℚ) :
    ∃ m', Enlarged rows src srcPtr srcStride srcWidth srcHeight m m' ∧
      ∀ kernel ∈ kernels src srcWidth lanes,
        kernel srcPtr srcStride srcHeight 0 srcHeight rows.ptr rows.stride m = (.ok, m') ∧
        ∀ l, IsPartition (max 1 (srcHeight - 1)) l →
          l.foldl (fun m r => (kernel srcPtr srcStride srcHeight r.1 (min srcHeight (r.2 + 1))
            rows.ptr rows.stride m).2) m = m' := by
  have hwhole : min srcHeight (max 1 (srcHeight - 1) + 1) = srcHeight := by omega
  have hwrites : Writes rows src srcWidth _ _ := neon_writes hw hstride
  have hneon := hwrites.batches srcPtr srcStride hw hh hstride (IsPartition.whole _) m
  refine ⟨_, ⟨fun r hr c hc => hneon.value (r, c) ⟨hr, hc⟩, fun a ha => hneon.frame a ?_⟩,
    fun kernel hkernel => ?_⟩
  · rintro ⟨r, c⟩ ⟨hr, hc⟩
    exact ha r hr c hc
  · obtain ⟨processEdgeRow, processRow, hk, hstripe⟩ :=
      kernel_writes hw hstride h8 hpow hbound hkernel
    refine ⟨?_, fun l hl => ?_⟩
    · have hsame := (hk.batches srcPtr srcStride hw hh hstride (IsPartition.whole _) m).eq_of hneon
      rw [hstripe, ← hsame]
      simp only [List.foldl_cons, List.foldl_nil, hwhole]
    · simp only [hstripe]
      exact (hk.batches srcPtr srcStride hw hh hstride hl m).eq_of hneon

/-- Two rows of two elements, with eight lanes. -/
theorem resize8x8F32_agree_twoByTwo :
    ∃ m', Enlarged ⟨100, 16, 1⟩ (fun a => a) 10 4 2 2 (fun _ => 0) m' ∧
      ∀ kernel ∈ kernels (fun a => a) 2 8, kernel 10 4 2 0 2 100 16 (fun _ => 0) = (.ok, m') := by
  obtain ⟨m', henlarged, hkernels⟩ := resize8x8F32_agree ⟨100, 16, 1⟩ (fun a => a) 10 4 two_pos
    two_pos le_rfl le_rfl ⟨3, rfl⟩ (by decide) fun _ => 0
  exact ⟨m', henlarged, fun kernel hkernel => (hkernels kernel hkernel).1⟩

end Resize8x8F32

end KleidiCV
