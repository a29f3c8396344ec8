/-
Element-wise operations from one image to another.

`apply_operation_by_rows` runs an operation with one source and one destination
over an image: 32 elements at a time through `vector_path`, the rest of each
row through `scalar_path`.  Source and destination may be the same image.

* `Placement` — where the two images may lie;
* `InVectorLane` — which pixels `vector_path` computes;
* `applyOperationByRows_wrote` — what ends up at each destination pixel.
-/
import KleidiCV.Lib.Writes
import KleidiCV.Neon
import KleidiCV.Operations

open Loop

namespace KleidiCV

/-- An operation class with `vector_path` and `scalar_path`. -/
structure UnaryOperation where
  vectorPath : U8x16 → U8x16
  scalarPath : U8 → U8

/-- Source and destination of an image operation: pointers and strides. -/
structure Buffers where
  src : ℕ
  srcStride : ℕ
  dst : ℕ
  dstStride : ℕ

namespace Buffers

/-- The address of a source pixel. -/
def srcAt (b : Buffers) (p : ℕ × ℕ) : ℕ := b.src + p.1 * b.srcStride + p.2

/-- The address of a destination pixel. -/
def dstAt (b : Buffers) (p : ℕ × ℕ) : ℕ := b.dst + p.1 * b.dstStride + p.2

/-- `Rows::at` with `row`. -/
def atRow (b : Buffers) (row : ℕ) : Buffers :=
  { b with src := b.src + row * b.srcStride, dst := b.dst + row * b.dstStride }

end Buffers

/-- `OperationAdapter` over an operation unrolled twice: `load_consecutive`,
`vector_path` on both vectors, `store_consecutive`. -/
def UnaryOperation.adapter (op : UnaryOperation) (b : Buffers) : RowOperation Mem where
  numLanes := 16
  isUnrolledTwice := true
  isUnrolledOnce := false
  tryToAvoidTailLoop := false
  maxVectorsPerBlock := 0
  vectorPath2x := fun row column m =>
    let src0 := vld1qU8 m (b.srcAt (row, column))
    let src1 := vld1qU8 m (b.srcAt (row, column) + 16)
    let res0 := op.vectorPath src0
    let res1 := op.vectorPath src1
    vst1qU8 (vst1qU8 m (b.dstAt (row, column)) res0) (b.dstAt (row, column) + 16) res1
  vectorPath := fun row column m =>
    vst1qU8 m (b.dstAt (row, column)) (op.vectorPath (vld1qU8 m (b.srcAt (row, column))))
  scalarPath := fun row column m =>
    Function.update m (b.dstAt (row, column)) (op.scalarPath (m (b.srcAt (row, column))))
  onBlockFinished := fun _ m => m

/-- Whether both images are `is_continuous`. -/
def Buffers.continuous (b : Buffers) (width : ℕ) : Bool :=
  b.srcStride == width && b.dstStride == width

/-- `apply_operation_by_rows`. -/
def applyOperationByRows (op : UnaryOperation) (b : Buffers) (width height : ℕ) (m : Mem) : Mem :=
  zipRows (b.continuous width) width height (op.adapter b).processRow m

/-- Where the images may lie: destination rows do not overlap, and the source
is the destination itself or shares no byte with it. -/
structure Placement (b : Buffers) (width height : ℕ) : Prop where
  rows : width ≤ b.dstStride ∨ height ≤ 1
  same_or_disjoint : (b.src = b.dst ∧ b.srcStride = b.dstStride) ∨
    ∀ r < height, ∀ c < width, ∀ r' < height, ∀ c' < width, b.dstAt (r, c) ≠ b.srcAt (r', c')

/-- The pixels of an image. -/
def pixels (width height : ℕ) : Set (ℕ × ℕ) := {p | p.1 < height ∧ p.2 < width}

/-- A byte of a pixel lies in the row. -/
theorem pixelByte_lt {x w p k : ℕ} (hx : x < w) (hk : k < p) : x * p + k < w * p := by
  have := Nat.mul_le_mul_right p (Nat.succ_le_of_lt hx)
  rw [Nat.succ_mul] at this
  omega

/-- Row-major positions are determined by their address. -/
theorem eq_of_row_major {stride width : ℕ} {p q : ℕ × ℕ} (hs : width ≤ stride)
    (hp : p.2 < width) (hq : q.2 < width) (h : p.1 * stride + p.2 = q.1 * stride + q.2) :
    p = q := by
  have hrow : p.1 = q.1 := by
    rcases Nat.lt_trichotomy p.1 q.1 with hlt | heq | hlt
    · have := Nat.mul_le_mul_right stride hlt
      rw [Nat.succ_mul] at this
      omega
    · exact heq
    · have := Nat.mul_le_mul_right stride hlt
      rw [Nat.succ_mul] at this
      omega
  rw [hrow] at h
  exact Prod.ext hrow (by omega)

namespace Placement

variable {b : Buffers} {width height : ℕ}

theorem injOn (hb : Placement b width height) : Set.InjOn b.dstAt (pixels width height) := by
  intro p hp q hq h
  simp only [pixels, Set.mem_ofPred_eq, Buffers.dstAt] at hp hq h
  rcases hb.rows with hs | h1
  · exact eq_of_row_major hs hp.2 hq.2 (by omega)
  · have hrow : p.1 = q.1 := by omega
    rw [hrow] at h
    exact Prod.ext hrow (by omega)

/-- A pixel is only overwritten by its own result. -/
theorem eq_of_dstAt_eq_srcAt (hb : Placement b width height) {p q : ℕ × ℕ}
    (hp : p ∈ pixels width height) (hq : q ∈ pixels width height)
    (h : b.dstAt p = b.srcAt q) : p = q := by
  rcases hb.same_or_disjoint with ⟨h1, h2⟩ | hd
  · refine hb.injOn hp hq ?_
    rw [h, Buffers.srcAt, Buffers.dstAt, h1, h2]
  · exact absurd h (hd p.1 hp.1 p.2 hp.2 q.1 hq.1 q.2 hq.2)

end Placement

/-! ### The result of an element-wise operation -/

section

variable {op : UnaryOperation} {b : Buffers} {width height : ℕ} {m m' : Mem} {f : U8 → U8}

/-- The elements of one row from column `begin_` on. -/
def rowPart (row begin_ length : ℕ) : Set (ℕ × ℕ) :=
  {p | p.1 = row ∧ begin_ ≤ p.2 ∧ p.2 < begin_ + length}

theorem rowPart_subset {row begin_ length : ℕ} (hr : row < height) (hl : begin_ + length ≤ width) :
    rowPart row begin_ length ⊆ pixels width height := by
  rintro p ⟨h1, -, h3⟩
  exact ⟨by omega, by omega⟩

theorem rowPart_union (row length more : ℕ) :
    rowPart row 0 length ∪ rowPart row length more = rowPart row 0 (length + more) := by
  ext p
  simp only [rowPart, Set.mem_union, Set.mem_ofPred_eq]
  omega

/-- The value a row leaves at pixel `p`: `f` in vector lanes, `scalar_path` in
the rest. -/
def rowValue (op : UnaryOperation) (b : Buffers) (width : ℕ) (m : Mem) (f : U8 → U8)
    (p : ℕ × ℕ) : U8 :=
  if p.2 < width / 32 * 32 then f (m (b.srcAt p)) else op.scalarPath (m (b.srcAt p))

/-- A source pixel not yet overwritten still has its first value. -/
theorem Placement.read (hb : Placement b width height) {v : ℕ × ℕ → U8} {S : Set (ℕ × ℕ)}
    (h : Wrote b.dstAt v S m m') (hS : S ⊆ pixels width height) {q : ℕ × ℕ}
    (hq : q ∈ pixels width height) (hqS : q ∉ S) : m' (b.srcAt q) = m (b.srcAt q) :=
  h.read fun _ hp heq => hqS (hb.eq_of_dstAt_eq_srcAt (hS hp) hq heq ▸ hp)

/-- Two vectors are loaded, processed and stored. -/
theorem vectorPath2x_wrote (hb : Placement b width height)
    (hf : ∀ x lane, op.vectorPath x lane = f (x lane)) {S : Set (ℕ × ℕ)} {row c : ℕ}
    (hr : row < height) (hc : c + 32 ≤ width / 32 * 32)
    (h : Wrote b.dstAt (rowValue op b width m f) S m m') (hS : S ⊆ pixels width height)
    (hdisj : ∀ p ∈ S, p.1 = row → p.2 < c) :
    Wrote b.dstAt (rowValue op b width m f) (rowPart row c 32) m'
      ((op.adapter b).vectorPath2x row c m') := by
  have hw : width / 32 * 32 ≤ width := Nat.div_mul_le_self _ _
  have hread : ∀ j < 32, m' (b.srcAt (row, c) + j) = m (b.srcAt (row, c + j)) := by
    intro j hj
    have hsrc : b.srcAt (row, c) + j = b.srcAt (row, c + j) := by simp only [Buffers.srcAt]; omega
    rw [hsrc]
    refine hb.read h hS ⟨hr, by simp only; omega⟩ fun hmem => ?_
    have := hdisj _ hmem rfl
    omega
  refine ⟨?_, fun a ha => ?_⟩
  · rintro ⟨r, k⟩ ⟨rfl, hk1, hk2⟩
    simp only at hk1 hk2
    obtain ⟨j, rfl⟩ := Nat.exists_eq_add_of_le hk1
    have hdst : b.dstAt (r, c + j) = b.dstAt (r, c) + j := by simp only [Buffers.dstAt]; omega
    rw [rowValue, if_pos (by simp only; omega), ← hread j (by omega), hdst]
    simp only [UnaryOperation.adapter]
    by_cases hj : j < 16
    · rw [vst1qU8_of_not_mem _ _ (by omega),
        show b.dstAt (r, c) + j = b.dstAt (r, c) + (⟨j, hj⟩ : Fin 16) from rfl, vst1qU8_lane, hf]
      rfl
    · obtain ⟨i, rfl⟩ := Nat.exists_eq_add_of_le (Nat.le_of_not_lt hj)
      rw [← Nat.add_assoc,
        show b.dstAt (r, c) + 16 + i = b.dstAt (r, c) + 16 + (⟨i, by omega⟩ : Fin 16) from rfl,
        vst1qU8_lane, hf]
      simp only [vld1qU8]
      congr 2
      omega
  · have hout : ∀ j < 32, a ≠ b.dstAt (row, c) + j := by
      intro j hj heq
      refine ha (row, c + j) ⟨rfl, by simp only; omega, by simp only; omega⟩ ?_
      simp only [Buffers.dstAt] at heq ⊢
      omega
    have hlo : ¬(b.dstAt (row, c) ≤ a ∧ a < b.dstAt (row, c) + 32) := fun hcon =>
      hout (a - b.dstAt (row, c)) (by omega) (by omega)
    simp only [UnaryOperation.adapter]
    rw [vst1qU8_of_not_mem _ _ (by omega), vst1qU8_of_not_mem _ _ (by omega)]

/-- One element. -/
theorem scalarPath_wrote (hb : Placement b width height) {S : Set (ℕ × ℕ)} {row c : ℕ}
    (hr : row < height) (hc : width / 32 * 32 ≤ c) (hcw : c < width)
    (h : Wrote b.dstAt (rowValue op b width m f) S m m') (hS : S ⊆ pixels width height)
    (hdisj : ∀ p ∈ S, p.1 = row → p.2 < c) :
    Wrote b.dstAt (rowValue op b width m f) (rowPart row c 1) m'
      ((op.adapter b).scalarPath row c m') := by
  have hread : m' (b.srcAt (row, c)) = m (b.srcAt (row, c)) := by
    refine hb.read h hS ⟨hr, hcw⟩ fun hmem => ?_
    have := hdisj _ hmem rfl
    omega
  refine ⟨?_, fun a ha => ?_⟩
  · rintro ⟨r, k⟩ ⟨rfl, hk1, hk2⟩
    simp only at hk1 hk2
    obtain rfl : k = c := by omega
    rw [rowValue, if_neg (by simp only; omega), ← hread]
    exact Function.update_self ..
  · exact Function.update_of_ne (fun heq => ha (row, c) ⟨rfl, le_rfl, Nat.lt_succ_self c⟩ heq.symm)
      _ _

/-- One row: nothing in this row has been written before. -/
theorem processRow_wrote (hb : Placement b width height)
    (hf : ∀ x lane, op.vectorPath x lane = f (x lane)) {S : Set (ℕ × ℕ)} {row : ℕ}
    (hr : row < height) (h : Wrote b.dstAt (rowValue op b width m f) S m m')
    (hS : S ⊆ pixels width height) (hdisj : ∀ p ∈ S, p.1 ≠ row) :
    Wrote b.dstAt (rowValue op b width m f) (rowPart row 0 width) m'
      ((op.adapter b).processRow row width m') := by
  have hw : width / 32 * 32 ≤ width := Nat.div_mul_le_self _ _
  have hlanes : 2 * (op.adapter b).numLanes = 32 := rfl
  -- What is written when the columns below `c` are done.
  have hdone : ∀ {c m''}, c ≤ width →
      Wrote b.dstAt (rowValue op b width m f) (rowPart row 0 c) m' m'' →
      Wrote b.dstAt (rowValue op b width m f) (S ∪ rowPart row 0 c) m m'' := fun hc hm =>
    h.trans hb.injOn hS (rowPart_subset hr (by omega)) hm
  have hbefore : ∀ {c}, ∀ p ∈ S ∪ rowPart row 0 c, p.1 = row → p.2 < c := by
    rintro c p (hp | ⟨-, -, hp⟩) hrow
    · exact absurd hrow (hdisj p hp)
    · omega
  refine processRow_invariant
    (fun c => Wrote b.dstAt (rowValue op b width m f) (rowPart row 0 c) m') rfl rfl ?_ ?_ ?_
  · refine (Wrote.refl m').congr (Set.eq_empty_of_forall_notMem ?_).symm
    rintro p ⟨-, -, hp⟩
    omega
  · intro i hi m'' hm
    rw [hlanes] at hi hm ⊢
    have hi' : i * 32 + 32 ≤ width / 32 * 32 := by
      have := Nat.mul_le_mul_right 32 (Nat.succ_le_of_lt hi)
      omega
    have hstep := vectorPath2x_wrote hb hf hr hi' (hdone (by omega) hm)
      (Set.union_subset hS (rowPart_subset hr (by omega))) hbefore
    refine (hm.trans hb.injOn (rowPart_subset hr (by omega)) (rowPart_subset hr (by omega))
      hstep).congr ?_
    rw [rowPart_union, Nat.succ_mul]
  · intro c hc hcw m'' hm
    have hstep := scalarPath_wrote hb hr hc hcw (hdone hcw.le hm)
      (Set.union_subset hS (rowPart_subset hr (by omega))) hbefore
    refine (hm.trans hb.injOn (rowPart_subset hr (by omega)) (rowPart_subset hr (by omega))
      hstep).congr ?_
    exact rowPart_union row c 1

/-- All rows of an image. -/
theorem rows_wrote (hb : Placement b width height)
    (hf : ∀ x lane, op.vectorPath x lane = f (x lane)) :
    Wrote b.dstAt (rowValue op b width m f) (pixels width height) m
      (forRange height (fun row => (op.adapter b).processRow row width) m) := by
  have key := Wrote.forRange hb.injOn (fun row => rowPart row 0 width)
    (fun row hr => rowPart_subset hr (by omega)) m
    (v := rowValue op b width m f) (f := fun row => (op.adapter b).processRow row width)
    fun row hr m' hm => ?_
  · refine key.congr ?_
    ext p
    simp only [pixels, rowPart, Set.mem_iUnion, Set.mem_ofPred_eq, exists_prop]
    constructor
    · rintro ⟨r, hr, rfl, -, h2⟩
      exact ⟨hr, by omega⟩
    · rintro ⟨h1, h2⟩
      exact ⟨p.1, h1, rfl, by omega, by omega⟩
  · refine processRow_wrote hb hf hr hm (Set.iUnion₂_subset fun j hj => ?_) ?_
    · exact rowPart_subset (hj.trans hr) (by omega)
    · intro p hp hrow
      simp only [Set.mem_iUnion] at hp
      obtain ⟨j, hj, rfl, -⟩ := hp
      omega

/-- The pixels that `vector_path` computes: the whole vectors of a row, or of
the image when the rows are joined. -/
def InVectorLane (b : Buffers) (width height : ℕ) (p : ℕ × ℕ) : Prop :=
  if b.continuous width then p.1 * width + p.2 < width * height / 32 * 32
  else p.2 < width / 32 * 32

instance (b : Buffers) (width height : ℕ) (p : ℕ × ℕ) :
    Decidable (InVectorLane b width height p) := by
  unfold InVectorLane
  infer_instance

/-- The value an operation leaves at pixel `p`. -/
def pixelValue (op : UnaryOperation) (b : Buffers) (width height : ℕ) (m : Mem) (f : U8 → U8)
    (p : ℕ × ℕ) : U8 :=
  if InVectorLane b width height p then f (m (b.srcAt p)) else op.scalarPath (m (b.srcAt p))

/-- Joined rows have the addresses of the rows they are joined from. -/
theorem at_joined (hcont : b.continuous width = true) (p : ℕ × ℕ) :
    b.srcAt (0, p.1 * width + p.2) = b.srcAt p ∧ b.dstAt (0, p.1 * width + p.2) = b.dstAt p := by
  simp only [Buffers.continuous, Bool.and_eq_true, beq_iff_eq] at hcont
  simp only [Buffers.srcAt, Buffers.dstAt, hcont.1, hcont.2]
  omega

theorem joined_mem {p : ℕ × ℕ} (hp : p ∈ pixels width height) :
    (0, p.1 * width + p.2) ∈ pixels (width * height) 1 := by
  refine ⟨Nat.one_pos, ?_⟩
  have h := Nat.mul_le_mul_right width hp.1
  rw [Nat.succ_mul] at h
  have := hp.2
  rw [Nat.mul_comm width height]
  simp only
  omega

theorem exists_joined {q : ℕ × ℕ} (hq : q ∈ pixels (width * height) 1) :
    ∃ p ∈ pixels width height, (0, p.1 * width + p.2) = q := by
  obtain ⟨h1, h2⟩ := hq
  have hw : 0 < width := Nat.pos_of_ne_zero fun h => by simp [h] at h2
  refine ⟨(q.2 / width, q.2 % width), ⟨Nat.div_lt_of_lt_mul h2, Nat.mod_lt _ hw⟩, ?_⟩
  refine Prod.ext (by simp only; omega) ?_
  simp only [Nat.mul_comm _ width, Nat.div_add_mod]

theorem Placement.joined (hb : Placement b width height) (hcont : b.continuous width = true) :
    Placement b (width * height) 1 := by
  refine ⟨.inr le_rfl, hb.same_or_disjoint.imp_right fun hd => ?_⟩
  intro r hr c hc r' hr' c' hc' h
  obtain ⟨p, hp, hpe⟩ := exists_joined (q := (r, c)) ⟨hr, hc⟩
  obtain ⟨q, hq, hqe⟩ := exists_joined (q := (r', c')) ⟨hr', hc'⟩
  rw [← hpe, ← hqe, (at_joined hcont p).2, (at_joined hcont q).1] at h
  exact hd p.1 hp.1 p.2 hp.2 q.1 hq.1 q.2 hq.2 h

/-- **An element-wise operation writes its destination pixels**, each computed
from the source pixel at the same place as it was before the operation, and
nothing else. -/
theorem applyOperationByRows_wrote (hb : Placement b width height)
    (hsize : width * height < sizeMod) (hf : ∀ x lane, op.vectorPath x lane = f (x lane)) :
    Wrote b.dstAt (pixelValue op b width height m f) (pixels width height) m
      (applyOperationByRows op b width height m) := by
  rw [applyOperationByRows, zipRows_eq _ hsize]
  cases hcont : b.continuous width with
  | true =>
    refine (rows_wrote (hb.joined hcont) hf).reindex (fun p => (0, p.1 * width + p.2))
      (fun p hp => ⟨joined_mem hp, (at_joined hcont p).2, ?_⟩) fun q hq => exists_joined hq
    simp only [rowValue, pixelValue, InVectorLane, hcont, if_true, (at_joined hcont p).1]
  | false =>
    refine (rows_wrote hb hf).congr_value fun p _ => ?_
    simp only [rowValue, pixelValue, InVectorLane, hcont, Bool.false_eq_true, if_false]

end

end KleidiCV
