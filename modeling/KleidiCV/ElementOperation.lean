/-
Element-wise operations from one or two images to another, for elements of any size.

An operation computes every pixel of the destination from the pixels at the same place of
its sources: most of a row in vectors, by `vector_path`, the rest by `scalar_path`.  The
paths are functions of the bytes of the pixels; which of them computes a pixel depends on
its place in the row, and rows without gaps are one row.

* `ElementOperation`, `ElementCall` — operations, and their arguments;
* `RowOperation.vectorEnd` — the columns of a row that are computed in vectors;
* `ElementOperation.run_wrote` — what ends up at each byte of the destination.
-/
import KleidiCV.Lib.Overwrite
import KleidiCV.UnaryOperation

open Loop

namespace KleidiCV

/-! ### Rows in vectors -/

namespace RowOperation

variable {σ : Type*} (op : RowOperation σ)

/-- The column behind the last one that is computed in a vector. -/
def vectorEnd (length : ℕ) : ℕ :=
  if op.isUnrolledOnce then
    if op.tryToAvoidTailLoop ∧ op.numLanes ≤ length then length
    else length / op.numLanes * op.numLanes
  else if op.isUnrolledTwice then length / (2 * op.numLanes) * (2 * op.numLanes)
  else 0

theorem vectorEnd_le (length : ℕ) : op.vectorEnd length ≤ length := by
  unfold vectorEnd
  have h1 := Nat.div_mul_le_self length op.numLanes
  have h2 := Nat.div_mul_le_self length (2 * op.numLanes)
  split_ifs <;> omega

theorem pairs_le_vectorEnd (h2 : op.isUnrolledTwice = true) (length : ℕ) :
    length / (2 * op.numLanes) * (2 * op.numLanes) ≤ op.vectorEnd length := by
  have hle : length / (2 * op.numLanes) * 2 ≤ length / op.numLanes := by
    rw [Nat.mul_comm 2, ← Nat.div_div_eq_div_mul]
    exact Nat.div_mul_le_self _ 2
  have hpairs := Nat.mul_le_mul_right op.numLanes hle
  rw [Nat.mul_assoc] at hpairs
  have hwhole := Nat.div_mul_le_self length op.numLanes
  rw [vectorEnd]
  split
  · split
    · exact hpairs.trans hwhole
    · exact hpairs
  · exact le_rfl

variable {op} {row length : ℕ} {s : σ}

/-- Vectors one at a time, from column `c` on; the last one may step back. -/
theorem unrollOnce_invariant (inv : ℕ → σ → Prop) (honce : op.isUnrolledOnce = true)
    (hlanes : 0 < op.numLanes) {c : ℕ} (hc : c ≤ length) (hdvd : op.numLanes ∣ c) (h0 : inv c s)
    (hstep : ∀ i j, i ≤ j → j ≤ i + op.numLanes → (i = j ∨ op.tryToAvoidTailLoop = true) →
      i + op.numLanes ≤ op.vectorEnd length → ∀ s, inv j s →
      inv (i + op.numLanes) (op.vectorPath row i s))
    (hscalar : ∀ i, op.vectorEnd length ≤ i → i < length → ∀ s, inv i s →
      inv (i + 1) (op.scalarPath row i s)) :
    let p := op.unrollOnce row ⟨length - c, op.numLanes, decide (op.numLanes ≤ length)⟩ (c, s)
    inv length (p.1.remaining (op.scalarPath row) p.2) := by
  obtain ⟨q, rfl⟩ := hdvd
  have hrest := Nat.div_add_mod' (length - op.numLanes * q) op.numLanes
  have hlt := Nat.mod_lt (length - op.numLanes * q) hlanes
  have hsplit : length / op.numLanes = q + (length - op.numLanes * q) / op.numLanes := by
    rw [← Nat.mul_add_div hlanes, Nat.add_sub_cancel' hc]
  have hwhole : length / op.numLanes * op.numLanes =
      op.numLanes * q + (length - op.numLanes * q) / op.numLanes * op.numLanes := by
    rw [hsplit, Nat.add_mul, Nat.mul_comm q]
  have hend : op.numLanes * q + (length - op.numLanes * q) / op.numLanes * op.numLanes ≤
      op.vectorEnd length := by
    rw [← hwhole, vectorEnd, if_pos honce]
    split
    · exact Nat.div_mul_le_self _ _
    · exact le_rfl
  have hloop : inv (op.numLanes * q + (length - op.numLanes * q) / op.numLanes * op.numLanes)
      (forRange ((length - op.numLanes * q) / op.numLanes)
        (fun i => op.vectorPath row (op.numLanes * q + i * op.numLanes)) s) := by
    refine forRange_invariant (fun i s => inv (op.numLanes * q + i * op.numLanes) s)
      (by simpa using h0) fun i hi s hs => ?_
    have hle := Nat.mul_le_mul_right op.numLanes (Nat.succ_le_of_lt hi)
    rw [Nat.succ_mul] at hle ⊢
    rw [← Nat.add_assoc]
    exact hstep _ _ le_rfl (Nat.le_add_right _ _) (.inl rfl) (by omega) s hs
  simp only [RowOperation.unrollOnce, unrollNTimes_eq, Nat.one_mul]
  split
  next havoid =>
    simp only [Bool.and_eq_true, decide_eq_true_eq] at havoid
    obtain ⟨⟨havoid, hfull⟩, hne⟩ := havoid
    have hlast : op.vectorEnd length = length := by
      rw [vectorEnd, if_pos honce, if_pos ⟨havoid, hfull⟩]
    rw [Nat.div_self hlanes, Nat.mod_self, forRange_succ, forRange_zero, Nat.zero_mul, Nat.add_zero]
    simp only [LoopUnroll.remaining, ne_eq, not_true_eq_false, if_false]
    have hback : op.numLanes * q + (length - op.numLanes * q) / op.numLanes * op.numLanes -
        (op.numLanes - (length - op.numLanes * q) % op.numLanes) + op.numLanes = length := by
      omega
    have hdone := hstep (op.numLanes * q + (length - op.numLanes * q) / op.numLanes * op.numLanes -
      (op.numLanes - (length - op.numLanes * q) % op.numLanes)) _ (Nat.sub_le _ _) (by omega)
      (.inr havoid) (by omega) _ hloop
    rwa [hback] at hdone
  next htail =>
    have hcovered : (length - op.numLanes * q) % op.numLanes = 0 ∨ op.vectorEnd length =
        op.numLanes * q + (length - op.numLanes * q) / op.numLanes * op.numLanes := by
      by_cases hzero : (length - op.numLanes * q) % op.numLanes = 0
      · exact .inl hzero
      · refine .inr ?_
        rw [vectorEnd, if_pos honce, if_neg, hwhole]
        rintro ⟨havoid, hfull⟩
        simp [havoid, hfull, hzero] at htail
    have hdone := remaining_invariant inv (op.scalarPath row)
      ⟨(length - op.numLanes * q) % op.numLanes, op.numLanes, decide (op.numLanes ≤ length)⟩ hloop
      fun i h1 h2 s hs => hscalar i (by simp only at h2; omega) (by simp only at h2; omega) s hs
    simp only at hdone
    rwa [show op.numLanes * q + (length - op.numLanes * q) / op.numLanes * op.numLanes +
      (length - op.numLanes * q) % op.numLanes = length by omega] at hdone

/-- **A row**, whatever the operation is unrolled to: pairs of vectors, then vectors, then
single elements. -/
theorem processRow_columns (inv : ℕ → σ → Prop) (hlanes : 0 < op.numLanes) (h0 : inv 0 s)
    (htwice : ∀ i, i + 2 * op.numLanes ≤ op.vectorEnd length → ∀ s, inv i s →
      inv (i + 2 * op.numLanes) (op.vectorPath2x row i s))
    (honce : ∀ i j, i ≤ j → j ≤ i + op.numLanes → (i = j ∨ op.tryToAvoidTailLoop = true) →
      i + op.numLanes ≤ op.vectorEnd length → ∀ s, inv j s →
      inv (i + op.numLanes) (op.vectorPath row i s))
    (hscalar : ∀ i, op.vectorEnd length ≤ i → i < length → ∀ s, inv i s →
      inv (i + 1) (op.scalarPath row i s)) :
    inv length (op.processRow row length s) := by
  have hlanes2 : 0 < 2 * op.numLanes := by omega
  have hmod2 := Nat.div_add_mod' length (2 * op.numLanes)
  -- The pairs of vectors.
  have hpairs : op.isUnrolledTwice = true → inv (length / (2 * op.numLanes) * (2 * op.numLanes))
      (forRange (length / (2 * op.numLanes))
        (fun i => op.vectorPath2x row (i * (2 * op.numLanes))) s) := by
    intro h2
    refine forRange_invariant (fun i => inv (i * (2 * op.numLanes))) (by simpa using h0)
      fun i hi s hs => ?_
    have hle := Nat.mul_le_mul_right (2 * op.numLanes) (Nat.succ_le_of_lt hi)
    rw [Nat.succ_mul] at hle ⊢
    exact htwice _ (hle.trans (op.pairs_le_vectorEnd h2 length)) s hs
  cases h1 : op.isUnrolledOnce with
  | true =>
    cases h2 : op.isUnrolledTwice with
    | true =>
      have hrest : length % (2 * op.numLanes) =
          length - length / (2 * op.numLanes) * (2 * op.numLanes) := by omega
      have hdvd : op.numLanes ∣ length / (2 * op.numLanes) * (2 * op.numLanes) :=
        Dvd.dvd.mul_left (Dvd.intro_left 2 rfl) _
      simp only [RowOperation.processRow, h2, h1, LoopUnroll.mk', if_true, unrollNTimes_eq,
        Nat.zero_add, hrest]
      exact unrollOnce_invariant inv h1 hlanes (by omega) hdvd (hpairs h2) honce hscalar
    | false =>
      simp only [RowOperation.processRow, h2, h1, LoopUnroll.mk', if_true, Bool.false_eq_true,
        if_false]
      exact unrollOnce_invariant inv h1 hlanes (Nat.zero_le _) (Nat.dvd_zero _) h0 honce hscalar
  | false =>
    cases h2 : op.isUnrolledTwice with
    | true =>
      have hend : op.vectorEnd length = length / (2 * op.numLanes) * (2 * op.numLanes) := by
        rw [vectorEnd, h1, h2]
        rfl
      have hdone := remaining_invariant inv (op.scalarPath row)
        ⟨length % (2 * op.numLanes), op.numLanes, decide (op.numLanes ≤ length)⟩ (hpairs h2)
        fun i hi hi' s hs => hscalar i (hend ▸ hi) (by simp only at hi'; omega) s hs
      simp only [RowOperation.processRow, h2, h1, LoopUnroll.mk', if_true, unrollNTimes_eq,
        Nat.zero_add, Bool.false_eq_true, if_false]
      simpa only [hmod2] using hdone
    | false =>
      have hend : op.vectorEnd length = 0 := by
        rw [vectorEnd, h1, h2]
        rfl
      have hdone := remaining_invariant inv (op.scalarPath row)
        ⟨length, op.numLanes, decide (op.numLanes ≤ length)⟩ h0
        fun i _ hi' s hs => hscalar i (by omega) (by simp only at hi'; omega) s hs
      simp only [RowOperation.processRow, h2, h1, LoopUnroll.mk', Bool.false_eq_true, if_false]
      simpa only [Nat.zero_add] using hdone

end RowOperation

/-! ### Operations and their arguments -/

/-- A pointer to the first row of an image, and its stride. -/
structure ElementImage where
  ptr : ℕ
  stride : ℕ

/-- An operation with `vector_path` and `scalar_path` on `k` source images; `numLanes` counts
pixels, and `joinsRows` says whether rows are passed through `zip_rows`. -/
structure ElementOperation (k : ℕ) where
  srcSize : ℕ
  srcChannels : ℕ
  dstSize : ℕ
  dstChannels : ℕ
  numLanes : ℕ
  isUnrolledTwice : Bool
  isUnrolledOnce : Bool
  tryToAvoidTailLoop : Bool
  joinsRows : Bool
  vectorPath : (Fin k → Fin (srcChannels * srcSize) → U8) → Fin (dstChannels * dstSize) → U8
  scalarPath : (Fin k → Fin (srcChannels * srcSize) → U8) → Fin (dstChannels * dstSize) → U8
  srcSize_pos : 0 < srcSize
  dst_pos : 0 < dstChannels * dstSize
  numLanes_pos : 0 < numLanes

/-- The arguments of an operation. -/
structure ElementCall (k : ℕ) where
  sources : Fin k → ElementImage
  dst : ElementImage
  width : ℕ
  height : ℕ

namespace ElementOperation

variable {k : ℕ} (op : ElementOperation k) (c : ElementCall k)

/-- The bytes of a pixel. -/
def srcPixel : ℕ := op.srcChannels * op.srcSize

def dstPixel : ℕ := op.dstChannels * op.dstSize

/-- Byte `i` of the pixel of a source at row and column `p`. -/
def srcAt (source : Fin k) (p : ℕ × ℕ) (i : ℕ) : ℕ :=
  (c.sources source).ptr + p.1 * (c.sources source).stride + p.2 * op.srcPixel + i

/-- A byte of a row of the destination. -/
def dstAt (q : ℕ × ℕ) : ℕ := c.dst.ptr + q.1 * c.dst.stride + q.2

/-- The pixels of the sources at row and column `p`. -/
def pixel (m : Mem) (p : ℕ × ℕ) : Fin k → Fin (op.srcChannels * op.srcSize) → U8 :=
  fun source i => m (op.srcAt c source p i)

/-- A path on `count` pixels: all are loaded, computed, and stored. -/
def block (path : (Fin k → Fin (op.srcChannels * op.srcSize) → U8) →
    Fin (op.dstChannels * op.dstSize) → U8) (count row column : ℕ) (m : Mem) : Mem :=
  overwrite m (dstAt c (row, column * op.dstPixel)) (count * op.dstPixel) fun j =>
    path (op.pixel c m (row, column + j / op.dstPixel)) ⟨j % op.dstPixel, Nat.mod_lt _ op.dst_pos⟩

/-- The operation on the columns of its images. -/
def adapter : RowOperation Mem where
  numLanes := op.numLanes
  isUnrolledTwice := op.isUnrolledTwice
  isUnrolledOnce := op.isUnrolledOnce
  tryToAvoidTailLoop := op.tryToAvoidTailLoop
  maxVectorsPerBlock := 0
  vectorPath2x := op.block c op.vectorPath (2 * op.numLanes)
  vectorPath := op.block c op.vectorPath op.numLanes
  scalarPath := op.block c op.scalarPath 1
  onBlockFinished := fun _ m => m

/-- Whether all rows `is_continuous`. -/
def continuous : Bool :=
  decide (∀ source, (c.sources source).stride = c.width * op.srcPixel) &&
    decide (c.dst.stride = c.width * op.dstPixel)

/-- The rows of the images, joined if they can be. -/
def run (m : Mem) : Mem :=
  zipRows (op.joinsRows && op.continuous c) c.width c.height (op.adapter c).processRow m

/-- The bytes of the destination. -/
def bytes : Set (ℕ × ℕ) := pixels (c.width * op.dstPixel) c.height

/-- Where the images may lie: destination rows do not overlap, and a source is the
destination itself or shares no byte with it.  Where vectors step back over columns that
are written, it is not the destination. -/
structure Placement : Prop where
  rows : c.width * op.dstPixel ≤ c.dst.stride ∨ c.height ≤ 1
  same_or_disjoint : ∀ source,
    (c.sources source = c.dst ∧ op.srcPixel = op.dstPixel ∧ op.tryToAvoidTailLoop = false) ∨
      ∀ p ∈ pixels c.width c.height, ∀ i < op.srcPixel, ∀ q ∈ op.bytes c,
        dstAt c q ≠ op.srcAt c source p i

/-- Whether the pixel at row and column `p` is computed in a vector. -/
def InVector (p : ℕ × ℕ) : Prop :=
  if op.joinsRows && op.continuous c then
    p.1 * c.width + p.2 < (op.adapter c).vectorEnd (c.width * c.height)
  else p.2 < (op.adapter c).vectorEnd c.width

instance (p : ℕ × ℕ) : Decidable (op.InVector c p) := by
  unfold InVector
  infer_instance

/-- What the operation leaves at a byte of the destination, for a memory before it. -/
def valueAt (m : Mem) (q : ℕ × ℕ) : U8 :=
  (if op.InVector c (q.1, q.2 / op.dstPixel) then op.vectorPath else op.scalarPath)
    (op.pixel c m (q.1, q.2 / op.dstPixel)) ⟨q.2 % op.dstPixel, Nat.mod_lt _ op.dst_pos⟩

/-! ### The result of a call -/

variable {op c} {m m' : Mem}

theorem Placement.injOn (hb : op.Placement c) : Set.InjOn (dstAt c) (op.bytes c) := by
  intro p hp q hq heq
  simp only [dstAt, Nat.add_assoc, Nat.add_left_cancel_iff] at heq
  rcases hb.rows with hrows | hone
  · exact eq_of_row_major hrows hp.2 hq.2 heq
  · have hrow : p.1 = q.1 := by
      have h1 := hp.1
      have h2 := hq.1
      omega
    rw [hrow] at heq
    exact Prod.ext hrow (by omega)

/-- The source pixels of columns that are not written yet, or of sources that are never
written. -/
theorem Placement.pixel_eq (hb : op.Placement c) {v : ℕ × ℕ → U8} {S : Set (ℕ × ℕ)}
    (h : Wrote (dstAt c) v S m m') (hS : S ⊆ op.bytes c) {p : ℕ × ℕ}
    (hp : p ∈ pixels c.width c.height)
    (hnew : (∀ i < op.dstPixel, (p.1, p.2 * op.dstPixel + i) ∉ S) ∨ op.tryToAvoidTailLoop = true) :
    op.pixel c m' p = op.pixel c m p := by
  funext source i
  refine h.read fun q hq heq => ?_
  rcases hb.same_or_disjoint source with ⟨hsame, hsize, hstay⟩ | hdisjoint
  · rcases hnew with hnew | havoid
    · have hi : (i : ℕ) < op.dstPixel := hsize ▸ i.isLt
      have hmem : (p.1, p.2 * op.dstPixel + i) ∈ op.bytes c := ⟨hp.1, pixelByte_lt hp.2 hi⟩
      have haddr : dstAt c (p.1, p.2 * op.dstPixel + i) = op.srcAt c source p i := by
        rw [dstAt, srcAt, hsame, hsize, Nat.add_assoc _ (p.2 * op.dstPixel)]
      rw [← haddr] at heq
      exact hnew i hi (hb.injOn (hS hq) hmem heq ▸ hq)
    · rw [hstay] at havoid
      contradiction
  · exact hdisjoint p hp i i.isLt q (hS hq) heq

theorem columns_subset {row column count : ℕ} (hrow : row < c.height)
    (hfit : column + count ≤ c.width) :
    rowPart row (column * op.dstPixel) (count * op.dstPixel) ⊆ op.bytes c :=
  rowPart_subset hrow (by rw [← Nat.add_mul]; exact Nat.mul_le_mul_right _ hfit)

/-- One path on columns of a row, where `v` is what the path gives for the first values of
the sources. -/
theorem block_wrote (hb : op.Placement c)
    (path : (Fin k → Fin (op.srcChannels * op.srcSize) → U8) →
      Fin (op.dstChannels * op.dstSize) → U8)
    {v : ℕ × ℕ → U8} {S : Set (ℕ × ℕ)} {row column count : ℕ} (hrow : row < c.height)
    (hfit : column + count ≤ c.width) (h : Wrote (dstAt c) v S m m') (hS : S ⊆ op.bytes c)
    (hnew : (∀ q ∈ S, q.1 = row → q.2 < column * op.dstPixel) ∨ op.tryToAvoidTailLoop = true)
    (hv : ∀ q ∈ rowPart row (column * op.dstPixel) (count * op.dstPixel), v q =
      path (op.pixel c m (row, q.2 / op.dstPixel))
        ⟨q.2 % op.dstPixel, Nat.mod_lt _ op.dst_pos⟩) :
    Wrote (dstAt c) v (rowPart row (column * op.dstPixel) (count * op.dstPixel)) m'
      (op.block c path count row column m') := by
  have hpos : 0 < op.dstPixel := op.dst_pos
  have hpixel : ∀ x, column ≤ x → x < column + count →
      op.pixel c m' (row, x) = op.pixel c m (row, x) := by
    intro x h1 h2
    refine hb.pixel_eq h hS ⟨hrow, by simp only; omega⟩ (hnew.imp_left fun hbefore i _ hmem => ?_)
    have hlt := hbefore _ hmem rfl
    have hle := Nat.mul_le_mul_right op.dstPixel h1
    simp only at hlt
    omega
  refine overwrite_wrote ?_ fun j hj => ⟨(row, column * op.dstPixel + j), ⟨rfl, ?_, ?_⟩, ?_⟩
  · rintro ⟨r, b⟩ hq
    obtain ⟨rfl, h1, h2⟩ := hq
    simp only at h1 h2
    obtain ⟨j, rfl⟩ := Nat.exists_eq_add_of_le h1
    have hdiv : (column * op.dstPixel + j) / op.dstPixel = column + j / op.dstPixel := by
      rw [Nat.add_comm, Nat.add_mul_div_right _ _ hpos, Nat.add_comm]
    have hmod : (column * op.dstPixel + j) % op.dstPixel = j % op.dstPixel := by
      rw [Nat.add_comm, Nat.add_mul_mod_self_right]
    have hlt : j / op.dstPixel < count := Nat.div_lt_of_lt_mul (by rw [Nat.mul_comm]; omega)
    refine ⟨j, by omega, ?_, ?_⟩
    · simp only [dstAt]
      omega
    · rw [hv _ ⟨rfl, h1, h2⟩]
      simp only [hdiv, hmod]
      rw [hpixel (column + j / op.dstPixel) (Nat.le_add_right _ _) (by omega)]
  · exact Nat.le_add_right _ _
  · simp only
    omega
  · simp only [dstAt]
    omega

variable (op c) in
/-- What a row leaves at its bytes, with vectors up to a column. -/
def rowValue (vectorEnd : ℕ) (m : Mem) (q : ℕ × ℕ) : U8 :=
  (if q.2 / op.dstPixel < vectorEnd then op.vectorPath else op.scalarPath)
    (op.pixel c m (q.1, q.2 / op.dstPixel)) ⟨q.2 % op.dstPixel, Nat.mod_lt _ op.dst_pos⟩

/-- A row that is not written yet. -/
theorem processRow_wrote (hb : op.Placement c) {S : Set (ℕ × ℕ)} {row : ℕ} (hrow : row < c.height)
    (h : Wrote (dstAt c) (op.rowValue c ((op.adapter c).vectorEnd c.width) m) S m m')
    (hS : S ⊆ op.bytes c) (hnew : ∀ q ∈ S, q.1 ≠ row) :
    Wrote (dstAt c) (op.rowValue c ((op.adapter c).vectorEnd c.width) m)
      (rowPart row 0 (c.width * op.dstPixel)) m' ((op.adapter c).processRow row c.width m') := by
  have hpos : 0 < op.dstPixel := op.dst_pos
  have hend := (op.adapter c).vectorEnd_le c.width
  have hcolumns : ∀ {x}, x ≤ c.width → rowPart row 0 (x * op.dstPixel) ⊆ op.bytes c := by
    intro x hx
    have hsub : rowPart row (0 * op.dstPixel) (x * op.dstPixel) ⊆ op.bytes c :=
      columns_subset hrow (by omega)
    rwa [Nat.zero_mul] at hsub
  -- The columns before `j` are done; `count` columns from `i` on come next.
  have hstep : ∀ (path : (Fin k → Fin (op.srcChannels * op.srcSize) → U8) →
      Fin (op.dstChannels * op.dstSize) → U8) (i j count : ℕ), i ≤ j → j ≤ i + count →
      (i = j ∨ op.tryToAvoidTailLoop = true) → i + count ≤ c.width →
      (∀ x, i ≤ x → x < i + count →
        (if x < (op.adapter c).vectorEnd c.width then op.vectorPath else op.scalarPath) = path) →
      ∀ m'', Wrote (dstAt c) (op.rowValue c ((op.adapter c).vectorEnd c.width) m)
        (rowPart row 0 (j * op.dstPixel)) m' m'' →
      Wrote (dstAt c) (op.rowValue c ((op.adapter c).vectorEnd c.width) m)
        (rowPart row 0 ((i + count) * op.dstPixel)) m' (op.block c path count row i m'') := by
    intro path i j count hij hji hback hfit hpath m'' hm
    have hsub := Set.union_subset hS (hcolumns (x := j) (by omega))
    have hblock := block_wrote hb path hrow hfit
      (h.trans hb.injOn hS (hcolumns (x := j) (by omega)) hm) hsub ?_ ?_
    · refine (hm.trans hb.injOn (hcolumns (x := j) (by omega)) (columns_subset hrow hfit)
        hblock).congr ?_
      have h1 := Nat.mul_le_mul_right op.dstPixel hij
      have h2 := Nat.mul_le_mul_right op.dstPixel hji
      rw [Nat.add_mul] at h2 ⊢
      ext q
      simp only [rowPart, Set.mem_union, Set.mem_ofPred_eq]
      omega
    · refine hback.imp_left fun heq q hq hqrow => ?_
      subst heq
      rcases hq with hq | ⟨-, -, hq⟩
      · exact absurd hqrow (hnew q hq)
      · omega
    · rintro ⟨r, b⟩ ⟨rfl, h1, h2⟩
      simp only at h1 h2 ⊢
      rw [rowValue, hpath]
      · exact (Nat.le_div_iff_mul_le hpos).mpr h1
      · rw [← Nat.add_mul] at h2
        exact Nat.div_lt_of_lt_mul (by rwa [Nat.mul_comm])
  refine RowOperation.processRow_columns
    (fun x m'' => Wrote (dstAt c) (op.rowValue c ((op.adapter c).vectorEnd c.width) m)
      (rowPart row 0 (x * op.dstPixel)) m' m'') op.numLanes_pos ?_ ?_ ?_ ?_
  · refine Wrote.refl_of_empty m' ?_
    rintro q ⟨-, -, hq⟩
    omega
  · intro i hi m'' hm
    exact hstep _ i i _ le_rfl (Nat.le_add_right _ _) (.inl rfl) (hi.trans hend)
      (fun x _ hx => if_pos (hx.trans_le hi)) m'' hm
  · intro i j hij hji hback hi m'' hm
    exact hstep _ i j _ hij hji hback (hi.trans hend) (fun x _ hx => if_pos (hx.trans_le hi)) m'' hm
  · intro i hi hlt m'' hm
    exact hstep _ i i 1 le_rfl (Nat.le_succ _) (.inl rfl) hlt
      (fun x hx _ => if_neg (by omega)) m'' hm

/-- All rows, one after another. -/
theorem rows_wrote (hb : op.Placement c) (m : Mem) :
    Wrote (dstAt c) (op.rowValue c ((op.adapter c).vectorEnd c.width) m) (op.bytes c) m
      (forRange c.height (fun row => (op.adapter c).processRow row c.width) m) := by
  have hsub : ∀ row < c.height, rowPart row 0 (c.width * op.dstPixel) ⊆ op.bytes c :=
    fun row hrow => rowPart_subset hrow (by omega)
  have hall := Wrote.forRange hb.injOn (fun row => rowPart row 0 (c.width * op.dstPixel)) hsub m
    (v := op.rowValue c ((op.adapter c).vectorEnd c.width) m)
    (f := fun row => (op.adapter c).processRow row c.width) fun row hrow m' hm => ?_
  · refine hall.congr ?_
    ext q
    simp only [bytes, pixels, rowPart, Set.mem_iUnion, Set.mem_ofPred_eq, exists_prop]
    constructor
    · rintro ⟨row, hrow, rfl, -, hq⟩
      exact ⟨hrow, by omega⟩
    · rintro ⟨hrow, hq⟩
      exact ⟨q.1, hrow, rfl, by omega, by omega⟩
  · refine processRow_wrote hb hrow hm (Set.iUnion₂_subset fun j hj => hsub j (hj.trans hrow)) ?_
    intro q hq heq
    simp only [Set.mem_iUnion] at hq
    obtain ⟨j, hj, rfl, -⟩ := hq
    omega

/-! ### Joined rows -/

variable (op c) in
/-- The arguments of the one row that continuous rows make up. -/
def joined : ElementCall k := { c with width := c.width * c.height, height := 1 }

theorem continuous_iff : op.continuous c = true ↔
    (∀ source, (c.sources source).stride = c.width * op.srcPixel) ∧
      c.dst.stride = c.width * op.dstPixel := by
  rw [continuous, Bool.and_eq_true, decide_eq_true_eq, decide_eq_true_eq]

/-- A pixel has the address that it has in the joined row. -/
theorem srcAt_joined (h : op.continuous c = true) (source : Fin k) (p : ℕ × ℕ) (i : ℕ) :
    op.srcAt (joined c) source (0, p.1 * c.width + p.2) i = op.srcAt c source p i := by
  simp only [srcAt, joined, (continuous_iff.mp h).1]
  ring

theorem dstAt_joined (h : op.continuous c = true) (q : ℕ × ℕ) :
    dstAt (joined c) (0, q.1 * (c.width * op.dstPixel) + q.2) = dstAt c q := by
  simp only [dstAt, joined, (continuous_iff.mp h).2]
  ring

theorem bytes_joined : op.bytes (joined c) = pixels (c.width * op.dstPixel * c.height) 1 := by
  rw [bytes, joined]
  simp only
  rw [Nat.mul_right_comm]

theorem Placement.joined (hb : op.Placement c) (h : op.continuous c = true) :
    op.Placement (joined c) := by
  refine ⟨.inr le_rfl, fun source => (hb.same_or_disjoint source).imp_right fun hd => ?_⟩
  intro p hp i hi q hq
  rw [bytes_joined] at hq
  obtain ⟨p', hp', rfl⟩ := exists_joined hp
  obtain ⟨q', hq', rfl⟩ := exists_joined hq
  rw [srcAt_joined h, dstAt_joined h]
  exact hd p' hp' i hi q' hq'

/-- The pixel of a byte, in the joined row. -/
theorem column_joined (q : ℕ × ℕ) :
    (q.1 * (c.width * op.dstPixel) + q.2) / op.dstPixel = q.1 * c.width + q.2 / op.dstPixel ∧
      (q.1 * (c.width * op.dstPixel) + q.2) % op.dstPixel = q.2 % op.dstPixel := by
  have hpos : 0 < op.dstPixel := op.dst_pos
  rw [← Nat.mul_assoc, Nat.add_comm, Nat.add_mul_div_right _ _ hpos, Nat.add_mul_mod_self_right,
    Nat.add_comm]
  exact ⟨rfl, rfl⟩

theorem inVector_of_joined (h : (op.joinsRows && op.continuous c) = true) (p : ℕ × ℕ) :
    op.InVector c p ↔
      p.1 * c.width + p.2 < (op.adapter c).vectorEnd (c.width * c.height) := by
  rw [InVector, if_pos h]

theorem inVector_of_not_joined (h : (op.joinsRows && op.continuous c) = false) (p : ℕ × ℕ) :
    op.InVector c p ↔ p.2 < (op.adapter c).vectorEnd c.width := by
  rw [InVector, h]
  rfl

/-- **An operation writes its destination**: each pixel is computed from the first values of
the source pixels at the same place, and nothing else changes. -/
theorem run_wrote (hb : op.Placement c) (hsize : c.width * c.height < sizeMod) (m : Mem) :
    Wrote (dstAt c) (op.valueAt c m) (op.bytes c) m (op.run c m) := by
  rw [run, zipRows_eq _ hsize]
  cases hjoin : op.joinsRows && op.continuous c with
  | true =>
    have hcont := (Bool.and_eq_true_iff.mp hjoin).2
    have hrow := rows_wrote (hb.joined hcont) m
    rw [bytes_joined] at hrow
    refine hrow.reindex (fun q => (0, q.1 * (c.width * op.dstPixel) + q.2)) (fun q hq => ?_)
      fun q hq => exists_joined hq
    refine ⟨joined_mem hq, dstAt_joined hcont q, ?_⟩
    have hpixel : ∀ p : ℕ × ℕ, op.pixel (ElementOperation.joined c) m (0, p.1 * c.width + p.2) =
        op.pixel c m p := fun p => funext fun source => funext fun i =>
      congrArg m (srcAt_joined hcont source p i)
    simp only [rowValue, valueAt, (column_joined q).1, (column_joined q).2,
      hpixel (q.1, q.2 / op.dstPixel)]
    rw [if_congr (inVector_of_joined hjoin (q.1, q.2 / op.dstPixel)) rfl rfl]
    rfl
  | false =>
    refine (rows_wrote hb m).congr_value fun q _ => ?_
    rw [valueAt, if_congr (inVector_of_not_joined hjoin (q.1, q.2 / op.dstPixel)) rfl rfl]
    rfl

end ElementOperation

end KleidiCV
