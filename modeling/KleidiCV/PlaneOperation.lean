/-
Operations that read and write several images at a time, with pixels of several bytes.

`PlaneOperation` is such an operation as its adapter sees it: paths for two vectors, for one
vector and for a pixel, at pointers into each of the images.  Where the paths copy what a
pixel map says, so does the whole call.

* `Performs.row` — a row, whatever the operation is unrolled to;
* `zipRows_copies` — the images, with their rows joined or not;
* `Performs.mapped` — every byte of them;
* `Mapped.restored` — an operation that undoes another.
-/
import KleidiCV.ElementOperation
import KleidiCV.Lib.Counters
import KleidiCV.Lib.PixelMaps
import KleidiCV.RotateTranspose

open Loop

namespace KleidiCV

/-- An operation on the pixels at pointers into its sources and its destinations. -/
structure PlaneOperation where
  numLanes : ℕ
  isUnrolledTwice : Bool
  vectorPath2x : (ℕ → ℕ) → (ℕ → ℕ) → Mem → Mem
  vectorPath : (ℕ → ℕ) → (ℕ → ℕ) → Mem → Mem
  scalarPath : (ℕ → ℕ) → (ℕ → ℕ) → Mem → Mem

/-- The rows that an operation is applied to. -/
structure PlaneRows where
  srcs : ℕ
  src : ℕ → PixelRows
  dsts : ℕ
  dst : ℕ → PixelRows

/-- Pointers to a pixel of each image. -/
def pointersAt (rows : ℕ → PixelRows) (row column : ℕ) : ℕ → ℕ := fun p =>
  (rows p).base + row * (rows p).stride + column * (rows p).pixel

namespace PlaneOperation

variable (op : PlaneOperation) (r : PlaneRows)

/-- `OperationAdapter`, on the columns of the rows. -/
def adapter : RowOperation Mem where
  numLanes := op.numLanes
  isUnrolledTwice := op.isUnrolledTwice
  isUnrolledOnce := !op.isUnrolledTwice
  tryToAvoidTailLoop := false
  maxVectorsPerBlock := 0
  vectorPath2x := fun row column =>
    op.vectorPath2x (pointersAt r.src row column) (pointersAt r.dst row column)
  vectorPath := fun row column =>
    op.vectorPath (pointersAt r.src row column) (pointersAt r.dst row column)
  scalarPath := fun row column =>
    op.scalarPath (pointersAt r.src row column) (pointersAt r.dst row column)
  onBlockFinished := fun _ m => m

end PlaneOperation

namespace PlaneRows

variable (r : PlaneRows)

/-- Whether all rows `is_continuous`. -/
def continuous (width : ℕ) : Bool :=
  (List.range r.srcs).all (fun p => (r.src p).stride == width * (r.src p).pixel) &&
    (List.range r.dsts).all fun p => (r.dst p).stride == width * (r.dst p).pixel

/-- The images in each other's place. -/
def swap : PlaneRows := ⟨r.dsts, r.dst, r.srcs, r.src⟩

/-- The formats of the images. -/
def srcFormat : PixelFormat := ⟨r.srcs, fun p => (r.src p).pixel⟩

def dstFormat : PixelFormat := ⟨r.dsts, fun p => (r.dst p).pixel⟩

end PlaneRows

/-- `apply_operation_by_rows`. -/
def PlaneOperation.applyOperationByRows (op : PlaneOperation) (r : PlaneRows) (width height : ℕ) :
    Mem → Mem :=
  zipRows (r.continuous width) width height (op.adapter r).processRow

/-- Pixels without gaps from a pointer on. -/
def pixelsFrom (pixel ptr : ℕ → ℕ) : PixelPlaces := fun p x => ptr p + x * pixel p

/-- The pixels of rows of `width` pixels, numbered row by row. -/
def rowPlaces (rows : ℕ → PixelRows) (width : ℕ) : PixelPlaces := fun p x =>
  pointersAt rows (x / width) (x % width) p

/-- The paths of an operation copy what the map says, on pixels that do not overlap, or also
in place. -/
structure PlaneOperation.Performs (op : PlaneOperation) (inPlace : Prop) (f : PixelMap U8)
    (S D : PixelFormat) : Prop where
  between : f.Between S D
  lanes_pos : 0 < op.numLanes
  vectorPath2x : ∀ src dst m,
    PixelsApart inPlace S D (pixelsFrom S.pixel src) (pixelsFrom D.pixel dst) (2 * op.numLanes) →
      Copies f D (pixelsFrom S.pixel src) (pixelsFrom D.pixel dst) 0 (2 * op.numLanes) m
        (op.vectorPath2x src dst m)
  vectorPath : ∀ src dst m,
    PixelsApart inPlace S D (pixelsFrom S.pixel src) (pixelsFrom D.pixel dst) op.numLanes →
      Copies f D (pixelsFrom S.pixel src) (pixelsFrom D.pixel dst) 0 op.numLanes m
        (op.vectorPath src dst m)
  scalarPath : ∀ src dst m,
    PixelsApart inPlace S D (pixelsFrom S.pixel src) (pixelsFrom D.pixel dst) 1 →
      Copies f D (pixelsFrom S.pixel src) (pixelsFrom D.pixel dst) 0 1 m
        (op.scalarPath src dst m)

section

variable {op : PlaneOperation} {r : PlaneRows} {f : PixelMap U8} {width height : ℕ}
  {inPlace : Prop}

/-- Pixels from a column on. -/
theorem pixelsFrom_add (rows : ℕ → PixelRows) (row i : ℕ) :
    pixelsFrom (fun p => (rows p).pixel) (pointersAt rows row i) =
      fun p x => pixelsFrom (fun p => (rows p).pixel) (pointersAt rows row 0) p (i + x) := by
  funext p x
  simp only [pixelsFrom, pointersAt, Nat.add_mul, Nat.zero_mul, Nat.add_zero]
  omega

/-- Pointers that are advanced by some pixels. -/
theorem pixelsFrom_advanced (pixel ptr : ℕ → ℕ) (n : ℕ) :
    pixelsFrom pixel (fun p => ptr p + n * pixel p) = fun p x => pixelsFrom pixel ptr p (n + x) := by
  funext p x
  simp only [pixelsFrom, Nat.add_mul]
  omega

/-- A step on some pixels, and again on the pixels after them. -/
theorem copies_twice {S D : PixelFormat} (hbetween : f.Between S D) {n : ℕ}
    {step : (ℕ → ℕ) → (ℕ → ℕ) → Mem → Mem}
    (hstep : ∀ src dst m,
      PixelsApart inPlace S D (pixelsFrom S.pixel src) (pixelsFrom D.pixel dst) n →
        Copies f D (pixelsFrom S.pixel src) (pixelsFrom D.pixel dst) 0 n m (step src dst m))
    {src dst : ℕ → ℕ}
    (hapart : PixelsApart inPlace S D (pixelsFrom S.pixel src) (pixelsFrom D.pixel dst) (2 * n))
    (m : Mem) :
    Copies f D (pixelsFrom S.pixel src) (pixelsFrom D.pixel dst) 0 (2 * n) m
      (step (fun p => src p + n * S.pixel p) (fun p => dst p + n * D.pixel p) (step src dst m)) := by
  have hfirst := hstep src dst m (hapart.mono (by omega))
  have hrest := hapart.from (show n + n ≤ 2 * n by omega)
  rw [← pixelsFrom_advanced, ← pixelsFrom_advanced] at hrest
  have hsecond := hstep _ _ (step src dst m) hrest
  rw [pixelsFrom_advanced, pixelsFrom_advanced] at hsecond
  rw [Nat.two_mul] at hapart ⊢
  exact hfirst.trans hbetween hapart (Nat.zero_le n) (Nat.le_add_right n n) le_rfl hsecond.shift

/-- Pixels of `k` bytes, stored as one range. -/
theorem copies_of_range {S : PixelFormat} {n k : ℕ} (hk : 0 < k) {src dst : ℕ → ℕ} {g : ℕ → U8}
    (hapart : PixelsApart inPlace S ⟨1, fun _ => k⟩ (pixelsFrom S.pixel src)
      (pixelsFrom (fun _ => k) dst) n) (m : Mem)
    (hg : ∀ t < n * k, g t =
      f.value (fun q j => m (pixelsFrom S.pixel src q (t / k) + j)) 0 (t % k)) :
    Copies f ⟨1, fun _ => k⟩ (pixelsFrom S.pixel src) (pixelsFrom (fun _ => k) dst) 0 n m
      (overwrite m (dst 0) (n * k) g) := by
  show Copies _ _ _ _ _ _ _ (forRange 1 (fun _ m' => overwrite m' (dst 0) (n * k) g) m)
  refine Copies.of_ranges (fun _ t => (0, t / k, t % k)) hapart m ?_ ?_ ?_
  · intro r _ t ht
    refine ⟨⟨Nat.one_pos, ⟨Nat.zero_le _, Nat.div_lt_of_lt_mul ?_⟩, Nat.mod_lt t hk⟩, ?_⟩
    · rwa [Nat.mul_comm]
    · simp only [byteAt, pixelsFrom, Nat.add_assoc, Nat.div_add_mod']
  · exact fun r _ t ht m' _ => hg t ht
  · rintro ⟨p, x, i⟩ ⟨hp, ⟨-, hx⟩, hi⟩
    obtain rfl : p = 0 := Nat.lt_one_iff.mp hp
    simp only at hi hx
    refine ⟨0, Nat.one_pos, x * k + i, ?_, ?_⟩
    · have hle := Nat.mul_le_mul_right k (Nat.succ_le_of_lt hx)
      rw [Nat.succ_mul] at hle
      exact (Nat.add_lt_add_left hi _).trans_le hle
    · rw [Nat.mul_comm x, Nat.mul_add_div hk, Nat.div_eq_of_lt hi, Nat.mul_add_mod,
        Nat.mod_eq_of_lt hi, Nat.add_zero]

/-- A step on the pixels of a row that follow those that are done. -/
theorem copies_step (hbetween : f.Between r.srcFormat r.dstFormat) {row length i k : ℕ}
    (hapart : PixelsApart inPlace r.srcFormat r.dstFormat
      (pixelsFrom r.srcFormat.pixel (pointersAt r.src row 0))
      (pixelsFrom r.dstFormat.pixel (pointersAt r.dst row 0)) length)
    (hi : i + k ≤ length) {step : Mem → Mem} {m s : Mem}
    (hstep : PixelsApart inPlace r.srcFormat r.dstFormat
        (pixelsFrom r.srcFormat.pixel (pointersAt r.src row i))
        (pixelsFrom r.dstFormat.pixel (pointersAt r.dst row i)) k →
      Copies f r.dstFormat (pixelsFrom r.srcFormat.pixel (pointersAt r.src row i))
        (pixelsFrom r.dstFormat.pixel (pointersAt r.dst row i)) 0 k s (step s))
    (hs : Copies f r.dstFormat (pixelsFrom r.srcFormat.pixel (pointersAt r.src row 0))
      (pixelsFrom r.dstFormat.pixel (pointersAt r.dst row 0)) 0 i m s) :
    Copies f r.dstFormat (pixelsFrom r.srcFormat.pixel (pointersAt r.src row 0))
      (pixelsFrom r.dstFormat.pixel (pointersAt r.dst row 0)) 0 (i + k) m (step s) := by
  rw [PlaneRows.srcFormat, PlaneRows.dstFormat, pixelsFrom_add r.src, pixelsFrom_add r.dst] at hstep
  exact Copies.trans hbetween hapart (Nat.zero_le i) (Nat.le_add_right i k) hi hs
    (hstep (hapart.from hi)).shift

/-- Pixels of a row. -/
theorem rowPlaces_add (rows : ℕ → PixelRows) (row p : ℕ) {x : ℕ} (hx : x < width) :
    rowPlaces rows width p (width * row + x) =
      pixelsFrom (fun p => (rows p).pixel) (pointersAt rows row 0) p x := by
  have hdiv : (width * row + x) / width = row := by
    rw [Nat.mul_add_div (by omega), Nat.div_eq_of_lt hx, Nat.add_zero]
  have hmod : (width * row + x) % width = x := by
    rw [Nat.mul_add_mod, Nat.mod_eq_of_lt hx]
  simp only [rowPlaces, pixelsFrom, pointersAt, hdiv, hmod, Nat.zero_mul, Nat.add_zero]

/-- Rows without gaps are one row. -/
theorem rowPlaces_joined {rows : ℕ → PixelRows} {p : ℕ}
    (hstride : (rows p).stride = width * (rows p).pixel) (x : ℕ) :
    rowPlaces rows width p x =
      pixelsFrom (fun p => (rows p).pixel) (pointersAt rows 0 0) p x := by
  have hx : x / width * (width * (rows p).pixel) + x % width * (rows p).pixel =
      x * (rows p).pixel := by
    rw [← Nat.mul_assoc, ← Nat.add_mul, Nat.div_add_mod']
  simp only [rowPlaces, pixelsFrom, pointersAt, hstride, Nat.zero_mul, Nat.add_zero]
  omega

/-- Each row ends where the next one begins. -/
theorem PlaneRows.strides_of_continuous (h : r.continuous width = true) :
    (∀ p < r.srcs, (r.src p).stride = width * (r.src p).pixel) ∧
      ∀ p < r.dsts, (r.dst p).stride = width * (r.dst p).pixel := by
  rw [PlaneRows.continuous, Bool.and_eq_true, List.all_eq_true, List.all_eq_true] at h
  exact ⟨fun p hp => eq_of_beq (h.1 p (List.mem_range.mpr hp)), fun p hp =>
    eq_of_beq (h.2 p (List.mem_range.mpr hp))⟩

namespace PlaneOperation

/-- **A row**, from its first pixel on. -/
theorem Performs.row (h : op.Performs inPlace f r.srcFormat r.dstFormat) {row length : ℕ}
    (hapart : PixelsApart inPlace r.srcFormat r.dstFormat
      (pixelsFrom r.srcFormat.pixel (pointersAt r.src row 0))
      (pixelsFrom r.dstFormat.pixel (pointersAt r.dst row 0)) length) (m : Mem) :
    Copies f r.dstFormat (pixelsFrom r.srcFormat.pixel (pointersAt r.src row 0))
      (pixelsFrom r.dstFormat.pixel (pointersAt r.dst row 0)) 0 length m
      ((op.adapter r).processRow row length m) := by
  have hend : (op.adapter r).vectorEnd length ≤ length := (op.adapter r).vectorEnd_le length
  refine RowOperation.processRow_columns
    (fun i s => Copies f r.dstFormat (pixelsFrom r.srcFormat.pixel (pointersAt r.src row 0))
      (pixelsFrom r.dstFormat.pixel (pointersAt r.dst row 0)) 0 i m s)
    h.lanes_pos (Copies.refl m le_rfl) ?_ ?_ ?_
  · intro i hi s hs
    exact copies_step h.between hapart (hi.trans hend) (h.vectorPath2x _ _ s) hs
  · rintro i j - - hij hi s hs
    obtain rfl : i = j := hij.resolve_right Bool.false_ne_true
    exact copies_step h.between hapart (hi.trans hend) (h.vectorPath _ _ s) hs
  · intro i _ hi s hs
    exact copies_step h.between hapart hi (h.scalarPath _ _ s) hs

end PlaneOperation

/-- **The images**, with their rows joined or not. -/
theorem zipRows_copies {processRow : ℕ → ℕ → Mem → Mem} (hbetween : f.Between r.srcFormat r.dstFormat)
    (hrow : ∀ row length m, PixelsApart inPlace r.srcFormat r.dstFormat
        (pixelsFrom r.srcFormat.pixel (pointersAt r.src row 0))
        (pixelsFrom r.dstFormat.pixel (pointersAt r.dst row 0)) length →
      Copies f r.dstFormat (pixelsFrom r.srcFormat.pixel (pointersAt r.src row 0))
        (pixelsFrom r.dstFormat.pixel (pointersAt r.dst row 0)) 0 length m
        (processRow row length m))
    (hsize : width * height < sizeMod)
    (hapart : PixelsApart inPlace r.srcFormat r.dstFormat (rowPlaces r.src width)
      (rowPlaces r.dst width) (width * height)) (m : Mem) :
    Copies f r.dstFormat (rowPlaces r.src width) (rowPlaces r.dst width) 0 (width * height) m
      (zipRows (r.continuous width) width height processRow m) := by
  rw [zipRows_eq _ hsize]
  split
  · rename_i hcontinuous
    obtain ⟨hsrc, hdst⟩ := r.strides_of_continuous hcontinuous
    exact (hrow 0 _ m (hapart.congr (fun p hp x _ => (rowPlaces_joined (hsrc p hp) x).symm)
      fun p hp x _ => (rowPlaces_joined (hdst p hp) x).symm)).congr hbetween
        (fun p hp x _ _ => rowPlaces_joined (hsrc p hp) x)
        fun p hp x _ _ => rowPlaces_joined (hdst p hp) x
  · refine forRange_invariant (fun row s => Copies f r.dstFormat (rowPlaces r.src width)
      (rowPlaces r.dst width) 0 (width * row) m s) (Copies.refl m le_rfl) fun row hlt s hs => ?_
    have hle : width * row + width ≤ width * height := Nat.mul_le_mul_left width hlt
    have hpart := (hapart.from hle).congr (fun p _ x hx => (rowPlaces_add r.src row p hx).symm)
      fun p _ x hx => (rowPlaces_add r.dst row p hx).symm
    have hdone := ((hrow row width s hpart).congr hbetween
      (fun p _ x _ hx => rowPlaces_add r.src row p hx)
      fun p _ x _ hx => rowPlaces_add r.dst row p hx).shift
    exact hs.trans hbetween hapart (Nat.zero_le _) (Nat.le_add_right _ _) hle hdone

/-! ### Images in memory -/

/-- The bytes of an image of `height` rows of `width` pixels. -/
def PixelRows.bytes (rows : PixelRows) (width height : ℕ) : Set ℕ :=
  {a | ∃ y < height, ∃ j < width * rows.pixel, rows.base + y * rows.stride + j = a}

namespace PlaneRows

/-- Where images may be: rows of a destination do not overlap, and no two images do, unless
both are sources or one is to be changed in place. -/
structure Placed (r : PlaneRows) (inPlace : Prop) (width height : ℕ) : Prop where
  rows : ∀ p < r.dsts, width * (r.dst p).pixel ≤ (r.dst p).stride ∨ height ≤ 1
  planes : ∀ p < r.dsts, ∀ p' < r.dsts, p ≠ p' →
    Disjoint ((r.dst p).bytes width height) ((r.dst p').bytes width height)
  apart : ∀ q < r.srcs, ∀ p < r.dsts,
    Disjoint ((r.src q).bytes width height) ((r.dst p).bytes width height) ∨
      inPlace ∧ r.src q = r.dst p

/-- From `m` to `m'`, every pixel of the destinations became what `f` makes of the pixels in
its place, and nothing else was written. -/
structure Mapped (r : PlaneRows) (f : PixelMap U8) (width height : ℕ) (m m' : Mem) : Prop where
  pixel : ∀ p < r.dsts, ∀ y < height, ∀ x < width, ∀ i < (r.dst p).pixel,
    m' ((r.dst p).byteAt (y, x, i)) = f.value (fun q j => m ((r.src q).byteAt (y, x, j))) p i
  frame : ∀ a, (∀ p < r.dsts, a ∉ (r.dst p).bytes width height) → m' a = m a

end PlaneRows

theorem PixelRows.byteAt_mem {rows : PixelRows} {y x i : ℕ} (hy : y < height) (hx : x < width)
    (hi : i < rows.pixel) : rows.byteAt (y, x, i) ∈ rows.bytes width height := by
  have hle := Nat.mul_le_mul_right rows.pixel (Nat.succ_le_of_lt hx)
  rw [Nat.succ_mul] at hle
  exact ⟨y, hy, x * rows.pixel + i, (Nat.add_lt_add_left hi _).trans_le hle, by
    simp only [PixelRows.byteAt, Nat.add_assoc]⟩

/-- Every byte belongs to a pixel. -/
theorem PixelRows.exists_byteAt {rows : PixelRows} {a : ℕ} (ha : a ∈ rows.bytes width height) :
    ∃ y < height, ∃ x < width, ∃ i < rows.pixel, rows.byteAt (y, x, i) = a := by
  obtain ⟨y, hy, j, hj, rfl⟩ := ha
  have hpixel : 0 < rows.pixel := Nat.pos_of_ne_zero fun h0 => by
    rw [h0, Nat.mul_zero] at hj
    omega
  refine ⟨y, hy, j / rows.pixel, Nat.div_lt_of_lt_mul (by rwa [Nat.mul_comm]), j % rows.pixel,
    Nat.mod_lt j hpixel, ?_⟩
  simp only [PixelRows.byteAt, Nat.add_assoc, Nat.div_add_mod']

/-- The byte of a numbered pixel. -/
theorem byteAt_rowPlaces (rows : ℕ → PixelRows) (p : ℕ) {y x : ℕ} (hx : x < width) (i : ℕ) :
    rowPlaces rows width p (width * y + x) + i = (rows p).byteAt (y, x, i) := by
  rw [rowPlaces_add rows y p hx]
  simp only [pixelsFrom, pointersAt, PixelRows.byteAt, Nat.zero_mul, Nat.add_zero]

/-- A pixel's row and column. -/
theorem exists_row {x : ℕ} (hx : x < width * height) :
    x / width < height ∧ x % width < width ∧ width * (x / width) + x % width = x := by
  have hwidth : 0 < width := Nat.pos_of_ne_zero fun h0 => by
    rw [h0, Nat.zero_mul] at hx
    omega
  exact ⟨Nat.div_lt_of_lt_mul hx, Nat.mod_lt x hwidth, Nat.div_add_mod x width⟩

/-- Rows that do not overlap have every byte once. -/
theorem PixelRows.byteAt_inj {rows : PixelRows}
    (hrows : width * rows.pixel ≤ rows.stride ∨ height ≤ 1) {y x i y' x' i' : ℕ}
    (hy : y < height) (hx : x < width) (hi : i < rows.pixel) (hy' : y' < height) (hx' : x' < width)
    (hi' : i' < rows.pixel) (heq : rows.byteAt (y, x, i) = rows.byteAt (y', x', i')) :
    y = y' ∧ x = x' ∧ i = i' := by
  have hle := Nat.mul_le_mul_right rows.pixel (Nat.succ_le_of_lt hx)
  have hle' := Nat.mul_le_mul_right rows.pixel (Nat.succ_le_of_lt hx')
  rw [Nat.succ_mul] at hle hle'
  simp only [PixelRows.byteAt, Nat.add_assoc, Nat.mul_comm y, Nat.mul_comm y', Nat.mul_comm x,
    Nat.mul_comm x'] at heq
  rw [Nat.mul_comm] at hle hle'
  have hsum := Nat.add_left_cancel heq
  obtain ⟨rfl, hbyte⟩ : y = y' ∧ rows.pixel * x + i = rows.pixel * x' + i' := by
    rcases hrows with hstride | hone
    · exact Counts.eq_of_mul_add_eq (by omega) (by omega) hsum
    · obtain rfl : y = 0 := by omega
      obtain rfl : y' = 0 := by omega
      exact ⟨rfl, by omega⟩
  exact ⟨rfl, Counts.eq_of_mul_add_eq hi hi' hbyte⟩

theorem PlaneRows.Placed.pixelsApart (h : r.Placed inPlace width height) :
    PixelsApart inPlace r.srcFormat r.dstFormat (rowPlaces r.src width) (rowPlaces r.dst width)
      (width * height) := by
  have hbyte : ∀ (rows : ℕ → PixelRows) (t : ℕ × ℕ × ℕ), t.2.1 < width * height →
      byteAt (rowPlaces rows width) t =
        (rows t.1).byteAt (t.2.1 / width, t.2.1 % width, t.2.2) := by
    intro rows t ht
    obtain ⟨-, hx, hsum⟩ := exists_row ht
    rw [← byteAt_rowPlaces rows t.1 hx, hsum, byteAt]
  constructor
  · rintro t ⟨hp, ⟨-, hx⟩, hi⟩ t' ⟨hp', ⟨-, hx'⟩, hi'⟩ heq
    rw [hbyte _ t hx, hbyte _ t' hx'] at heq
    obtain ⟨hy, hcolumn, hsum⟩ := exists_row hx
    obtain ⟨hy', hcolumn', hsum'⟩ := exists_row hx'
    have hmem := PixelRows.byteAt_mem hy hcolumn hi
    have hmem' := PixelRows.byteAt_mem hy' hcolumn' hi'
    by_cases hplane : t.1 = t'.1
    · rw [← hplane] at heq hi'
      obtain ⟨h1, h2, h3⟩ := PixelRows.byteAt_inj (h.rows t.1 hp) hy hcolumn hi hy' hcolumn' hi' heq
      have hnumber : t.2.1 = t'.2.1 := by rw [← hsum, ← hsum', h1, h2]
      exact Prod.ext hplane (Prod.ext hnumber h3)
    · rw [heq] at hmem
      exact absurd hmem' (Set.disjoint_left.mp (h.planes t.1 hp t'.1 hp' hplane) hmem)
  · rintro s ⟨hq, ⟨-, hx⟩, hj⟩ t ⟨hp, ⟨-, hx'⟩, hi⟩ heq
    rw [hbyte _ s hx, hbyte _ t hx'] at heq
    obtain ⟨hy, hcolumn, hsum⟩ := exists_row hx
    obtain ⟨hy', hcolumn', hsum'⟩ := exists_row hx'
    have hmem := PixelRows.byteAt_mem hy hcolumn hj
    rcases h.apart s.1 hq t.1 hp with hdisjoint | ⟨hallowed, hsame⟩
    · rw [heq] at hmem
      exact absurd (PixelRows.byteAt_mem hy' hcolumn' hi) (Set.disjoint_left.mp hdisjoint hmem)
    · have hbyte' : s.2.2 < (r.dst t.1).pixel := by
        rw [← hsame]
        exact hj
      rw [hsame] at heq
      obtain ⟨h1, h2, h3⟩ :=
        PixelRows.byteAt_inj (h.rows t.1 hp) hy hcolumn hbyte' hy' hcolumn' hi heq
      exact ⟨hallowed, Prod.ext (by rw [← hsum, ← hsum', h1, h2]) h3⟩

/-- Pixels that are copied, image by image. -/
theorem PlaneRows.Mapped.of_copies {m m' : Mem}
    (hcopies : Copies f r.dstFormat (rowPlaces r.src width) (rowPlaces r.dst width) 0
      (width * height) m m') : r.Mapped f width height m m' := by
  constructor
  · intro p hp y hy x hx i hi
    have hnumber : width * y + x < width * height := by
      have hle := Nat.mul_le_mul_left width (Nat.succ_le_of_lt hy)
      rw [Nat.mul_succ] at hle
      omega
    have hvalue := hcopies.value (p, width * y + x, i) ⟨hp, ⟨Nat.zero_le _, hnumber⟩, hi⟩
    simp only [byteAt, byteAt_rowPlaces _ _ hx] at hvalue
    exact hvalue
  · intro a ha
    refine hcopies.frame a ?_
    rintro t ⟨hp, ⟨-, hx⟩, hi⟩ rfl
    obtain ⟨hy, hcolumn, hsum⟩ := exists_row hx
    refine ha t.1 hp ?_
    rw [byteAt, ← hsum, byteAt_rowPlaces r.dst t.1 hcolumn]
    exact PixelRows.byteAt_mem hy hcolumn hi

/-- **An operation on images** makes of them what its map says. -/
theorem PlaneOperation.Performs.mapped (h : op.Performs inPlace f r.srcFormat r.dstFormat)
    (hsize : width * height < sizeMod) (hplaced : r.Placed inPlace width height) (m : Mem) :
    r.Mapped f width height m (op.applyOperationByRows r width height m) :=
  .of_copies (zipRows_copies h.between (fun _ _ m hapart => h.row hapart m) hsize
    hplaced.pixelsApart m)

/-- **An operation that undoes another** leaves the images of both as they are. -/
theorem PlaneRows.Mapped.restored {g : PixelMap U8} {m m' m'' : Mem}
    (hf : r.Mapped f width height m m') (hg : r.swap.Mapped g width height m' m'')
    (hbetween : g.Between r.dstFormat r.srcFormat) (hplaced : r.Placed False width height)
    (hundo : ∀ p < r.srcs, ∀ i < (r.src p).pixel, ∀ s, (f.andThen g).value s p i = s p i) :
    m'' = m' := by
  funext a
  by_cases ha : ∃ p < r.srcs, a ∈ (r.src p).bytes width height
  · obtain ⟨p, hp, hmem⟩ := ha
    obtain ⟨y, hy, x, hx, i, hi, rfl⟩ := PixelRows.exists_byteAt hmem
    have hkept : m' ((r.src p).byteAt (y, x, i)) = m ((r.src p).byteAt (y, x, i)) := by
      refine hf.frame _ fun p' hp' hmem' => ?_
      rcases hplaced.apart p hp p' hp' with hdisjoint | ⟨hfalse, -⟩
      · exact Set.disjoint_left.mp hdisjoint hmem hmem'
      · exact hfalse
    calc m'' ((r.src p).byteAt (y, x, i))
        = g.value (fun q j => m' ((r.dst q).byteAt (y, x, j))) p i := hg.pixel p hp y hy x hx i hi
      _ = g.value (f.value fun q j => m ((r.src q).byteAt (y, x, j))) p i :=
          PixelMap.value_congr hbetween hp hi fun q hq j hj => hf.pixel q hq y hy x hx j hj
      _ = (f.andThen g).value (fun q j => m ((r.src q).byteAt (y, x, j))) p i :=
          (PixelMap.value_andThen f g _ p i).symm
      _ = m' ((r.src p).byteAt (y, x, i)) := by rw [hundo p hp i hi, hkept]
  · push Not at ha
    exact hg.frame a ha

end

end KleidiCV
