/-
`SeparableFilterWorkspace::process`, for any driver of separable filters.

The workspace is a template: all it asks of a driver is to filter a row vertically into
a buffer of wider elements, and columns of the buffer horizontally into the destination.
Images and buffer are memories of elements; source, buffer and destination are different
memories, in-place operations not being supported.

* `SeparableDriver.ComputesOn` — what the three members of a driver do;
* `SeparableDriver.processRow_wrote` — left columns, bulk and right columns make up the row;
* `SeparableDriver.process_wrote` — a stripe of rows;
* `stripes_wrote` — stripes in any order that make up the image.
-/
import KleidiCV.Lib.Overwrite
import KleidiCV.Lib.Partition
import KleidiCV.MedianBlur
import KleidiCV.Separable
import KleidiCV.UnaryOperation

open Loop

namespace KleidiCV

/-- `rows.at(row, column)`. -/
def Rows.atOffset (rows : Rows) (row column : ℤ) : Rows :=
  { rows with ptr := rows.ptrAt row column 0 }

/-- The members of a driver that the workspace calls: `process_vertical`,
`process_horizontal` and `process_horizontal_borders`. -/
structure SeparableDriver (α β γ : Type) where
  processVertical : ℕ → (ℕ → α) → Rows → Rows → Offsets → (ℕ → β) → ℕ → β
  processHorizontal : ℕ → (ℕ → β) → Rows → Rows → Offsets → (ℕ → γ) → ℕ → γ
  processHorizontalBorders : (ℕ → β) → Rows → Rows → Offsets → (ℕ → γ) → ℕ → γ

namespace SeparableDriver

variable {α β γ : Type} (driver : SeparableDriver α β γ) (info : FixedBorderInfo)

/-- `process_horizontal`, of the workspace. -/
def processRow (width : ℕ) (borderType : FixedBorderType) (buffer : ℕ → β)
    (bufferRows dstRows : Rows) (dst : ℕ → γ) : ℕ → γ :=
  dst |>
    forRange info.margin (fun horizontalIndex =>
      driver.processHorizontalBorders buffer (bufferRows.atOffset 0 horizontalIndex)
        (dstRows.atOffset 0 horizontalIndex)
        (info.offsetsWithLeftBorder width borderType horizontalIndex)) |>
    driver.processHorizontal (sizeSub width (2 * info.margin)) buffer
      (bufferRows.atOffset 0 info.margin) (dstRows.atOffset 0 info.margin)
      info.offsetsWithoutBorder |>
    forRange info.margin (fun horizontalIndex =>
      let index := (sizeSub width info.margin + horizontalIndex) % sizeMod
      driver.processHorizontalBorders buffer (bufferRows.atOffset 0 index)
        (dstRows.atOffset 0 index) (info.offsetsWithRightBorder width borderType index))

/-- `process`, on the buffer and the destination. -/
def process (width height yBegin yEnd : ℕ) (src : ℕ → α) (srcRows bufferRows dstRows : Rows)
    (borderType : FixedBorderType) (state : (ℕ → β) × (ℕ → γ)) : (ℕ → β) × (ℕ → γ) :=
  forFrom yBegin (yEnd - yBegin) (fun verticalIndex (buffer, dst) =>
    let offsets := info.offsetsWithBorder height borderType verticalIndex
    let buffer := driver.processVertical width src (srcRows.atOffset verticalIndex 0) bufferRows
      offsets buffer
    (buffer, driver.processRow info width borderType buffer bufferRows
      (dstRows.atOffset verticalIndex 0) dst)) state

/-- What a driver does: on `taps` elements above each other a value in the relation
`vertical`, on `taps` values next to each other, which are `valid` as all vertical results
are, the value of `horizontal`. -/
structure ComputesOn (taps : ℕ) (valid : β → Prop) (vertical : (ℕ → α) → β → Prop)
    (horizontal : (ℕ → β) → γ) : Prop where
  processVertical : ∀ (width y : ℕ) (src : ℕ → α) (srcRows bufferRows : Rows) (offsets : Offsets)
    (row : ℕ → ℕ), (∀ t < taps, (y : ℤ) + offsets.c t = row t) → bufferRows.ptr = 0 →
    ∀ buffer, ∀ e < width * srcRows.channels,
      vertical (fun t => src (srcRows.ptr + row t * srcRows.stride + e))
        (driver.processVertical width src (srcRows.atOffset y 0) bufferRows offsets buffer e)
  vertical_valid : ∀ src v, vertical src v → valid v
  processHorizontal : ∀ (width x : ℕ) (buffer : ℕ → β) (bufferRows dstRows : Rows) (offsets : Offsets)
    (column : ℕ → ℕ) (val : ℕ → γ), (∀ t < taps, (x : ℤ) + offsets.c t = column t) →
    bufferRows.ptr = 0 → bufferRows.channels = dstRows.channels →
    (∀ t < taps, ∀ index < width * dstRows.channels,
      valid (buffer (column t * dstRows.channels + index))) →
    (∀ index < width * dstRows.channels,
      horizontal (fun t => buffer (column t * dstRows.channels + index)) =
        val (x * dstRows.channels + index)) → ∀ dst,
    Wrote (dstRows.ptr + ·) val
      {e | x * dstRows.channels ≤ e ∧ e < x * dstRows.channels + width * dstRows.channels} dst
      (driver.processHorizontal width buffer (bufferRows.atOffset 0 x) (dstRows.atOffset 0 x)
        offsets dst)
  processHorizontalBorders : ∀ (x : ℕ) (buffer : ℕ → β) (bufferRows dstRows : Rows) (offsets : Offsets)
    (column : ℕ → ℕ) (val : ℕ → γ), (∀ t < taps, (x : ℤ) + offsets.c t = column t) →
    bufferRows.ptr = 0 → bufferRows.channels = dstRows.channels →
    (∀ t < taps, ∀ index < dstRows.channels,
      valid (buffer (column t * dstRows.channels + index))) →
    (∀ index < dstRows.channels,
      horizontal (fun t => buffer (column t * dstRows.channels + index)) =
        val (x * dstRows.channels + index)) → ∀ dst,
    Wrote (dstRows.ptr + ·) val
      {e | x * dstRows.channels ≤ e ∧ e < x * dstRows.channels + dstRows.channels} dst
      (driver.processHorizontalBorders buffer (bufferRows.atOffset 0 x) (dstRows.atOffset 0 x)
        offsets dst)
  horizontal_congr : ∀ src src', (∀ t < taps, src t = src' t) → horizontal src = horizontal src'

end SeparableDriver

/-! ### Rows and columns -/

section

variable {β γ : Type} {info : FixedBorderInfo} {horizontal : (ℕ → β) → γ}

theorem Rows.atOffset_row (rows : Rows) (y : ℕ) :
    (rows.atOffset y 0).ptr = rows.ptr + y * rows.stride := by
  rw [Rows.atOffset]
  simpa using rows.ptrAt_natCast y 0 0

theorem Rows.atOffset_column (rows : Rows) (x : ℕ) :
    (rows.atOffset 0 x).ptr = rows.ptr + x * rows.channels := by
  rw [Rows.atOffset]
  simpa using rows.ptrAt_natCast 0 x 0

/-- An offset that leads to a row of the image. -/
theorem Rows.ptrAt_row {rows : Rows} {y row : ℕ} {c : ℤ} (h : (y : ℤ) + c = row) (index : ℕ) :
    (rows.atOffset y 0).ptrAt c 0 index = rows.ptr + row * rows.stride + index := by
  have hbase := rows.atOffset_row y
  have hrow : (y : ℤ) * rows.stride + c * rows.stride = row * rows.stride := by
    rw [← add_mul, h]
  simp only [Rows.ptrAt, hbase]
  simp only [Rows.atOffset]
  push_cast
  rw [zero_mul, add_zero, add_assoc (rows.ptr : ℤ), hrow]
  exact_mod_cast Int.toNat_natCast _

/-- An offset that leads to a column of the image. -/
theorem Rows.ptrAt_column {rows : Rows} {x column : ℕ} {c : ℤ} (h : (x : ℤ) + c = column)
    (index : ℕ) :
    (rows.atOffset 0 x).ptrAt 0 c index = rows.ptr + column * rows.channels + index := by
  have hbase := rows.atOffset_column x
  have hcolumn : (x : ℤ) * rows.channels + c * rows.channels = column * rows.channels := by
    rw [← add_mul, h]
  simp only [Rows.ptrAt, hbase]
  simp only [Rows.atOffset]
  push_cast
  rw [zero_mul, add_zero, add_assoc (rows.ptr : ℤ), hcolumn]
  exact_mod_cast Int.toNat_natCast _

theorem Rows.ptrAt_element {rows : Rows} (x index : ℕ) :
    (rows.atOffset 0 x).ptrAt 0 0 index = rows.ptr + (x * rows.channels + index) := by
  rw [Rows.ptrAt_column (Int.add_zero _), Nat.add_assoc]

/-- The sample that stands at `i + t - margin` in an extended row or column of
`n` samples. -/
def FixedBorderInfo.sample (info : FixedBorderInfo) (borderType : FixedBorderType) (n i t : ℕ) :
    ℕ :=
  (borderType.extension.index n (i + t - info.margin)).toNat

theorem FixedBorderInfo.Exact.sample_eq {borderType : FixedBorderType} {n i : ℕ}
    {offsets : Offsets} (hn : 2 * info.margin ≤ n) (h : info.Exact n borderType i offsets) :
    ∀ t < 2 * info.margin + 1, (i : ℤ) + offsets.c t = info.sample borderType n i t := by
  intro t ht
  have := info.margin_pos
  rw [h t ht, sample, Int.toNat_of_nonneg (borderType.extension.index_mem (by omega)).1]

theorem FixedBorderInfo.sample_lt {b : FixedBorderType} {n : ℕ}
    (hn : 2 * info.margin ≤ n) (i t : ℕ) : info.sample b n i t < n := by
  have := info.margin_pos
  have := b.extension.index_mem (n := n) (p := (i : ℤ) + t - info.margin) (by omega)
  unfold sample
  omega

/-- Away from the borders nothing is extended. -/
theorem FixedBorderInfo.sample_inside {borderType : FixedBorderType} {n i t : ℕ}
    (h0 : info.margin ≤ i + t) (h1 : i + t < n + info.margin) (hn : 2 ≤ n) :
    info.sample borderType n i t = i + t - info.margin := by
  rw [sample, Extension.index_of_mem _ (by omega) (by omega) (by omega)]
  omega

/-- What belongs to element `e` of a row, for the vertical results `buffer`. -/
def horizontalAt (info : FixedBorderInfo) (horizontal : (ℕ → β) → γ) (borderType : FixedBorderType)
    (width channels : ℕ) (buffer : ℕ → β) (e : ℕ) : γ :=
  horizontal fun t =>
    buffer (info.sample borderType width (e / channels) t * channels + e % channels)

section

variable {width height : ℕ} {borderType : FixedBorderType} {bufferRows dstRows : Rows}
  {buffer : ℕ → β}

variable (buffer) in
/-- The elements of column `x`. -/
theorem horizontalAt_column {channels index : ℕ} (x : ℕ) (hindex : index < channels) :
    horizontal (fun t => buffer (info.sample borderType width x t * channels + index)) =
      horizontalAt info horizontal borderType width channels buffer (x * channels + index) := by
  rw [horizontalAt, Nat.mul_comm x, Nat.mul_add_mod, Nat.mod_eq_of_lt hindex,
    Nat.mul_add_div (by omega), Nat.div_eq_of_lt hindex, Nat.add_zero]

variable (borderType buffer) in
/-- The elements right of the left border. -/
theorem horizontalAt_bulk {channels index : ℕ}
    (hcongr : ∀ src src' : ℕ → β, (∀ t < 2 * info.margin + 1, src t = src' t) →
      horizontal src = horizontal src')
    (hw : 2 * info.margin ≤ width) (hindex : index < (width - 2 * info.margin) * channels) :
    horizontal (fun t => buffer (t * channels + index)) =
      horizontalAt info horizontal borderType width channels buffer
        (info.margin * channels + index) := by
  have hpos : 0 < channels := Nat.pos_of_ne_zero fun h => by simp [h] at hindex
  have hx : index / channels < width - 2 * info.margin :=
    Nat.div_lt_of_lt_mul (by rwa [Nat.mul_comm] at hindex)
  have hmargin := info.margin_pos
  rw [horizontalAt]
  refine hcongr _ _ fun t ht => ?_
  rw [Nat.mul_comm info.margin, Nat.mul_add_mod, Nat.mul_add_div hpos]
  generalize hq : index / channels = q at hx
  rw [FixedBorderInfo.sample_inside (by omega) (by omega) (by omega),
    show info.margin + q + t - info.margin = t + q by omega, Nat.add_mul, Nat.add_assoc, ← hq,
    Nat.div_add_mod']
variable {α : Type} {driver : SeparableDriver α β γ} {vertical : (ℕ → α) → β → Prop}
  {valid : β → Prop}

variable (borderType buffer) in
/-- **Left columns, bulk and right columns make up the row.** -/
theorem SeparableDriver.processRow_wrote
    (hf : driver.ComputesOn (2 * info.margin + 1) valid vertical horizontal)
    (hw : 2 * info.margin ≤ width) (hmax : width < 2 ^ 63) (hbase : bufferRows.ptr = 0)
    (hch : bufferRows.channels = dstRows.channels)
    (hbuffer : ∀ e < width * dstRows.channels, valid (buffer e)) (dst : ℕ → γ) :
    Wrote (dstRows.ptr + ·)
      (horizontalAt info horizontal borderType width dstRows.channels buffer)
      {e | e < width * dstRows.channels} dst
      (driver.processRow info width borderType buffer bufferRows dstRows dst) := by
  have hinj : Set.InjOn (dstRows.ptr + ·) (Set.univ : Set ℕ) := fun a _ b _ hab =>
    Nat.add_left_cancel hab
  -- A loop over `margin` columns from `start` on.
  have hborder : ∀ (start : ℕ) (offsets : ℕ → Offsets) (dst : ℕ → γ),
      (∀ i < info.margin, info.Exact width borderType (start + i) (offsets i)) →
      Wrote (dstRows.ptr + ·)
        (horizontalAt info horizontal borderType width dstRows.channels buffer)
        {e | start * dstRows.channels ≤ e ∧ e < (start + info.margin) * dstRows.channels} dst
        (forRange info.margin (fun i =>
          driver.processHorizontalBorders buffer
            (bufferRows.atOffset 0 (start + i : ℕ)) (dstRows.atOffset 0 (start + i : ℕ))
            (offsets i)) dst) := by
    intro start offsets dst hexact
    refine forRange_invariant (fun i dst' => Wrote (dstRows.ptr + ·) _
      {e | start * dstRows.channels ≤ e ∧ e < (start + i) * dstRows.channels} dst dst') ?_ ?_
    · exact Wrote.refl_of_empty dst fun e he => Nat.not_lt.mpr he.1 he.2
    · intro i hi dst' h
      have hpiece := hf.processHorizontalBorders _ _ _ _ _ _ _ ((hexact i hi).sample_eq hw) hbase hch
        (fun t _ index hindex => hbuffer _ (pixelByte_lt (info.sample_lt hw _ t) hindex))
        (fun index hindex => horizontalAt_column buffer (start + i) hindex) dst'
      refine (h.trans hinj (Set.subset_univ _) (Set.subset_univ _) hpiece).congr ?_
      have hle : start * dstRows.channels ≤ (start + i) * dstRows.channels :=
        Nat.mul_le_mul_right _ (Nat.le_add_right _ _)
      ext e
      rw [← Nat.add_assoc, Nat.succ_mul]
      simp only [Set.mem_union, Set.mem_ofPred_eq]
      omega
  have hleft := hborder 0 (info.offsetsWithLeftBorder width borderType) dst fun i hi => by
    rw [Nat.zero_add]
    exact FixedBorderInfo.exact_left hw hmax hi
  simp only [Nat.zero_add, Nat.zero_mul, Nat.zero_le, true_and] at hleft
  have hplain : ∀ t < 2 * info.margin + 1,
      (info.margin : ℤ) + info.offsetsWithoutBorder.c t = (t : ℕ) := by
    intro t ht
    rw [info.without_eq, plainOffsets_c ht]
    omega
  have hinside : ∀ t < 2 * info.margin + 1, ∀ index < (width - 2 * info.margin) * dstRows.channels,
      valid (buffer (t * dstRows.channels + index)) := by
    intro t ht index hindex
    refine hbuffer _ ?_
    calc t * dstRows.channels + index
        < t * dstRows.channels + (width - 2 * info.margin) * dstRows.channels := by omega
      _ = (t + (width - 2 * info.margin)) * dstRows.channels := (Nat.add_mul _ _ _).symm
      _ ≤ width * dstRows.channels := Nat.mul_le_mul_right _ (by omega)
  have hbulk := fun dst => hf.processHorizontal _ _ _ _ _ _ _ _ hplain hbase hch hinside
    (fun index hindex => horizontalAt_bulk borderType buffer hf.horizontal_congr hw hindex) dst
  have hright := fun dst => hborder (width - info.margin)
    (fun i => info.offsetsWithRightBorder width borderType (width - info.margin + i)) dst fun i hi =>
      FixedBorderInfo.exact_right hw hmax (by omega) (by omega)
  have hindex : ∀ i < info.margin, (sizeSub width info.margin + i) % sizeMod =
      width - info.margin + i := fun i hi => FixedBorderInfo.right_index hw hmax hi
  rw [SeparableDriver.processRow, sizeSub_eq hw (hmax.trans (by decide)),
    forRange_congr (n := info.margin) fun i hi s => by rw [hindex i hi]]
  refine ((hleft.trans hinj (Set.subset_univ _) (Set.subset_univ _) (hbulk _)).trans hinj
    (Set.subset_univ _) (Set.subset_univ _) (hright _)).congr ?_
  have hcut : info.margin * dstRows.channels + (width - 2 * info.margin) * dstRows.channels =
      (width - info.margin) * dstRows.channels := by
    rw [← Nat.add_mul]
    congr 1
    omega
  have hend : (width - info.margin + info.margin) * dstRows.channels = width * dstRows.channels := by
    rw [Nat.sub_add_cancel (by omega)]
  have hle : (width - info.margin) * dstRows.channels ≤ width * dstRows.channels :=
    Nat.mul_le_mul_right _ (Nat.sub_le _ _)
  ext e
  rw [hcut, hend]
  simp only [Set.mem_union, Set.mem_ofPred_eq]
  omega

/-- The address of element `p.2` of row `p.1`. -/
def Rows.address (rows : Rows) (p : ℕ × ℕ) : ℕ := rows.ptr + p.1 * rows.stride + p.2

theorem Rows.address_injOn {rows : Rows} {length : ℕ} (hs : length ≤ rows.stride) :
    Set.InjOn rows.address {p | p.2 < length} := by
  intro p hp q hq heq
  refine eq_of_row_major hs hp hq ?_
  simp only [Rows.address] at heq
  omega


/-- The elements of the rows from `yBegin` up to `yEnd`. -/
def stripeElements (length yBegin yEnd : ℕ) : Set (ℕ × ℕ) :=
  {p | yBegin ≤ p.1 ∧ p.1 < yEnd ∧ p.2 < length}


/-- **A stripe of rows is written, and nothing else.**  The value of an element
may be any that follows from vertical results in the buffer. -/
theorem SeparableDriver.process_wrote (hf : driver.ComputesOn (2 * info.margin + 1) valid vertical horizontal)
    (hw : 2 * info.margin ≤ width) (hmax : width < 2 ^ 63) (hh : 2 * info.margin ≤ height)
    (hhmax : height < 2 ^ 63) {src : ℕ → α} {srcRows : Rows} (hbase : bufferRows.ptr = 0)
    (hsrc : srcRows.channels = dstRows.channels) (hch : bufferRows.channels = dstRows.channels)
    (hstride : width * dstRows.channels ≤ dstRows.stride) {value : ℕ × ℕ → γ}
    (hvalue : ∀ y < height, ∀ buffer : ℕ → β,
      (∀ e < width * dstRows.channels, vertical (fun t =>
        src (srcRows.address (info.sample borderType height y t, e))) (buffer e)) →
      ∀ e < width * dstRows.channels,
        horizontalAt info horizontal borderType width dstRows.channels buffer e = value (y, e))
    {yBegin yEnd : ℕ} (hle : yBegin ≤ yEnd) (hend : yEnd ≤ height) (buffer : ℕ → β) (dst : ℕ → γ) :
    Wrote dstRows.address value (stripeElements (width * dstRows.channels) yBegin yEnd) dst
      (driver.process info width height yBegin yEnd src srcRows bufferRows dstRows borderType
        (buffer, dst)).2 := by
  obtain ⟨n, rfl⟩ := Nat.exists_eq_add_of_le hle
  rw [SeparableDriver.process, Nat.add_sub_cancel_left]
  refine forFrom_invariant (fun y (state : (ℕ → β) × (ℕ → γ)) => Wrote dstRows.address value
    (stripeElements (width * dstRows.channels) yBegin y) dst state.2) ?_ ?_
  · exact Wrote.refl_of_empty dst fun p hp => Nat.not_lt.mpr hp.1 hp.2.1
  · rintro y h1 h2 ⟨buffer, dst'⟩ h
    have hy : y < height := by omega
    have hexact : info.Exact height borderType y (info.offsetsWithBorder height borderType y) :=
      FixedBorderInfo.exact_border hh hhmax hy
    have hvertical := hf.processVertical width y src srcRows bufferRows _ _ (hexact.sample_eq hh) hbase
      buffer
    rw [hsrc] at hvertical
    have hptr : (dstRows.atOffset y 0).ptr = dstRows.ptr + y * dstRows.stride := by
      rw [Rows.atOffset]
      simpa using dstRows.ptrAt_natCast y 0 0
    have hpiece : ∀ buffer : ℕ → β, (∀ e < width * dstRows.channels, vertical (fun t =>
          src (srcRows.address (info.sample borderType height y t, e))) (buffer e)) →
        Wrote dstRows.address value {p | p.1 = y ∧ p.2 < width * dstRows.channels} dst'
          (driver.processRow info width borderType buffer bufferRows (dstRows.atOffset y 0) dst') := by
      intro buffer hbuffer
      have hrow := SeparableDriver.processRow_wrote borderType buffer hf hw hmax hbase
        (show bufferRows.channels = (dstRows.atOffset y 0).channels from hch)
        (fun e he => hf.vertical_valid _ _ (hbuffer e he)) dst'
      refine hrow.reindex (fun p => p.2) (fun p hp => ⟨hp.2, ?_, ?_⟩) fun e he =>
        ⟨(y, e), ⟨rfl, he⟩, rfl⟩
      · rw [hptr, Rows.address, hp.1]
      · rw [show p = (y, p.2) from Prod.ext hp.1 rfl]
        exact hvalue y hy buffer hbuffer p.2 hp.2
    refine (h.trans (Rows.address_injOn hstride) (fun p hp => hp.2.2) (fun p hp => hp.2)
      (hpiece _ hvertical)).congr ?_
    ext p
    simp only [stripeElements, Set.mem_union, Set.mem_ofPred_eq]
    omega

/-- The elements of a stripe by row, column and channel. -/
theorem stripe_pixels {γ : Type} {dstRows : Rows} {value : ℕ × ℕ → γ}
    {width yBegin yEnd : ℕ} {m m' : ℕ → γ}
    (h : Wrote dstRows.address value (stripeElements (width * dstRows.channels) yBegin yEnd) m m') :
    (∀ y x c, yBegin ≤ y → y < yEnd → x < width → c < dstRows.channels →
      m' (dstRows.ptrAt y x c) = value (y, x * dstRows.channels + c)) ∧
    ∀ a, (∀ y x c : ℕ, yBegin ≤ y → y < yEnd → x < width → c < dstRows.channels →
      dstRows.ptrAt y x c ≠ a) → m' a = m a := by
  have hptr : ∀ y x c : ℕ, dstRows.ptrAt y x c = dstRows.address (y, x * dstRows.channels + c) := by
    intro y x c
    rw [Rows.ptrAt_natCast, Rows.address]
    simp only [Nat.add_assoc]
  refine ⟨fun y x c h1 h2 hx hc => ?_, fun a ha => h.frame a ?_⟩
  · rw [hptr, h.value _ ⟨h1, h2, pixelByte_lt hx hc⟩]
  · rintro ⟨y, e⟩ ⟨h1, h2, he⟩ heq
    simp only at h1 h2 he
    have hpos : 0 < dstRows.channels := Nat.pos_of_ne_zero fun h => by simp [h] at he
    refine ha y (e / dstRows.channels) (e % dstRows.channels) h1 h2
      (Nat.div_lt_of_lt_mul (by rwa [Nat.mul_comm])) (Nat.mod_lt _ hpos) ?_
    rw [hptr, Nat.div_add_mod', heq]

/-- Stripes in any order that make up the image. -/
theorem stripes_wrote {γ : Type} (rows : Rows) {value : ℕ × ℕ → γ}
    {stripe : ℕ × ℕ → (ℕ → γ) → ℕ → γ} {length height : ℕ} (hstride : length ≤ rows.stride) {l : List (ℕ × ℕ)}
    (hl : IsPartition height l)
    (hstripe : ∀ s ∈ l, ∀ m, Wrote rows.address value (stripeElements length s.1 s.2) m (stripe s m))
    (m : ℕ → γ) :
    Wrote rows.address value (stripeElements length 0 height) m
      (l.foldl (fun m s => stripe s m) m) := by
  have hinj : Set.InjOn rows.address {p | p.2 < length} := Rows.address_injOn hstride
  have hpieces : Wrote rows.address value (⋃ s ∈ l, stripeElements length s.1 s.2) m
      (l.foldl (fun m s => stripe s m) m) :=
    Wrote.foldl hinj (fun s _ p hp => hp.2.2) m fun done s rest heq m' _ =>
      hstripe s (by rw [heq]; exact List.mem_append_right _ List.mem_cons_self) m'
  refine hpieces.congr ?_
  ext p
  simp only [stripeElements, Set.mem_iUnion, exists_prop, Set.mem_ofPred_eq, Nat.zero_le, true_and]
  constructor
  · rintro ⟨s, hs, h1, h2, h3⟩
    exact ⟨h2.trans_le (hl.bounds s hs).2, h3⟩
  · rintro ⟨hp, h3⟩
    obtain ⟨s, hs, h1, h2⟩ := hl.cover p.1 hp
    exact ⟨s, hs, h1, h2, h3⟩

end

end

end KleidiCV