/-
The Neon drivers `SeparableFilter` of the 3x3 to 9x9 filters.

A loop over the elements of a row takes vectors, the last of which is moved back to end
with the data; rows shorter than a vector and the borders are scalar.

* `processVertical_spec` — the buffer holds a vertical result for every element
  of the row;
* `processHorizontal_wrote`, `processHorizontalBorders_wrote` — the columns in bulk and one
  column;
* `SeparableFilterType.ComputesOn.driver` — the driver as the workspace sees it.
-/
import KleidiCV.LoopUnroll2
import KleidiCV.SeparableDriver

open Loop

namespace KleidiCV
/-- `vld1q`. -/
def vld1q {α : Type} {lanes : ℕ} (m : ℕ → α) (ptr : ℕ) : Fin lanes → α := fun lane => m (ptr + lane)

/-- `vst1q`. -/
def vst1q {α : Type} {n : ℕ} (m : ℕ → α) (ptr : ℕ) (v : Fin n → α) : ℕ → α := fun a =>
  if h : ptr ≤ a ∧ a < ptr + n then v ⟨a - ptr, storedLane_lt h⟩ else m a

theorem vst1q_eq {α : Type} {n : ℕ} (m : ℕ → α) (ptr : ℕ) (v : Fin n → α) :
    ∃ g, vst1q m ptr v = overwrite m ptr n g ∧ ∀ lane : Fin n, g lane = v lane := by
  refine ⟨fun j => if h : j < n then v ⟨j, h⟩ else m (ptr + j), ?_, fun lane => dif_pos lane.2⟩
  funext a
  by_cases ha : ptr ≤ a ∧ a < ptr + n
  · obtain ⟨j, rfl⟩ := Nat.exists_eq_add_of_le ha.1
    have hj : j < n := by omega
    rw [vst1q, dif_pos ha, overwrite_add hj, dif_pos hj]
    congr 1
    exact Fin.ext (Nat.add_sub_cancel_left ptr j)
  · rw [vst1q, dif_neg ha, overwrite_of_not_mem ha]

/-- `FilterType` of a driver: elements `α` of the source, `β` of the buffer and `γ`
of the destination, and what the filter does to a vector or a single element of
each tap. -/
structure SeparableFilterType (α β γ : Type) where
  sourceLanes : ℕ
  bufferLanes : ℕ
  verticalVectorPath : (ℕ → Fin sourceLanes → α) → ℕ → (ℕ → β) → ℕ → β
  verticalScalarPath : (ℕ → α) → ℕ → (ℕ → β) → ℕ → β
  horizontalVectorPath : (ℕ → Fin bufferLanes → β) → ℕ → (ℕ → γ) → ℕ → γ
  horizontalScalarPath : (ℕ → β) → ℕ → (ℕ → γ) → ℕ → γ

namespace SeparableFilter

variable {α β γ : Type} (filter : SeparableFilterType α β γ) (info : FixedBorderInfo)

/-- `process_vertical`. -/
def processVertical (width : ℕ) (src : ℕ → α) (srcRows dstRows : Rows) (borderOffsets : Offsets)
    (buffer : ℕ → β) : ℕ → β :=
  let row := fun t => srcRows.ptrAt (borderOffsets.c t) 0
  let vectorAt := fun index => filter.verticalVectorPath (fun t => vld1q src (row t index))
    (dstRows.ptrAt 0 0 index)
  ((LoopUnroll2.startAvoidingTail (width * srcRows.channels) filter.sourceLanes, buffer) |>
    -- Only the 3x3 driver takes two vectors at a time.
    LoopUnroll2.unrollTwiceIf (info.margin == 1) (fun index buffer =>
      vectorAt (index + filter.sourceLanes) (vectorAt index buffer)) |>
    LoopUnroll2.unrollOnce vectorAt |>
    LoopUnroll2.tail (fun index =>
      filter.verticalScalarPath (fun t => src (row t index)) (dstRows.ptrAt 0 0 index))).2

/-- `process_horizontal_scalar`. -/
def processHorizontalScalar (buffer : ℕ → β) (srcRows dstRows : Rows) (borderOffsets : Offsets)
    (index : ℕ) : (ℕ → γ) → ℕ → γ :=
  filter.horizontalScalarPath (fun t => buffer (srcRows.ptrAt 0 (borderOffsets.c t) index))
    (dstRows.ptrAt 0 0 index)

/-- `process_horizontal`. -/
def processHorizontal (width : ℕ) (buffer : ℕ → β) (srcRows dstRows : Rows)
    (borderOffsets : Offsets) (dst : ℕ → γ) : ℕ → γ :=
  let vectorAt := fun index => filter.horizontalVectorPath
    (fun t => vld1q buffer (srcRows.ptrAt 0 (borderOffsets.c t) index)) (dstRows.ptrAt 0 0 index)
  ((LoopUnroll2.startAvoidingTail (width * srcRows.channels) filter.bufferLanes, dst) |>
    LoopUnroll2.unrollTwiceIf true (fun index dst =>
      vectorAt (index + filter.bufferLanes) (vectorAt index dst)) |>
    LoopUnroll2.unrollOnce vectorAt |>
    LoopUnroll2.tail (processHorizontalScalar filter buffer srcRows dstRows borderOffsets)).2

/-- `process_horizontal_borders`. -/
def processHorizontalBorders (buffer : ℕ → β) (srcRows dstRows : Rows) (borderOffsets : Offsets)
    (dst : ℕ → γ) : ℕ → γ :=
  forRange srcRows.channels (processHorizontalScalar filter buffer srcRows dstRows borderOffsets)
    dst

end SeparableFilter

namespace SeparableFilterWorkspace

open SeparableFilter

variable {α β γ : Type} (filter : SeparableFilterType α β γ) (info : FixedBorderInfo)

/-- `process_horizontal`, of the workspace. -/
def processRow (width : ℕ) (borderType : FixedBorderType) (buffer : ℕ → β)
    (bufferRows dstRows : Rows) (dst : ℕ → γ) : ℕ → γ :=
  dst |>
    forRange info.margin (fun horizontalIndex =>
      processHorizontalBorders filter buffer (bufferRows.atOffset 0 horizontalIndex)
        (dstRows.atOffset 0 horizontalIndex)
        (info.offsetsWithLeftBorder width borderType horizontalIndex)) |>
    processHorizontal filter (sizeSub width (2 * info.margin)) buffer
      (bufferRows.atOffset 0 info.margin) (dstRows.atOffset 0 info.margin)
      info.offsetsWithoutBorder |>
    forRange info.margin (fun horizontalIndex =>
      let index := (sizeSub width info.margin + horizontalIndex) % sizeMod
      processHorizontalBorders filter buffer (bufferRows.atOffset 0 index)
        (dstRows.atOffset 0 index) (info.offsetsWithRightBorder width borderType index))

/-- `process`, on the buffer and the destination. -/
def process (width height yBegin yEnd : ℕ) (src : ℕ → α) (srcRows bufferRows dstRows : Rows)
    (borderType : FixedBorderType) (state : (ℕ → β) × (ℕ → γ)) : (ℕ → β) × (ℕ → γ) :=
  forFrom yBegin (yEnd - yBegin) (fun verticalIndex (buffer, dst) =>
    let offsets := info.offsetsWithBorder height borderType verticalIndex
    let buffer := processVertical filter info width src (srcRows.atOffset verticalIndex 0) bufferRows
      offsets buffer
    (buffer, processRow filter info width borderType buffer bufferRows
      (dstRows.atOffset verticalIndex 0) dst)) state

end SeparableFilterWorkspace

/-! ### What a filter computes -/

/-- Vector and scalar paths agree: on `taps` elements above each other a value
in the relation `vertical`, on `taps` values next to each other the value of
`horizontal`. -/
structure SeparableFilterType.Computes {α β γ : Type} (filter : SeparableFilterType α β γ)
    (taps : ℕ) (vertical : (ℕ → α) → β → Prop) (horizontal : (ℕ → β) → γ) : Prop where
  sourceLanes_pos : 0 < filter.sourceLanes
  bufferLanes_pos : 0 < filter.bufferLanes
  verticalVector : ∀ src dst buffer, ∃ g, filter.verticalVectorPath src dst buffer =
    overwrite buffer dst filter.sourceLanes g ∧
      ∀ lane : Fin filter.sourceLanes, vertical (fun t => src t lane) (g lane)
  verticalScalar : ∀ src dst buffer, ∃ v, filter.verticalScalarPath src dst buffer =
    Function.update buffer dst v ∧ vertical src v
  horizontalVector : ∀ src dst m, ∃ g, filter.horizontalVectorPath src dst m =
    overwrite m dst filter.bufferLanes g ∧
      ∀ lane : Fin filter.bufferLanes, g lane = horizontal fun t => src t lane
  horizontalScalar : ∀ src dst m, filter.horizontalScalarPath src dst m =
    Function.update m dst (horizontal src)
  vertical_congr : ∀ src src' v, (∀ t < taps, src t = src' t) → vertical src v → vertical src' v
  horizontal_congr : ∀ src src', (∀ t < taps, src t = src' t) → horizontal src = horizontal src'

/-- The same, where the horizontal paths are only used on values that are `valid`, as
all vertical results are. -/
structure SeparableFilterType.ComputesOn {α β γ : Type} (filter : SeparableFilterType α β γ)
    (taps : ℕ) (valid : β → Prop) (vertical : (ℕ → α) → β → Prop) (horizontal : (ℕ → β) → γ) :
    Prop where
  sourceLanes_pos : 0 < filter.sourceLanes
  bufferLanes_pos : 0 < filter.bufferLanes
  verticalVector : ∀ src dst buffer, ∃ g, filter.verticalVectorPath src dst buffer =
    overwrite buffer dst filter.sourceLanes g ∧
      ∀ lane : Fin filter.sourceLanes, vertical (fun t => src t lane) (g lane)
  verticalScalar : ∀ src dst buffer, ∃ v, filter.verticalScalarPath src dst buffer =
    Function.update buffer dst v ∧ vertical src v
  vertical_valid : ∀ src v, vertical src v → valid v
  horizontalVector : ∀ src dst m, (∀ t < taps, ∀ lane, valid (src t lane)) →
    ∃ g, filter.horizontalVectorPath src dst m = overwrite m dst filter.bufferLanes g ∧
      ∀ lane : Fin filter.bufferLanes, g lane = horizontal fun t => src t lane
  horizontalScalar : ∀ src dst m, (∀ t < taps, valid (src t)) →
    filter.horizontalScalarPath src dst m = Function.update m dst (horizontal src)
  vertical_congr : ∀ src src' v, (∀ t < taps, src t = src' t) → vertical src v → vertical src' v
  horizontal_congr : ∀ src src', (∀ t < taps, src t = src' t) → horizontal src = horizontal src'

section

variable {α β γ : Type} {filter : SeparableFilterType α β γ} {info : FixedBorderInfo}
  {vertical : (ℕ → α) → β → Prop} {horizontal : (ℕ → β) → γ} {valid : β → Prop}

theorem SeparableFilterType.Computes.computesOn {taps : ℕ}
    (hf : filter.Computes taps vertical horizontal) :
    filter.ComputesOn taps (fun _ => True) vertical horizontal where
  sourceLanes_pos := hf.sourceLanes_pos
  bufferLanes_pos := hf.bufferLanes_pos
  verticalVector := hf.verticalVector
  verticalScalar := hf.verticalScalar
  vertical_valid := fun _ _ _ => trivial
  horizontalVector := fun src dst m _ => hf.horizontalVector src dst m
  horizontalScalar := fun src dst m _ => hf.horizontalScalar src dst m
  vertical_congr := hf.vertical_congr
  horizontal_congr := hf.horizontal_congr

variable (info) in
/-- **The buffer holds a vertical result for every element of the row.** -/
theorem processVertical_spec {taps : ℕ} (hf : filter.ComputesOn taps valid vertical horizontal)
    (width : ℕ) {y : ℕ} (src : ℕ → α) (srcRows : Rows) {bufferRows : Rows} {offsets : Offsets}
    {row : ℕ → ℕ} (hrow : ∀ t < taps, (y : ℤ) + offsets.c t = row t) (hbase : bufferRows.ptr = 0)
    (buffer : ℕ → β) :
    ∀ e < width * srcRows.channels,
      vertical (fun t => src (srcRows.ptr + row t * srcRows.stride + e))
        (SeparableFilter.processVertical filter info width src (srcRows.atOffset y 0) bufferRows
          offsets buffer e) := by
  have hdst : ∀ index, bufferRows.ptrAt 0 0 index = index := fun index => by
    have := bufferRows.ptrAt_natCast 0 0 index
    simpa [hbase] using this
  have hptr : ∀ t < taps, ∀ index, (srcRows.atOffset y 0).ptrAt (offsets.c t) 0 index =
      srcRows.ptr + row t * srcRows.stride + index := fun t ht index =>
    Rows.ptrAt_row (hrow t ht) index
  -- A vector that starts at or before `j` carries on the row up to its end.
  have hvector : ∀ i j (buffer : ℕ → β), i ≤ j → j ≤ i + filter.sourceLanes →
      (∀ e < j, vertical (fun t => src (srcRows.ptr + row t * srcRows.stride + e)) (buffer e)) →
      ∀ e < i + filter.sourceLanes,
        vertical (fun t => src (srcRows.ptr + row t * srcRows.stride + e))
          (filter.verticalVectorPath
            (fun t => vld1q src ((srcRows.atOffset y 0).ptrAt (offsets.c t) 0 i))
            (bufferRows.ptrAt 0 0 i) buffer e) := by
    intro i j buffer hij hj h e he
    obtain ⟨g, heq, hg⟩ := hf.verticalVector
      (fun t => vld1q src ((srcRows.atOffset y 0).ptrAt (offsets.c t) 0 i)) i buffer
    rw [hdst, heq]
    rcases Nat.lt_or_ge e i with hlt | hge
    · rw [overwrite_of_not_mem (by omega)]
      exact h e (by omega)
    · obtain ⟨lane, rfl⟩ := Nat.exists_eq_add_of_le hge
      have hlane : lane < filter.sourceLanes := by omega
      rw [overwrite_add hlane]
      refine hf.vertical_congr _ _ _ (fun t ht => ?_) (hg ⟨lane, hlane⟩)
      simp only [vld1q, hptr t ht, Nat.add_assoc]
  refine unrollTwiceIf_unrollOnce_tail_avoidingTail (fun j (buffer : ℕ → β) => ∀ e < j,
    vertical (fun t => src (srcRows.ptr + row t * srcRows.stride + e)) (buffer e))
    hf.sourceLanes_pos (fun e he => absurd he (Nat.not_lt_zero e)) ?_ ?_ ?_
  · intro _ i buffer _ h
    have hfirst := hvector i i buffer le_rfl (Nat.le_add_right _ _) h
    have hsecond := hvector (i + filter.sourceLanes) _ _ le_rfl (Nat.le_add_right _ _) hfirst
    rwa [Nat.add_assoc, ← Nat.two_mul] at hsecond
  · intro i j buffer hij hj _ h
    exact hvector i j buffer hij hj h
  · intro i buffer _ h e he
    obtain ⟨v, heq, hv⟩ := hf.verticalScalar
      (fun t => src ((srcRows.atOffset y 0).ptrAt (offsets.c t) 0 i)) i buffer
    simp only [hdst, heq]
    rcases Nat.lt_or_ge e i with hlt | hge
    · rw [Function.update_of_ne hlt.ne]
      exact h e hlt
    · obtain rfl : e = i := by omega
      rw [Function.update_self]
      refine hf.vertical_congr _ _ _ (fun t ht => ?_) hv
      rw [hptr t ht]

/-! ### Rows -/

section

variable {taps x : ℕ} {offsets : Offsets} {column : ℕ → ℕ} {bufferRows dstRows : Rows}
  {buffer : ℕ → β} {val : ℕ → γ}

/-- One element, `index` elements right of column `x`. -/
theorem processHorizontalScalar_wrote (hf : filter.ComputesOn taps valid vertical horizontal)
    (hcolumn : ∀ t < taps, (x : ℤ) + offsets.c t = column t) (hbase : bufferRows.ptr = 0)
    (hch : bufferRows.channels = dstRows.channels) {index : ℕ}
    (hbuffer : ∀ t < taps, valid (buffer (column t * dstRows.channels + index)))
    (hval : horizontal (fun t => buffer (column t * dstRows.channels + index)) =
      val (x * dstRows.channels + index)) (dst : ℕ → γ) :
    Wrote (dstRows.ptr + ·) val {e | x * dstRows.channels + index ≤ e ∧
        e < x * dstRows.channels + (index + 1)} dst
      (SeparableFilter.processHorizontalScalar filter buffer (bufferRows.atOffset 0 x)
        (dstRows.atOffset 0 x) offsets index dst) := by
  have htap : ∀ t < taps, buffer ((bufferRows.atOffset 0 x).ptrAt 0 (offsets.c t) index) =
      buffer (column t * dstRows.channels + index) := fun t ht => by
    rw [Rows.ptrAt_column (hcolumn t ht), hbase, Nat.zero_add, hch]
  rw [SeparableFilter.processHorizontalScalar,
    hf.horizontalScalar _ _ _ fun t ht => htap t ht ▸ hbuffer t ht, Rows.ptrAt_element,
    hf.horizontal_congr _ (fun t => buffer (column t * dstRows.channels + index)) htap, hval]
  refine ⟨fun e he => ?_, fun a ha => Function.update_of_ne (Ne.symm ?_) _ _⟩
  · obtain rfl : e = x * dstRows.channels + index := by
      have := he.1
      have := he.2
      omega
    exact Function.update_self ..
  · exact ha _ ⟨le_rfl, Nat.lt_succ_self _⟩

/-- The elements of one column. -/
theorem processHorizontalBorders_wrote (hf : filter.ComputesOn taps valid vertical horizontal)
    (hcolumn : ∀ t < taps, (x : ℤ) + offsets.c t = column t) (hbase : bufferRows.ptr = 0)
    (hch : bufferRows.channels = dstRows.channels)
    (hbuffer : ∀ t < taps, ∀ index < dstRows.channels,
      valid (buffer (column t * dstRows.channels + index)))
    (hval : ∀ index < dstRows.channels,
      horizontal (fun t => buffer (column t * dstRows.channels + index)) =
        val (x * dstRows.channels + index)) (dst : ℕ → γ) :
    Wrote (dstRows.ptr + ·) val
      {e | x * dstRows.channels ≤ e ∧ e < x * dstRows.channels + dstRows.channels} dst
      (SeparableFilter.processHorizontalBorders filter buffer (bufferRows.atOffset 0 x)
        (dstRows.atOffset 0 x) offsets dst) := by
  have hchannels : (bufferRows.atOffset 0 x).channels = dstRows.channels := hch
  rw [SeparableFilter.processHorizontalBorders, hchannels]
  refine forRange_invariant (fun index dst' => Wrote (dstRows.ptr + ·) val
    {e | x * dstRows.channels ≤ e ∧ e < x * dstRows.channels + index} dst dst') ?_ ?_
  · exact Wrote.refl_of_empty dst fun e he => Nat.not_lt.mpr he.1 he.2
  · intro index hindex dst' h
    refine (h.trans (fun a _ b _ hab => Nat.add_left_cancel hab) (Set.subset_univ _)
      (Set.subset_univ _)
      (processHorizontalScalar_wrote hf hcolumn hbase hch (fun t ht => hbuffer t ht index hindex)
        (hval index hindex) dst')).congr ?_
    ext e
    simp only [Set.mem_union, Set.mem_ofPred_eq]
    omega

/-- The columns in bulk. -/
theorem processHorizontal_wrote (hf : filter.ComputesOn taps valid vertical horizontal)
    (hcolumn : ∀ t < taps, (x : ℤ) + offsets.c t = column t) (hbase : bufferRows.ptr = 0)
    (hch : bufferRows.channels = dstRows.channels) {width : ℕ}
    (hbuffer : ∀ t < taps, ∀ index < width * dstRows.channels,
      valid (buffer (column t * dstRows.channels + index)))
    (hval : ∀ index < width * dstRows.channels,
      horizontal (fun t => buffer (column t * dstRows.channels + index)) =
        val (x * dstRows.channels + index)) (dst : ℕ → γ) :
    Wrote (dstRows.ptr + ·) val
      {e | x * dstRows.channels ≤ e ∧ e < x * dstRows.channels + width * dstRows.channels} dst
      (SeparableFilter.processHorizontal filter width buffer (bufferRows.atOffset 0 x)
        (dstRows.atOffset 0 x) offsets dst) := by
  have hinj : Set.InjOn (dstRows.ptr + ·) (Set.univ : Set ℕ) := fun a _ b _ hab =>
    Nat.add_left_cancel hab
  have hchannels : (bufferRows.atOffset 0 x).channels = dstRows.channels := hch
  -- The vector at `i`, wherever the one before it ended.
  have hvector : ∀ i j (dst' : ℕ → γ), i ≤ j → j ≤ i + filter.bufferLanes →
      i + filter.bufferLanes ≤ width * dstRows.channels →
      Wrote (dstRows.ptr + ·) val
        {e | x * dstRows.channels ≤ e ∧ e < x * dstRows.channels + j} dst dst' →
      Wrote (dstRows.ptr + ·) val
        {e | x * dstRows.channels ≤ e ∧ e < x * dstRows.channels + (i + filter.bufferLanes)} dst
        (filter.horizontalVectorPath
          (fun t => vld1q buffer ((bufferRows.atOffset 0 x).ptrAt 0 (offsets.c t) i))
          ((dstRows.atOffset 0 x).ptrAt 0 0 i) dst') := by
    intro i j dst' hij hj hi h
    have htap : ∀ t < taps, ∀ lane : Fin filter.bufferLanes,
        vld1q buffer ((bufferRows.atOffset 0 x).ptrAt 0 (offsets.c t) i) lane =
          buffer (column t * dstRows.channels + (i + lane)) := fun t ht lane => by
      rw [vld1q, Rows.ptrAt_column (hcolumn t ht), hbase, Nat.zero_add, hch, Nat.add_assoc]
    obtain ⟨g, heq, hg⟩ := hf.horizontalVector
      (fun t => vld1q buffer ((bufferRows.atOffset 0 x).ptrAt 0 (offsets.c t) i))
      ((dstRows.atOffset 0 x).ptrAt 0 0 i) dst' fun t ht lane =>
        htap t ht lane ▸ hbuffer t ht (i + lane) (by omega)
    have hlanes : ∀ lane < filter.bufferLanes,
        g lane = val (x * dstRows.channels + i + lane) := by
      intro lane hlane
      rw [hg ⟨lane, hlane⟩, Nat.add_assoc, ← hval (i + lane) (by omega)]
      exact hf.horizontal_congr _ _ fun t ht => htap t ht ⟨lane, hlane⟩
    rw [heq, Rows.ptrAt_element]
    refine (h.trans hinj (Set.subset_univ _) (Set.subset_univ _)
      (overwrite_wrote_row hlanes)).congr ?_
    ext e
    simp only [Set.mem_union, Set.mem_ofPred_eq]
    omega
  rw [SeparableFilter.processHorizontal, hchannels]
  refine unrollTwiceIf_unrollOnce_tail_avoidingTail (fun j dst' => Wrote (dstRows.ptr + ·) val
    {e | x * dstRows.channels ≤ e ∧ e < x * dstRows.channels + j} dst dst') hf.bufferLanes_pos
    ?_ ?_ ?_ ?_
  · exact Wrote.refl_of_empty dst fun e he => Nat.not_lt.mpr he.1 he.2
  · intro _ i dst' hi h
    have hfirst := hvector i i dst' le_rfl (Nat.le_add_right _ _) (by omega) h
    have hsecond := hvector (i + filter.bufferLanes) _ _ le_rfl (Nat.le_add_right _ _) (by omega)
      hfirst
    rwa [Nat.add_assoc, ← Nat.two_mul] at hsecond
  · intro i j dst' hij hj hi h
    exact hvector i j dst' hij hj hi h
  · intro index dst' hindex h
    refine (h.trans hinj (Set.subset_univ _) (Set.subset_univ _)
      (processHorizontalScalar_wrote hf hcolumn hbase hch (fun t ht => hbuffer t ht index hindex)
        (hval index hindex) dst')).congr ?_
    ext e
    simp only [Set.mem_union, Set.mem_ofPred_eq]
    omega

end

/-- The driver as the workspace sees it. -/
def SeparableFilterType.driver (filter : SeparableFilterType α β γ) (info : FixedBorderInfo) :
    SeparableDriver α β γ where
  processVertical := SeparableFilter.processVertical filter info
  processHorizontal := SeparableFilter.processHorizontal filter
  processHorizontalBorders := SeparableFilter.processHorizontalBorders filter

variable (info) in
theorem SeparableFilterType.ComputesOn.driver {taps : ℕ}
    (hf : filter.ComputesOn taps valid vertical horizontal) :
    (filter.driver info).ComputesOn taps valid vertical horizontal where
  processVertical := fun width _ src srcRows _ _ _ hrow hbase buffer =>
    processVertical_spec info hf width src srcRows hrow hbase buffer
  vertical_valid := hf.vertical_valid
  processHorizontal := fun _ _ _ _ _ _ _ _ hcolumn hbase hch hbuffer hval dst =>
    processHorizontal_wrote hf hcolumn hbase hch hbuffer hval dst
  processHorizontalBorders := fun _ _ _ _ _ _ _ hcolumn hbase hch hbuffer hval dst =>
    processHorizontalBorders_wrote hf hcolumn hbase hch hbuffer hval dst
  horizontal_congr := hf.horizontal_congr

/-- The addresses of the elements of an image. -/
def Rows.image (rows : Rows) (length height : ℕ) : Set ℕ :=
  {a | ∃ p : ℕ × ℕ, p.1 < height ∧ p.2 < length ∧ rows.address p = a}

/-- Elements of one row of an image. -/
theorem Rows.overwrite_unchanged {α : Type} (rows : Rows) {length height r c n : ℕ}
    (hr : r < height) (hc : c + n ≤ length) (g : ℕ → α) (m : ℕ → α) :
    UnchangedOutside (rows.image length height) m (overwrite m (rows.address (r, c)) n g) := by
  intro a ha
  refine overwrite_of_not_mem fun hmem => ha ⟨(r, c + (a - rows.address (r, c))), hr, ?_, ?_⟩
  · simp only
    omega
  · simp only [Rows.address] at hmem ⊢
    omega

theorem Rows.vst1q_unchanged {α : Type} (rows : Rows) {n r c length height ptr : ℕ}
    (hptr : ptr = rows.address (r, c)) (hr : r < height) (hc : c + n ≤ length) (v : Fin n → α)
    (m : ℕ → α) : UnchangedOutside (rows.image length height) m (vst1q m ptr v) := by
  obtain ⟨g, heq, -⟩ := vst1q_eq m ptr v
  rw [heq, hptr]
  exact rows.overwrite_unchanged hr hc g m

end

end KleidiCV
