/-
The scalable driver `SeparableFilter` of the 5x5 filters.

Whole vectors, then what is left through a predicate.  The vertical pass widens, and its
store of pairs is governed by the predicate of the narrow elements: it may write one element
more than the row has.

* `processVertical_filtered` — the buffer holds a vertical result for every element of the row,
  and at most one element behind the row changes;
* `driver_computesOn` — the driver as the workspace sees it.
-/
import KleidiCV.LoopUnroll2
import KleidiCV.SeparableDriver
import KleidiCV.SveLanes

open Loop

namespace KleidiCV

open Scalable

/-- `FilterType` of the scalable driver: elements `α` of the source, `β` of the buffer and `γ`
of the destination, and what the filter does to vectors or single elements of the taps. -/
structure ScalableFilterType (α β γ : Type) where
  sourceLanes : ℕ
  bufferLanes : ℕ
  verticalVectorPath : (ℕ → Bool) → (ℕ → ℕ → α) → ℕ → (ℕ → β) → ℕ → β
  horizontalVectorPath : (ℕ → Bool) → (ℕ → ℕ → β) → ℕ → (ℕ → γ) → ℕ → γ
  horizontalScalarPath : (ℕ → β) → ℕ → (ℕ → γ) → ℕ → γ

namespace ScalableFilter

variable {α β γ : Type} [Zero α] [Zero β] (filter : ScalableFilterType α β γ)

/-- `vertical_vector_path`. -/
def verticalVectorPath (pg : ℕ → Bool) (src : ℕ → α) (srcRows dstRows : Rows)
    (borderOffsets : Offsets) (index : ℕ) (buffer : ℕ → β) : ℕ → β :=
  filter.verticalVectorPath pg
    (fun t => Sve.svld1 pg src (srcRows.ptrAt (borderOffsets.c t) 0 index))
    (dstRows.ptrAt 0 0 index) buffer

/-- `process_vertical`. -/
def processVertical (width : ℕ) (src : ℕ → α) (srcRows dstRows : Rows) (borderOffsets : Offsets)
    (buffer : ℕ → β) : ℕ → β :=
  ((LoopUnroll2.start (width * srcRows.channels) filter.sourceLanes, buffer) |>
    LoopUnroll2.unrollOnce (fun index =>
      verticalVectorPath filter svptrue src srcRows dstRows borderOffsets index) |>
    LoopUnroll2.remaining (fun index length =>
      verticalVectorPath filter (svwhilelt index length) src srcRows dstRows borderOffsets
        index)).2

/-- `horizontal_vector_path`. -/
def horizontalVectorPath (pg : ℕ → Bool) (buffer : ℕ → β) (srcRows dstRows : Rows)
    (borderOffsets : Offsets) (index : ℕ) : (ℕ → γ) → ℕ → γ :=
  filter.horizontalVectorPath pg
    (fun t => Sve.svld1 pg buffer (srcRows.ptrAt 0 (borderOffsets.c t) index))
    (dstRows.ptrAt 0 0 index)

/-- `horizontal_vector_path_2x`. -/
def horizontalVectorPath2x (pg : ℕ → Bool) (buffer : ℕ → β) (srcRows dstRows : Rows)
    (borderOffsets : Offsets) (index : ℕ) (dst : ℕ → γ) : ℕ → γ :=
  let src := fun t => srcRows.ptrAt 0 (borderOffsets.c t) index
  let sources0 := fun t => Sve.svld1 pg buffer (src t)
  let sources1 := fun t => Sve.svld1 pg buffer (src t + filter.bufferLanes)
  dst |> filter.horizontalVectorPath pg sources0 (dstRows.ptrAt 0 0 index) |>
    filter.horizontalVectorPath pg sources1 (dstRows.ptrAt 0 0 (index + filter.bufferLanes))

/-- `process_horizontal`. -/
def processHorizontal (width : ℕ) (buffer : ℕ → β) (srcRows dstRows : Rows)
    (borderOffsets : Offsets) (dst : ℕ → γ) : ℕ → γ :=
  ((LoopUnroll2.start (width * srcRows.channels) filter.bufferLanes, dst) |>
    LoopUnroll2.unrollTwice (fun index =>
      horizontalVectorPath2x filter svptrue buffer srcRows dstRows borderOffsets index) |>
    LoopUnroll2.unrollOnce (fun index =>
      horizontalVectorPath filter svptrue buffer srcRows dstRows borderOffsets index) |>
    LoopUnroll2.remaining (fun index length =>
      horizontalVectorPath filter (svwhilelt index length) buffer srcRows dstRows borderOffsets
        index)).2

/-- `process_horizontal_border`. -/
def processHorizontalBorder (buffer : ℕ → β) (srcRows dstRows : Rows) (borderOffsets : Offsets)
    (index : ℕ) : (ℕ → γ) → ℕ → γ :=
  filter.horizontalScalarPath (fun t => buffer (srcRows.ptrAt 0 (borderOffsets.c t) index))
    (dstRows.ptrAt 0 0 index)

/-- `process_horizontal_borders`. -/
def processHorizontalBorders (buffer : ℕ → β) (srcRows dstRows : Rows) (borderOffsets : Offsets)
    (dst : ℕ → γ) : ℕ → γ :=
  forRange srcRows.channels (processHorizontalBorder filter buffer srcRows dstRows borderOffsets)
    dst

end ScalableFilter

/-- The driver as the workspace sees it. -/
def ScalableFilterType.driver {α β γ : Type} [Zero α] [Zero β] (filter : ScalableFilterType α β γ) :
    SeparableDriver α β γ where
  processVertical := ScalableFilter.processVertical filter
  processHorizontal := ScalableFilter.processHorizontal filter
  processHorizontalBorders := ScalableFilter.processHorizontalBorders filter

/-! ### What a filter computes -/

/-- Vectors and single elements agree.  A vector path with `k` active elements stores vertically
in pairs, and nothing is said of what it stores besides the `k` elements. -/
structure ScalableFilterType.ComputesOn {α β γ : Type} (filter : ScalableFilterType α β γ)
    (taps : ℕ) (valid : β → Prop) (vertical : (ℕ → α) → β → Prop) (horizontal : (ℕ → β) → γ) :
    Prop where
  sourceLanes_pos : 0 < filter.sourceLanes
  bufferLanes_pos : 0 < filter.bufferLanes
  verticalVector : ∀ pg k, Leading filter.sourceLanes pg k → ∀ src dst buffer, ∃ g,
    filter.verticalVectorPath pg src dst buffer = overwrite buffer dst (2 * ((k + 1) / 2)) g ∧
      ∀ lane < k, vertical (fun t => src t lane) (g lane)
  vertical_valid : ∀ src v, vertical src v → valid v
  horizontalVector : ∀ pg k, Leading filter.bufferLanes pg k → ∀ src dst m,
    (∀ t < taps, ∀ lane < k, valid (src t lane)) → ∃ g,
      filter.horizontalVectorPath pg src dst m = overwrite m dst k g ∧
        ∀ lane < k, g lane = horizontal fun t => src t lane
  horizontalScalar : ∀ src dst m, (∀ t < taps, valid (src t)) →
    filter.horizontalScalarPath src dst m = Function.update m dst (horizontal src)
  vertical_congr : ∀ src src' v, (∀ t < taps, src t = src' t) → vertical src v → vertical src' v
  horizontal_congr : ∀ src src', (∀ t < taps, src t = src' t) → horizontal src = horizontal src'

namespace ScalableFilter

variable {α β γ : Type} [Zero α] [Zero β] {filter : ScalableFilterType α β γ}
  {vertical : (ℕ → α) → β → Prop} {horizontal : (ℕ → β) → γ} {valid : β → Prop} {taps : ℕ}

/-! ### The vertical pass -/

section

variable {width y : ℕ} {src : ℕ → α} {srcRows bufferRows : Rows} {offsets : Offsets}
  {row : ℕ → ℕ}

omit [Zero β] in
/-- One vector: `k` elements from `index` on, and perhaps one more. -/
theorem verticalVectorPath_spec (hf : filter.ComputesOn taps valid vertical horizontal)
    (hrow : ∀ t < taps, (y : ℤ) + offsets.c t = row t) (hbase : bufferRows.ptr = 0)
    {pg : ℕ → Bool} {k : ℕ} (hpg : Leading filter.sourceLanes pg k) (index : ℕ) (buffer : ℕ → β) :
    ∃ g, verticalVectorPath filter pg src (srcRows.atOffset y 0) bufferRows offsets index buffer =
        overwrite buffer index (2 * ((k + 1) / 2)) g ∧
      ∀ lane < k, vertical
        (fun t => src (srcRows.ptr + row t * srcRows.stride + (index + lane))) (g lane) := by
  have hdst : bufferRows.ptrAt 0 0 index = index := by
    have := bufferRows.ptrAt_natCast 0 0 index
    simpa [hbase] using this
  obtain ⟨g, heq, hg⟩ := hf.verticalVector pg k hpg (fun t =>
    Sve.svld1 pg src ((srcRows.atOffset y 0).ptrAt (offsets.c t) 0 index)) index buffer
  refine ⟨g, ?_, fun lane hlane => hf.vertical_congr _ _ _ (fun t ht => ?_) (hg lane hlane)⟩
  · rw [verticalVectorPath, hdst, heq]
  · rw [Sve.svld1_of_lt hpg hlane, Rows.ptrAt_row (hrow t ht), Nat.add_assoc]

/-- What the vertical pass has done up to element `i` of a row of `length` elements. -/
structure Filtered (vertical : (ℕ → α) → β → Prop) (src : ℕ → α) (srcRows : Rows) (row : ℕ → ℕ)
    (length : ℕ) (before : ℕ → β) (i : ℕ) (buffer : ℕ → β) : Prop where
  value : ∀ e < i, vertical (fun t => src (srcRows.ptr + row t * srcRows.stride + e)) (buffer e)
  frame : ∀ e, length < e → buffer e = before e

omit [Zero α] [Zero β] in
theorem Filtered.step {length i k : ℕ} {before buffer g : ℕ → β}
    (h : Filtered vertical src srcRows row length before i buffer) (hk : i + k ≤ length)
    (hg : ∀ lane < k, vertical
      (fun t => src (srcRows.ptr + row t * srcRows.stride + (i + lane))) (g lane)) :
    Filtered vertical src srcRows row length before (i + k)
      (overwrite buffer i (2 * ((k + 1) / 2)) g) := by
  refine ⟨fun e he => ?_, fun e he => ?_⟩
  · rcases Nat.lt_or_ge e i with hlt | hge
    · rw [overwrite_of_not_mem (by omega)]
      exact h.value e hlt
    · obtain ⟨lane, rfl⟩ := Nat.exists_eq_add_of_le hge
      rw [overwrite_add (by omega)]
      exact hg lane (by omega)
  -- The pairs end at most one element after the `k` elements.
  · rw [overwrite_of_not_mem (by omega)]
    exact h.frame e he

omit [Zero β] in
theorem processVertical_filtered (hf : filter.ComputesOn taps valid vertical horizontal)
    (hrow : ∀ t < taps, (y : ℤ) + offsets.c t = row t) (hbase : bufferRows.ptr = 0)
    (buffer : ℕ → β) :
    Filtered vertical src srcRows row (width * srcRows.channels) buffer
      (width * srcRows.channels)
      (processVertical filter width src (srcRows.atOffset y 0) bufferRows offsets buffer) := by
  have hchannels : (srcRows.atOffset y 0).channels = srcRows.channels := rfl
  rw [processVertical, hchannels]
  have hstart : Unrolled (width * srcRows.channels) filter.sourceLanes
      (Filtered vertical src srcRows row (width * srcRows.channels) buffer)
      (LoopUnroll2.start (width * srcRows.channels) filter.sourceLanes, buffer) :=
    Unrolled.start ⟨fun e he => absurd he (Nat.not_lt_zero e), fun _ _ => rfl⟩
  refine hstart.unrollOnce_remaining hf.sourceLanes_pos _ ?_ (fun _ h => h) ?_
  · intro i buffer' hi h
    obtain ⟨g, heq, hg⟩ := verticalVectorPath_spec hf hrow hbase leading_ptrue i buffer'
    rw [heq]
    exact h.step hi hg
  · intro i buffer' hi hlt h
    obtain ⟨g, heq, hg⟩ := verticalVectorPath_spec hf hrow hbase
      (leading_whilelt hlt.le) i buffer'
    have hrest := h.step (by omega) hg
    rw [Nat.add_sub_cancel' hi.le] at hrest
    rwa [heq]

end

/-! ### The horizontal pass -/

section

variable {x : ℕ} {offsets : Offsets} {column : ℕ → ℕ} {bufferRows dstRows : Rows}
  {buffer : ℕ → β} {val : ℕ → γ}

omit [Zero α] in
/-- A vector, `i` elements right of column `x`. -/
theorem vector_wrote (hf : filter.ComputesOn taps valid vertical horizontal) {pg : ℕ → Bool} {k i length ptr : ℕ}
    (hpg : Leading filter.bufferLanes pg k) (hi : i + k ≤ length)
    (hbuffer : ∀ t < taps, ∀ index < length,
      valid (buffer (column t * dstRows.channels + index)))
    (hval : ∀ index < length,
      horizontal (fun t => buffer (column t * dstRows.channels + index)) =
        val (x * dstRows.channels + index)) {sources : ℕ → ℕ → β}
    (hsources : ∀ t < taps, sources t = Sve.svld1 pg buffer (column t * dstRows.channels + i))
    (hptr : ptr = (dstRows.atOffset 0 x).ptrAt 0 0 i) (dst : ℕ → γ) :
    Wrote (dstRows.ptr + ·) val
      {e | x * dstRows.channels + i ≤ e ∧ e < x * dstRows.channels + (i + k)} dst
      (filter.horizontalVectorPath pg sources ptr dst) := by
  have htap : ∀ t < taps, ∀ lane < k,
      sources t lane = buffer (column t * dstRows.channels + (i + lane)) := fun t ht lane hlane => by
    rw [hsources t ht, Sve.svld1_of_lt hpg hlane, Nat.add_assoc]
  obtain ⟨g, heq, hg⟩ := hf.horizontalVector pg k hpg sources ptr dst fun t ht lane hlane =>
    htap t ht lane hlane ▸ hbuffer t ht (i + lane) (by omega)
  have hlanes : ∀ lane < k, g lane = val (x * dstRows.channels + i + lane) := by
    intro lane hlane
    rw [hg lane hlane, Nat.add_assoc, ← hval (i + lane) (by omega)]
    exact hf.horizontal_congr _ _ fun t ht => htap t ht lane hlane
  rw [heq, hptr, Rows.ptrAt_element]
  refine (overwrite_wrote_row hlanes).congr ?_
  ext e
  simp only [Set.mem_ofPred_eq]
  omega

omit [Zero α] in
/-- The columns in bulk. -/
theorem processHorizontal_wrote (hf : filter.ComputesOn taps valid vertical horizontal)
    (hcolumn : ∀ t < taps, (x : ℤ) + offsets.c t = column t) (hbase : bufferRows.ptr = 0)
    (hch : bufferRows.channels = dstRows.channels) {width : ℕ}
    (hbuffer : ∀ t < taps, ∀ index < width * dstRows.channels,
      valid (buffer (column t * dstRows.channels + index)))
    (hval : ∀ index < width * dstRows.channels,
      horizontal (fun t => buffer (column t * dstRows.channels + index)) =
        val (x * dstRows.channels + index)) (dst : ℕ → γ) :
    Wrote (dstRows.ptr + ·) val
      {e | x * dstRows.channels ≤ e ∧ e < x * dstRows.channels + width * dstRows.channels} dst
      (processHorizontal filter width buffer (bufferRows.atOffset 0 x) (dstRows.atOffset 0 x)
        offsets dst) := by
  have hinj : Set.InjOn (dstRows.ptr + ·) (Set.univ : Set ℕ) := fun a _ b _ hab =>
    Nat.add_left_cancel hab
  have hchannels : (bufferRows.atOffset 0 x).channels = dstRows.channels := hch
  have hptr : ∀ t < taps, ∀ i, (bufferRows.atOffset 0 x).ptrAt 0 (offsets.c t) i =
      column t * dstRows.channels + i := fun t ht i => by
    rw [Rows.ptrAt_column (hcolumn t ht), hbase, Nat.zero_add, hch]
  -- A vector of `k` active elements carries on the row from `i`.
  have hvector : ∀ {pg k i sources ptr dst'}, Leading filter.bufferLanes pg k →
      i + k ≤ width * dstRows.channels →
      (∀ t < taps, sources t = Sve.svld1 pg buffer (column t * dstRows.channels + i)) →
      ptr = (dstRows.atOffset 0 x).ptrAt 0 0 i →
      Wrote (dstRows.ptr + ·) val
        {e | x * dstRows.channels ≤ e ∧ e < x * dstRows.channels + i} dst dst' →
      Wrote (dstRows.ptr + ·) val
        {e | x * dstRows.channels ≤ e ∧ e < x * dstRows.channels + (i + k)} dst
        (filter.horizontalVectorPath pg sources ptr dst') := by
    intro pg k i sources ptr dst' hpg hi hsources hptr h
    refine (h.trans hinj (Set.subset_univ _) (Set.subset_univ _)
      (vector_wrote hf hpg hi hbuffer hval hsources hptr dst')).congr ?_
    ext e
    simp only [Set.mem_union, Set.mem_ofPred_eq]
    omega
  have htwice : Unrolled (width * dstRows.channels) filter.bufferLanes
      (fun i dst' => Wrote (dstRows.ptr + ·) val
        {e | x * dstRows.channels ≤ e ∧ e < x * dstRows.channels + i} dst dst')
      (LoopUnroll2.unrollTwice (fun index =>
        horizontalVectorPath2x filter svptrue buffer (bufferRows.atOffset 0 x)
          (dstRows.atOffset 0 x) offsets index)
        (LoopUnroll2.start (width * dstRows.channels) filter.bufferLanes, dst)) := by
    refine (Unrolled.start (Wrote.refl_of_empty dst fun e he =>
      Nat.not_lt.mpr he.1 he.2)).unrollNTimes fun i dst' hi h => ?_
    have hfirst := hvector leading_ptrue (by omega)
      (fun t ht => congrArg (Sve.svld1 _ buffer) (hptr t ht i)) rfl h
    have hsecond := hvector leading_ptrue (by omega) (fun t ht => congrArg (Sve.svld1 _ buffer)
      ((congrArg (· + filter.bufferLanes) (hptr t ht i)).trans (Nat.add_assoc _ _ _))) rfl hfirst
    rwa [Nat.add_assoc, ← Nat.two_mul] at hsecond
  rw [processHorizontal, hchannels]
  refine htwice.unrollOnce_remaining hf.bufferLanes_pos _ ?_ (fun _ h => h) ?_
  · intro i dst' hi h
    exact hvector leading_ptrue hi
      (fun t ht => congrArg (Sve.svld1 _ buffer) (hptr t ht i)) rfl h
  · intro i dst' hi hlt h
    have hrest := hvector (leading_whilelt hlt.le) (by omega)
      (fun t ht => congrArg (Sve.svld1 _ buffer) (hptr t ht i)) rfl h
    rwa [Nat.add_sub_cancel' hi.le] at hrest

omit [Zero α] [Zero β] in
/-- The elements of one column. -/
theorem processHorizontalBorders_wrote (hf : filter.ComputesOn taps valid vertical horizontal)
    (hcolumn : ∀ t < taps, (x : ℤ) + offsets.c t = column t) (hbase : bufferRows.ptr = 0)
    (hch : bufferRows.channels = dstRows.channels)
    (hbuffer : ∀ t < taps, ∀ index < dstRows.channels,
      valid (buffer (column t * dstRows.channels + index)))
    (hval : ∀ index < dstRows.channels,
      horizontal (fun t => buffer (column t * dstRows.channels + index)) =
        val (x * dstRows.channels + index)) (dst : ℕ → γ) :
    Wrote (dstRows.ptr + ·) val
      {e | x * dstRows.channels ≤ e ∧ e < x * dstRows.channels + dstRows.channels} dst
      (processHorizontalBorders filter buffer (bufferRows.atOffset 0 x) (dstRows.atOffset 0 x)
        offsets dst) := by
  have hchannels : (bufferRows.atOffset 0 x).channels = dstRows.channels := hch
  rw [processHorizontalBorders, hchannels]
  refine forRange_invariant (fun index dst' => Wrote (dstRows.ptr + ·) val
    {e | x * dstRows.channels ≤ e ∧ e < x * dstRows.channels + index} dst dst') ?_ ?_
  · exact Wrote.refl_of_empty dst fun e he => Nat.not_lt.mpr he.1 he.2
  · intro index hindex dst' h
    have htap : ∀ t < taps, buffer ((bufferRows.atOffset 0 x).ptrAt 0 (offsets.c t) index) =
        buffer (column t * dstRows.channels + index) := fun t ht => by
      rw [Rows.ptrAt_column (hcolumn t ht), hbase, Nat.zero_add, hch]
    rw [processHorizontalBorder,
      hf.horizontalScalar _ _ _ fun t ht => htap t ht ▸ hbuffer t ht index hindex,
      Rows.ptrAt_element,
      hf.horizontal_congr _ (fun t => buffer (column t * dstRows.channels + index)) htap,
      hval index hindex]
    refine (h.trans (fun a _ b _ hab => Nat.add_left_cancel hab) (Set.subset_univ _)
      (Set.subset_univ _) (Wrote.update dst' rfl)).congr ?_
    ext e
    simp only [Set.mem_union, Set.mem_ofPred_eq, Set.mem_singleton_iff]
    omega

end

/-- **The driver as the workspace sees it.** -/
theorem driver_computesOn (hf : filter.ComputesOn taps valid vertical horizontal) :
    filter.driver.ComputesOn taps valid vertical horizontal where
  processVertical := fun _ _ _ _ _ _ _ hrow hbase buffer =>
    (processVertical_filtered hf hrow hbase buffer).value
  vertical_valid := hf.vertical_valid
  processHorizontal := fun _ _ _ _ _ _ _ _ hcolumn hbase hch hbuffer hval dst =>
    processHorizontal_wrote hf hcolumn hbase hch hbuffer hval dst
  processHorizontalBorders := fun _ _ _ _ _ _ _ hcolumn hbase hch hbuffer hval dst =>
    processHorizontalBorders_wrote hf hcolumn hbase hch hbuffer hval dst
  horizontal_congr := hf.horizontal_congr

end ScalableFilter

end KleidiCV
