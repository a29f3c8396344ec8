/-
Which samples the separable filters read.

`SeparableFilterWorkspace::process` asks the border table for the offsets of
every row, `process_horizontal` for those of every column: the left table for
the first columns, the table without borders for the columns in bulk, the
right table for the last ones.

* `processHorizontal_columns` — every column of a row is processed once, from
  left to right;
* `fixedBorderInfo_exact` — whichever table answers, column plus offset is the
  sample that stands there in the extended row.
-/
import KleidiCV.FixedBorderInfo
import KleidiCV.FixedBorderInfo15x15
import KleidiCV.FixedBorderInfo21x21

namespace KleidiCV

/-- The kernel sizes that have a table. -/
inductive FixedKernel
  | k3x3
  | k5x5
  | k7x7
  | k9x9
  | k15x15
  | k21x21
  deriving DecidableEq, Repr

/-- The class `FixedBorderInfo<T, S>` of a kernel size. -/
def FixedKernel.borderInfo : FixedKernel → FixedBorderInfo
  | .k3x3 => FixedBorderInfo3x3.info
  | .k5x5 => FixedBorderInfo5x5.info
  | .k7x7 => FixedBorderInfo7x7.info
  | .k9x9 => FixedBorderInfo9x9.info
  | .k15x15 => FixedBorderInfo15x15.info
  | .k21x21 => FixedBorderInfo21x21.info

/-- `S`. -/
def FixedKernel.size : FixedKernel → ℕ
  | .k3x3 => 3
  | .k5x5 => 5
  | .k7x7 => 7
  | .k9x9 => 9
  | .k15x15 => 15
  | .k21x21 => 21

theorem FixedKernel.size_eq (kernel : FixedKernel) :
    kernel.size = 2 * kernel.borderInfo.margin + 1 := by
  cases kernel <;> rfl

namespace FixedBorderInfo

variable (info : FixedBorderInfo) (width : ℕ) (borderType : FixedBorderType)

/-- `process_horizontal`: the columns it hands to the filter, in order, each
with its offsets. -/
def processHorizontal : List (ℕ × Offsets) :=
  let left := (List.range info.margin).map fun horizontalIndex =>
    (horizontalIndex, info.offsetsWithLeftBorder width borderType horizontalIndex)
  let widthWithoutBorders := sizeSub width (2 * info.margin)
  let bulk := (List.range widthWithoutBorders).map fun column =>
    (info.margin + column, info.offsetsWithoutBorder)
  let right := (List.range info.margin).map fun horizontalIndex =>
    let index := (sizeSub width info.margin + horizontalIndex) % sizeMod
    (index, info.offsetsWithRightBorder width borderType index)
  left ++ bulk ++ right

/-- Column `i` reads the samples that stand at `i - margin`, ...,
`i + margin` in the extended row. -/
def Exact (i : ℕ) (offsets : Offsets) : Prop :=
  ∀ t < 2 * info.margin + 1,
    (i : ℤ) + offsets.c t = borderType.extension.index width (i + t - info.margin)

variable {info width borderType}

theorem exact_left (hw : 2 * info.margin ≤ width) (hmax : width < 2 ^ 63) {i : ℕ}
    (hi : i < info.margin) :
    info.Exact width borderType i (info.offsetsWithLeftBorder width borderType i) := by
  intro t ht
  rw [info.left_eq _ _ _ hi]
  exact add_leftOffsets borderType ht hi hw hmax

theorem exact_right (hw : 2 * info.margin ≤ width) (hmax : width < 2 ^ 63) {i : ℕ}
    (hi : i < width) (him : width ≤ i + info.margin) :
    info.Exact width borderType i (info.offsetsWithRightBorder width borderType i) := by
  intro t ht
  have hij : i + (width - 1 - i) + 1 = width := by omega
  rw [info.right_eq _ _ _ _ hmax hw hij (by omega)]
  exact add_rightOffsets borderType ht (by omega) hij hw hmax

theorem exact_without (hw : 2 * info.margin ≤ width) {i : ℕ} (hi : info.margin ≤ i)
    (him : i + info.margin < width) :
    info.Exact width borderType i info.offsetsWithoutBorder := by
  intro t ht
  rw [info.without_eq]
  have := info.margin_pos
  exact add_plainOffsets borderType ht (by omega) hi him

/-- `offsets_with_border`, which `process` uses for rows. -/
theorem exact_border (hw : 2 * info.margin ≤ width) (hmax : width < 2 ^ 63) {i : ℕ}
    (hi : i < width) :
    info.Exact width borderType i (info.offsetsWithBorder width borderType i) := by
  rw [info.border_eq _ _ _ hmax hw hi]
  split_ifs with hleft hright
  · exact exact_left hw hmax hleft
  · exact exact_right hw hmax hi hright
  · exact exact_without hw (by omega) (by omega)

/-- The index of a column on the right does not wrap. -/
theorem right_index (hw : 2 * info.margin ≤ width) (hmax : width < 2 ^ 63) {j : ℕ}
    (hj : j < info.margin) :
    (sizeSub width info.margin + j) % sizeMod = width - info.margin + j := by
  have hmod : width < sizeMod := hmax.trans (by decide)
  rw [sizeSub_eq (by omega) hmod, Nat.mod_eq_of_lt (by omega)]

theorem processHorizontal_columns (hw : 2 * info.margin ≤ width) (hmax : width < 2 ^ 63) :
    (info.processHorizontal width borderType).map Prod.fst = List.range width := by
  have hright : ∀ j ∈ List.range info.margin,
      (sizeSub width info.margin + j) % sizeMod = width - info.margin + j := by
    intro j hj
    exact right_index hw hmax (List.mem_range.mp hj)
  have hbulk : sizeSub width (2 * info.margin) = width - 2 * info.margin :=
    sizeSub_eq hw (hmax.trans (by decide))
  -- The three parts end to end: `[0, m)`, `m + [0, w - 2m)`, `(w - m) + [0, m)`.
  have hsplit : List.range width = List.range info.margin ++
      (List.range (width - 2 * info.margin)).map (info.margin + ·) ++
      (List.range info.margin).map (width - info.margin + ·) := by
    rw [← List.range_add, show width - info.margin = info.margin + (width - 2 * info.margin) by
      omega, ← List.range_add]
    congr 1
    omega
  simp only [processHorizontal, List.map_append, List.map_map, Function.comp_def, hbulk,
    List.map_congr_left hright, List.map_id']
  exact hsplit.symm

theorem exact_processHorizontal (hw : 2 * info.margin ≤ width) (hmax : width < 2 ^ 63)
    {call : ℕ × Offsets} (hc : call ∈ info.processHorizontal width borderType) :
    info.Exact width borderType call.1 call.2 := by
  have hbulk : sizeSub width (2 * info.margin) = width - 2 * info.margin :=
    sizeSub_eq hw (hmax.trans (by decide))
  simp only [processHorizontal, hbulk, List.mem_append, List.mem_map, List.mem_range] at hc
  obtain (⟨i, hi, rfl⟩ | ⟨i, hi, rfl⟩) | ⟨i, hi, rfl⟩ := hc
  · exact exact_left hw hmax hi
  · exact exact_without hw (by omega) (by omega)
  · simp only [right_index hw hmax hi]
    exact exact_right hw hmax (by omega) (by omega)

end FixedBorderInfo

/-- **The offset tables are exact.**  For every kernel size, border type and
length a `ptrdiff_t` can hold, the offsets of every row (`offsets_with_border`)
and of every column (`process_horizontal`) lead to the samples of the extended
image, and these lie inside it. -/
theorem fixedBorderInfo_exact (kernel : FixedKernel) (borderType : FixedBorderType) (n : ℕ)
    (hn : kernel.size - 1 ≤ n) (hmax : n < 2 ^ 63) :
    (∀ i < n, ∀ t < kernel.size,
      (i : ℤ) + (kernel.borderInfo.offsetsWithBorder n borderType i).c t =
        borderType.extension.index n (i + t - (kernel.size / 2 : ℕ))) ∧
    (kernel.borderInfo.processHorizontal n borderType).map Prod.fst = List.range n ∧
    (∀ call ∈ kernel.borderInfo.processHorizontal n borderType, ∀ t < kernel.size,
      (call.1 : ℤ) + call.2.c t =
        borderType.extension.index n (call.1 + t - (kernel.size / 2 : ℕ))) ∧
    (∀ p : ℤ, 0 ≤ borderType.extension.index n p ∧ borderType.extension.index n p < n) := by
  have hw : 2 * kernel.borderInfo.margin ≤ n := by
    have := kernel.size_eq
    omega
  have hm : kernel.size / 2 = kernel.borderInfo.margin := by
    have := kernel.size_eq
    omega
  rw [hm, kernel.size_eq]
  refine ⟨fun i hi => FixedBorderInfo.exact_border hw hmax hi,
    FixedBorderInfo.processHorizontal_columns hw hmax,
    fun call hc => FixedBorderInfo.exact_processHorizontal hw hmax hc, fun p => ?_⟩
  have := kernel.borderInfo.margin_pos
  exact Extension.index_mem _ (by omega)

/-- The shortest row of the largest kernel, where both zones meet. -/
theorem fixedBorderInfo_exact_shortest :
    (9 : ℤ) + (FixedBorderInfo21x21.offsetsWithBorder 20 .wrap 9).c 0 = 19 :=
  (fixedBorderInfo_exact .k21x21 .wrap 20 (by decide) (by decide)).1 9 (by decide) 0 (by decide)

end KleidiCV
