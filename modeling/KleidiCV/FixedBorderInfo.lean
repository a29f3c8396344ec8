/-
Offset tables of the 3x3, 5x5, 7x7 and 9x9 filters, `border_3x3.h` to
`border_9x9.h`.

Each namespace is one header: its three tables row by row, the function that
chooses among them, and the proof that the rows are those of the formulas in
`BorderTypes`.
-/
import KleidiCV.BorderTypes

namespace KleidiCV

namespace FixedBorderInfo3x3

def offsetsWithoutBorder : Offsets :=
  [-1, 0, 1]

def offsetsWithLeftBorder (height : ℕ) (borderType : FixedBorderType) (_columnIndex : ℕ) :
    Offsets :=
  match borderType with
  | .replicate | .reflect => [0, 0, 1]
  | .wrap => [minus height 1, 0, 1]
  | .reverse => [1, 0, 1]

def offsetsWithRightBorder (height : ℕ) (borderType : FixedBorderType) (_columnIndex : ℕ) :
    Offsets :=
  let wrapOffset := -toPtrdiff height
  match borderType with
  | .replicate | .reflect => [-1, 0, 0]
  | .wrap => [-1, 0, 1 + wrapOffset]
  | .reverse => [-1, 0, -1]

def offsetsWithBorder (height : ℕ) (borderType : FixedBorderType) (rowOrColumnIndex : ℕ) :
    Offsets :=
  if rowOrColumnIndex = 0 then offsetsWithLeftBorder height borderType rowOrColumnIndex
  else if rowOrColumnIndex = sizeSub height 1 then
    offsetsWithRightBorder height borderType rowOrColumnIndex
  else offsetsWithoutBorder

theorem left_eq (n : ℕ) (b : FixedBorderType) {i : ℕ} (hi : i < 1) :
    offsetsWithLeftBorder n b i = leftOffsets 1 n b i := by
  interval_cases i
  cases b <;>
    simp [offsetsWithLeftBorder, leftOffsets, List.range, List.range.loop]

theorem right_eq {n i j : ℕ} (b : FixedBorderType) (hj : j < 1) :
    offsetsWithRightBorder n b i = rightOffsets 1 n b j := by
  interval_cases j
  cases b <;>
    simp [offsetsWithRightBorder, rightOffsets, List.range, List.range.loop]

/-- The tables of `border_3x3.h`. -/
def info : FixedBorderInfo where
  margin := 1
  offsetsWithoutBorder := offsetsWithoutBorder
  offsetsWithLeftBorder := offsetsWithLeftBorder
  offsetsWithRightBorder := offsetsWithRightBorder
  offsetsWithBorder := offsetsWithBorder
  margin_pos := by decide
  without_eq := by decide
  left_eq := fun n b _ hi => left_eq n b hi
  right_eq := fun _ b _ _ _ _ _ hj => right_eq b hj
  border_eq := by
    intro n b i hn hmn hi
    have hs : sizeSub n 1 = n - 1 := sizeSub_eq (by omega) (hn.trans (by decide))
    unfold offsetsWithBorder
    rw [hs]
    split_ifs <;> first
      | omega
      | rfl

end FixedBorderInfo3x3

namespace FixedBorderInfo5x5

def offsetsWithoutBorder : Offsets :=
  [-2, -1, 0, 1, 2]

def offsetsWithLeftBorder (height : ℕ) (borderType : FixedBorderType) (columnIndex : ℕ) :
    Offsets :=
  match borderType with
  | .replicate =>
    if columnIndex = 0 then
      [0, 0, 0, 1, 2]
    else
      [-1, -1, 0, 1, 2]
  | .reflect =>
    if columnIndex = 0 then
      [1, 0, 0, 1, 2]
    else
      [-1, -1, 0, 1, 2]
  | .wrap =>
    if columnIndex = 0 then
      [minus height 2, minus height 1, 0, 1, 2]
    else
      [minus height 2, -1, 0, 1, 2]
  | .reverse =>
    if columnIndex = 0 then
      [2, 1, 0, 1, 2]
    else
      [0, -1, 0, 1, 2]

def offsetsWithRightBorder (height : ℕ) (borderType : FixedBorderType) (columnIndex : ℕ) :
    Offsets :=
  let wrapOffset := -toPtrdiff height
  match borderType with
  | .replicate =>
    if columnIndex = sizeSub height 2 then
      [-2, -1, 0, 1, 1]
    else
      [-2, -1, 0, 0, 0]
  | .reflect =>
    if columnIndex = sizeSub height 2 then
      [-2, -1, 0, 1, 1]
    else
      [-2, -1, 0, 0, -1]
  | .wrap =>
    if columnIndex = sizeSub height 2 then
      [-2, -1, 0, 1, 2 + wrapOffset]
    else
      [-2, -1, 0, 1 + wrapOffset, 2 + wrapOffset]
  | .reverse =>
    if columnIndex = sizeSub height 2 then
      [-2, -1, 0, 1, 0]
    else
      [-2, -1, 0, -1, -2]

def offsetsWithBorder (height : ℕ) (borderType : FixedBorderType) (rowOrColumnIndex : ℕ) :
    Offsets :=
  if rowOrColumnIndex ≤ 1 then offsetsWithLeftBorder height borderType rowOrColumnIndex
  else if rowOrColumnIndex ≥ sizeSub height 2 then
    offsetsWithRightBorder height borderType rowOrColumnIndex
  else offsetsWithoutBorder

theorem left_eq (n : ℕ) (b : FixedBorderType) {i : ℕ} (hi : i < 2) :
    offsetsWithLeftBorder n b i = leftOffsets 2 n b i := by
  interval_cases i <;> cases b <;>
    simp [offsetsWithLeftBorder, leftOffsets, List.range, List.range.loop]

theorem right_eq {n i j : ℕ} (b : FixedBorderType) (hn : n < 2 ^ 63) (hmn : 4 ≤ n)
    (hij : i + j + 1 = n) (hj : j < 2) :
    offsetsWithRightBorder n b i = rightOffsets 2 n b j := by
  have hk : ∀ k ≤ 2, (i = sizeSub n k ↔ j + 1 = k) := by
    intro k hk
    exact eq_sizeSub_iff hn hij (by omega)
  interval_cases j <;> cases b <;>
    simp [offsetsWithRightBorder, rightOffsets, hk, List.range, List.range.loop]

/-- The tables of `border_5x5.h`. -/
def info : FixedBorderInfo where
  margin := 2
  offsetsWithoutBorder := offsetsWithoutBorder
  offsetsWithLeftBorder := offsetsWithLeftBorder
  offsetsWithRightBorder := offsetsWithRightBorder
  offsetsWithBorder := offsetsWithBorder
  margin_pos := by decide
  without_eq := by decide
  left_eq := fun n b _ hi => left_eq n b hi
  right_eq := fun _ b _ _ hn hmn hij hj => right_eq b hn hmn hij hj
  border_eq := by
    intro n b i hn hmn hi
    have hs : sizeSub n 2 = n - 2 := sizeSub_eq (by omega) (hn.trans (by decide))
    unfold offsetsWithBorder
    rw [hs]
    split_ifs <;> first
      | omega
      | rfl

end FixedBorderInfo5x5

namespace FixedBorderInfo7x7

def offsetsWithoutBorder : Offsets :=
  [-3, -2, -1, 0, 1, 2, 3]

def offsetsWithLeftBorder (height : ℕ) (borderType : FixedBorderType) (columnIndex : ℕ) :
    Offsets :=
  match borderType with
  | .replicate =>
    if columnIndex = 0 then
      [0, 0, 0, 0, 1, 2, 3]
    else if columnIndex = 1 then
      [-1, -1, -1, 0, 1, 2, 3]
    else
      [-2, -2, -1, 0, 1, 2, 3]
  | .reflect =>
    if columnIndex = 0 then
      [2, 1, 0, 0, 1, 2, 3]
    else if columnIndex = 1 then
      [0, -1, -1, 0, 1, 2, 3]
    else
      [-2, -2, -1, 0, 1, 2, 3]
  | .wrap =>
    if columnIndex = 0 then
      [minus height 3, minus height 2, minus height 1, 0, 1, 2, 3]
    else if columnIndex = 1 then
      [minus height 3, minus height 2, -1, 0, 1, 2, 3]
    else
      [minus height 3, -2, -1, 0, 1, 2, 3]
  | .reverse =>
    if columnIndex = 0 then
      [3, 2, 1, 0, 1, 2, 3]
    else if columnIndex = 1 then
      [1, 0, -1, 0, 1, 2, 3]
    else
      [-1, -2, -1, 0, 1, 2, 3]

def offsetsWithRightBorder (height : ℕ) (borderType : FixedBorderType) (columnIndex : ℕ) :
    Offsets :=
  let wrapOffset := -toPtrdiff height
  match borderType with
  | .replicate =>
    if columnIndex = sizeSub height 3 then
      [-3, -2, -1, 0, 1, 2, 2]
    else if columnIndex = sizeSub height 2 then
      [-3, -2, -1, 0, 1, 1, 1]
    else
      [-3, -2, -1, 0, 0, 0, 0]
  | .reflect =>
    if columnIndex = sizeSub height 3 then
      [-3, -2, -1, 0, 1, 2, 2]
    else if columnIndex = sizeSub height 2 then
      [-3, -2, -1, 0, 1, 1, 0]
    else
      [-3, -2, -1, 0, 0, -1, -2]
  | .wrap =>
    if columnIndex = sizeSub height 3 then
      [-3, -2, -1, 0, 1, 2, 3 + wrapOffset]
    else if columnIndex = sizeSub height 2 then
      [-3, -2, -1, 0, 1, 2 + wrapOffset, 3 + wrapOffset]
    else
      [-3, -2, -1, 0, 1 + wrapOffset, 2 + wrapOffset, 3 + wrapOffset]
  | .reverse =>
    if columnIndex = sizeSub height 3 then
      [-3, -2, -1, 0, 1, 2, 1]
    else if columnIndex = sizeSub height 2 then
      [-3, -2, -1, 0, 1, 0, -1]
    else
      [-3, -2, -1, 0, -1, -2, -3]

def offsetsWithBorder (height : ℕ) (borderType : FixedBorderType) (rowOrColumnIndex : ℕ) :
    Offsets :=
  if rowOrColumnIndex ≤ 2 then offsetsWithLeftBorder height borderType rowOrColumnIndex
  else if rowOrColumnIndex ≥ sizeSub height 3 then
    offsetsWithRightBorder height borderType rowOrColumnIndex
  else offsetsWithoutBorder

theorem left_eq (n : ℕ) (b : FixedBorderType) {i : ℕ} (hi : i < 3) :
    offsetsWithLeftBorder n b i = leftOffsets 3 n b i := by
  interval_cases i <;> cases b <;>
    simp [offsetsWithLeftBorder, leftOffsets, List.range, List.range.loop]

theorem right_eq {n i j : ℕ} (b : FixedBorderType) (hn : n < 2 ^ 63) (hmn : 6 ≤ n)
    (hij : i + j + 1 = n) (hj : j < 3) :
    offsetsWithRightBorder n b i = rightOffsets 3 n b j := by
  have hk : ∀ k ≤ 3, (i = sizeSub n k ↔ j + 1 = k) := by
    intro k hk
    exact eq_sizeSub_iff hn hij (by omega)
  interval_cases j <;> cases b <;>
    simp [offsetsWithRightBorder, rightOffsets, hk, List.range, List.range.loop]

/-- The tables of `border_7x7.h`. -/
def info : FixedBorderInfo where
  margin := 3
  offsetsWithoutBorder := offsetsWithoutBorder
  offsetsWithLeftBorder := offsetsWithLeftBorder
  offsetsWithRightBorder := offsetsWithRightBorder
  offsetsWithBorder := offsetsWithBorder
  margin_pos := by decide
  without_eq := by decide
  left_eq := fun n b _ hi => left_eq n b hi
  right_eq := fun _ b _ _ hn hmn hij hj => right_eq b hn hmn hij hj
  border_eq := by
    intro n b i hn hmn hi
    have hs : sizeSub n 3 = n - 3 := sizeSub_eq (by omega) (hn.trans (by decide))
    unfold offsetsWithBorder
    rw [hs]
    split_ifs <;> first
      | omega
      | rfl

end FixedBorderInfo7x7

namespace FixedBorderInfo9x9

def offsetsWithoutBorder : Offsets :=
  [-4, -3, -2, -1, 0, 1, 2, 3, 4]

def offsetsWithLeftBorder (height : ℕ) (borderType : FixedBorderType) (columnIndex : ℕ) :
    Offsets :=
  match borderType with
  | .replicate =>
    if columnIndex = 0 then
      [0, 0, 0, 0, 0, 1, 2, 3, 4]
    else if columnIndex = 1 then
      [-1, -1, -1, -1, 0, 1, 2, 3, 4]
    else if columnIndex = 2 then
      [-2, -2, -2, -1, 0, 1, 2, 3, 4]
    else
      [-3, -3, -2, -1, 0, 1, 2, 3, 4]
  | .reflect =>
    if columnIndex = 0 then
      [3, 2, 1, 0, 0, 1, 2, 3, 4]
    else if columnIndex = 1 then
      [1, 0, -1, -1, 0, 1, 2, 3, 4]
    else if columnIndex = 2 then
      [-1, -2, -2, -1, 0, 1, 2, 3, 4]
    else
      [-3, -3, -2, -1, 0, 1, 2, 3, 4]
  | .wrap =>
    if columnIndex = 0 then
      [minus height 4, minus height 3, minus height 2, minus height 1, 0, 1, 2, 3, 4]
    else if columnIndex = 1 then
      [minus height 4, minus height 3, minus height 2, -1, 0, 1, 2, 3, 4]
    else if columnIndex = 2 then
      [minus height 4, minus height 3, -2, -1, 0, 1, 2, 3, 4]
    else
      [minus height 4, -3, -2, -1, 0, 1, 2, 3, 4]
  | .reverse =>
    if columnIndex = 0 then
      [4, 3, 2, 1, 0, 1, 2, 3, 4]
    else if columnIndex = 1 then
      [2, 1, 0, -1, 0, 1, 2, 3, 4]
    else if columnIndex = 2 then
      [0, -1, -2, -1, 0, 1, 2, 3, 4]
    else
      [-2, -3, -2, -1, 0, 1, 2, 3, 4]

def offsetsWithRightBorder (height : ℕ) (borderType : FixedBorderType) (columnIndex : ℕ) :
    Offsets :=
  let wrapOffset := -toPtrdiff height
  match borderType with
  | .replicate =>
    if columnIndex = sizeSub height 4 then
      [-4, -3, -2, -1, 0, 1, 2, 3, 3]
    else if columnIndex = sizeSub height 3 then
      [-4, -3, -2, -1, 0, 1, 2, 2, 2]
    else if columnIndex = sizeSub height 2 then
      [-4, -3, -2, -1, 0, 1, 1, 1, 1]
    else
      [-4, -3, -2, -1, 0, 0, 0, 0, 0]
  | .reflect =>
    if columnIndex = sizeSub height 4 then
      [-4, -3, -2, -1, 0, 1, 2, 3, 3]
    else if columnIndex = sizeSub height 3 then
      [-4, -3, -2, -1, 0, 1, 2, 2, 1]
    else if columnIndex = sizeSub height 2 then
      [-4, -3, -2, -1, 0, 1, 1, 0, -1]
    else
      [-4, -3, -2, -1, 0, 0, -1, -2, -3]
  | .wrap =>
    if columnIndex = sizeSub height 4 then
      [-4, -3, -2, -1, 0, 1, 2, 3, 4 + wrapOffset]
    else if columnIndex = sizeSub height 3 then
      [-4, -3, -2, -1, 0, 1, 2, 3 + wrapOffset, 4 + wrapOffset]
    else if columnIndex = sizeSub height 2 then
      [-4, -3, -2, -1, 0, 1, 2 + wrapOffset, 3 + wrapOffset, 4 + wrapOffset]
    else
      [-4, -3, -2, -1, 0, 1 + wrapOffset, 2 + wrapOffset, 3 + wrapOffset, 4 + wrapOffset]
  | .reverse =>
    if columnIndex = sizeSub height 4 then
      [-4, -3, -2, -1, 0, 1, 2, 3, 2]
    else if columnIndex = sizeSub height 3 then
      [-4, -3, -2, -1, 0, 1, 2, 1, 0]
    else if columnIndex = sizeSub height 2 then
      [-4, -3, -2, -1, 0, 1, 0, -1, -2]
    else
      [-4, -3, -2, -1, 0, -1, -2, -3, -4]

def offsetsWithBorder (height : ℕ) (borderType : FixedBorderType) (rowOrColumnIndex : ℕ) :
    Offsets :=
  if rowOrColumnIndex ≤ 3 then offsetsWithLeftBorder height borderType rowOrColumnIndex
  else if rowOrColumnIndex ≥ sizeSub height 4 then
    offsetsWithRightBorder height borderType rowOrColumnIndex
  else offsetsWithoutBorder

theorem left_eq (n : ℕ) (b : FixedBorderType) {i : ℕ} (hi : i < 4) :
    offsetsWithLeftBorder n b i = leftOffsets 4 n b i := by
  interval_cases i <;> cases b <;>
    simp [offsetsWithLeftBorder, leftOffsets, List.range, List.range.loop]

theorem right_eq {n i j : ℕ} (b : FixedBorderType) (hn : n < 2 ^ 63) (hmn : 8 ≤ n)
    (hij : i + j + 1 = n) (hj : j < 4) :
    offsetsWithRightBorder n b i = rightOffsets 4 n b j := by
  have hk : ∀ k ≤ 4, (i = sizeSub n k ↔ j + 1 = k) := by
    intro k hk
    exact eq_sizeSub_iff hn hij (by omega)
  interval_cases j <;> cases b <;>
    simp [offsetsWithRightBorder, rightOffsets, hk, List.range, List.range.loop]

/-- The tables of `border_9x9.h`. -/
def info : FixedBorderInfo where
  margin := 4
  offsetsWithoutBorder := offsetsWithoutBorder
  offsetsWithLeftBorder := offsetsWithLeftBorder
  offsetsWithRightBorder := offsetsWithRightBorder
  offsetsWithBorder := offsetsWithBorder
  margin_pos := by decide
  without_eq := by decide
  left_eq := fun n b _ hi => left_eq n b hi
  right_eq := fun _ b _ _ hn hmn hij hj => right_eq b hn hmn hij hj
  border_eq := by
    intro n b i hn hmn hi
    have hs : sizeSub n 4 = n - 4 := sizeSub_eq (by omega) (hn.trans (by decide))
    unfold offsetsWithBorder
    rw [hs]
    split_ifs <;> first
      | omega
      | rfl

end FixedBorderInfo9x9

end KleidiCV
