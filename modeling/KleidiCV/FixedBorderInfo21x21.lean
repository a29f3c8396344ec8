/-
Offset tables of the 21x21 filters, `border_21x21.h`.
-/
import KleidiCV.BorderTypes

namespace KleidiCV

namespace FixedBorderInfo21x21

def offsetsWithoutBorder : Offsets :=
  [-10, -9, -8, -7, -6, -5, -4, -3, -2, -1, 0, 1, 2, 3, 4, 5, 6, 7, 8, 9, 10]

def offsetsWithLeftBorder (width : ℕ) (borderType : FixedBorderType) (columnIndex : ℕ) :
    Offsets :=
  match borderType with
  | .replicate =>
    if columnIndex = 0 then
      [0, 0, 0, 0, 0, 0, 0, 0, 0, 0, 0, 1, 2, 3, 4, 5, 6, 7, 8, 9, 10]
    else if columnIndex = 1 then
      [-1, -1, -1, -1, -1, -1, -1, -1, -1, -1, 0, 1, 2, 3, 4, 5, 6, 7, 8, 9, 10]
    else if columnIndex = 2 then
      [-2, -2, -2, -2, -2, -2, -2, -2, -2, -1, 0, 1, 2, 3, 4, 5, 6, 7, 8, 9, 10]
    else if columnIndex = 3 then
      [-3, -3, -3, -3, -3, -3, -3, -3, -2, -1, 0, 1, 2, 3, 4, 5, 6, 7, 8, 9, 10]
    else if columnIndex = 4 then
      [-4, -4, -4, -4, -4, -4, -4, -3, -2, -1, 0, 1, 2, 3, 4, 5, 6, 7, 8, 9, 10]
    else if columnIndex = 5 then
      [-5, -5, -5, -5, -5, -5, -4, -3, -2, -1, 0, 1, 2, 3, 4, 5, 6, 7, 8, 9, 10]
    else if columnIndex = 6 then
      [-6, -6, -6, -6, -6, -5, -4, -3, -2, -1, 0, 1, 2, 3, 4, 5, 6, 7, 8, 9, 10]
    else if columnIndex = 7 then
      [-7, -7, -7, -7, -6, -5, -4, -3, -2, -1, 0, 1, 2, 3, 4, 5, 6, 7, 8, 9, 10]
    else if columnIndex = 8 then
      [-8, -8, -8, -7, -6, -5, -4, -3, -2, -1, 0, 1, 2, 3, 4, 5, 6, 7, 8, 9, 10]
    else
      [-9, -9, -8, -7, -6, -5, -4, -3, -2, -1, 0, 1, 2, 3, 4, 5, 6, 7, 8, 9, 10]
  | .reflect =>
    if columnIndex = 0 then
      [9, 8, 7, 6, 5, 4, 3, 2, 1, 0, 0, 1, 2, 3, 4, 5, 6, 7, 8, 9, 10]
    else if columnIndex = 1 then
      [7, 6, 5, 4, 3, 2, 1, 0, -1, -1, 0, 1, 2, 3, 4, 5, 6, 7, 8, 9, 10]
    else if columnIndex = 2 then
      [5, 4, 3, 2, 1, 0, -1, -2, -2, -1, 0, 1, 2, 3, 4, 5, 6, 7, 8, 9, 10]
    else if columnIndex = 3 then
      [3, 2, 1, 0, -1, -2, -3, -3, -2, -1, 0, 1, 2, 3, 4, 5, 6, 7, 8, 9, 10]
    else if columnIndex = 4 then
      [1, 0, -1, -2, -3, -4, -4, -3, -2, -1, 0, 1, 2, 3, 4, 5, 6, 7, 8, 9, 10]
    else if columnIndex = 5 then
      [-1, -2, -3, -4, -5, -5, -4, -3, -2, -1, 0, 1, 2, 3, 4, 5, 6, 7, 8, 9, 10]
    else if columnIndex = 6 then
      [-3, -4, -5, -6, -6, -5, -4, -3, -2, -1, 0, 1, 2, 3, 4, 5, 6, 7, 8, 9, 10]
    else if columnIndex = 7 then
      [-5, -6, -7, -7, -6, -5, -4, -3, -2, -1, 0, 1, 2, 3, 4, 5, 6, 7, 8, 9, 10]
    else if columnIndex = 8 then
      [-7, -8, -8, -7, -6, -5, -4, -3, -2, -1, 0, 1, 2, 3, 4, 5, 6, 7, 8, 9, 10]
    else
      [-9, -9, -8, -7, -6, -5, -4, -3, -2, -1, 0, 1, 2, 3, 4, 5, 6, 7, 8, 9, 10]
  | .wrap =>
    if columnIndex = 0 then
      [minus width 10, minus width 9, minus width 8, minus width 7, minus width 6, minus width 5,
       minus width 4, minus width 3, minus width 2, minus width 1, 0, 1, 2, 3, 4, 5, 6, 7, 8, 9,
       10]
    else if columnIndex = 1 then
      [minus width 10, minus width 9, minus width 8, minus width 7, minus width 6, minus width 5,
       minus width 4, minus width 3, minus width 2, -1, 0, 1, 2, 3, 4, 5, 6, 7, 8, 9, 10]
    else if columnIndex = 2 then
      [minus width 10, minus width 9, minus width 8, minus width 7, minus width 6, minus width 5,
       minus width 4, minus width 3, -2, -1, 0, 1, 2, 3, 4, 5, 6, 7, 8, 9, 10]
    else if columnIndex = 3 then
      [minus width 10, minus width 9, minus width 8, minus width 7, minus width 6, minus width 5,
       minus width 4, -3, -2, -1, 0, 1, 2, 3, 4, 5, 6, 7, 8, 9, 10]
    else if columnIndex = 4 then
      [minus width 10, minus width 9, minus width 8, minus width 7, minus width 6, minus width 5,
       -4, -3, -2, -1, 0, 1, 2, 3, 4, 5, 6, 7, 8, 9, 10]
    else if columnIndex = 5 then
      [minus width 10, minus width 9, minus width 8, minus width 7, minus width 6, -5, -4, -3, -2,
       -1, 0, 1, 2, 3, 4, 5, 6, 7, 8, 9, 10]
    else if columnIndex = 6 then
      [minus width 10, minus width 9, minus width 8, minus width 7, -6, -5, -4, -3, -2, -1, 0, 1,
       2, 3, 4, 5, 6, 7, 8, 9, 10]
    else if columnIndex = 7 then
      [minus width 10, minus width 9, minus width 8, -7, -6, -5, -4, -3, -2, -1, 0, 1, 2, 3, 4, 5,
       6, 7, 8, 9, 10]
    else if columnIndex = 8 then
      [minus width 10, minus width 9, -8, -7, -6, -5, -4, -3, -2, -1, 0, 1, 2, 3, 4, 5, 6, 7, 8,
       9, 10]
    else
      [minus width 10, -9, -8, -7, -6, -5, -4, -3, -2, -1, 0, 1, 2, 3, 4, 5, 6, 7, 8, 9, 10]
  | .reverse =>
    if columnIndex = 0 then
      [10, 9, 8, 7, 6, 5, 4, 3, 2, 1, 0, 1, 2, 3, 4, 5, 6, 7, 8, 9, 10]
    else if columnIndex = 1 then
      [8, 7, 6, 5, 4, 3, 2, 1, 0, -1, 0, 1, 2, 3, 4, 5, 6, 7, 8, 9, 10]
    else if columnIndex = 2 then
      [6, 5, 4, 3, 2, 1, 0, -1, -2, -1, 0, 1, 2, 3, 4, 5, 6, 7, 8, 9, 10]
    else if columnIndex = 3 then
      [4, 3, 2, 1, 0, -1, -2, -3, -2, -1, 0, 1, 2, 3, 4, 5, 6, 7, 8, 9, 10]
    else if columnIndex = 4 then
      [2, 1, 0, -1, -2, -3, -4, -3, -2, -1, 0, 1, 2, 3, 4, 5, 6, 7, 8, 9, 10]
    else if columnIndex = 5 then
      [0, -1, -2, -3, -4, -5, -4, -3, -2, -1, 0, 1, 2, 3, 4, 5, 6, 7, 8, 9, 10]
    else if columnIndex = 6 then
      [-2, -3, -4, -5, -6, -5, -4, -3, -2, -1, 0, 1, 2, 3, 4, 5, 6, 7, 8, 9, 10]
    else if columnIndex = 7 then
      [-4, -5, -6, -7, -6, -5, -4, -3, -2, -1, 0, 1, 2, 3, 4, 5, 6, 7, 8, 9, 10]
    else if columnIndex = 8 then
      [-6, -7, -8, -7, -6, -5, -4, -3, -2, -1, 0, 1, 2, 3, 4, 5, 6, 7, 8, 9, 10]
    else
      [-8, -9, -8, -7, -6, -5, -4, -3, -2, -1, 0, 1, 2, 3, 4, 5, 6, 7, 8, 9, 10]

def offsetsWithRightBorder (width : ℕ) (borderType : FixedBorderType) (columnIndex : ℕ) :
    Offsets :=
  let wrapOffset := -toPtrdiff width
  match borderType with
  | .replicate =>
    if columnIndex = sizeSub width 10 then
      [-10, -9, -8, -7, -6, -5, -4, -3, -2, -1, 0, 1, 2, 3, 4, 5, 6, 7, 8, 9, 9]
    else if columnIndex = sizeSub width 9 then
      [-10, -9, -8, -7, -6, -5, -4, -3, -2, -1, 0, 1, 2, 3, 4, 5, 6, 7, 8, 8, 8]
    else if columnIndex = sizeSub width 8 then
      [-10, -9, -8, -7, -6, -5, -4, -3, -2, -1, 0, 1, 2, 3, 4, 5, 6, 7, 7, 7, 7]
    else if columnIndex = sizeSub width 7 then
      [-10, -9, -8, -7, -6, -5, -4, -3, -2, -1, 0, 1, 2, 3, 4, 5, 6, 6, 6, 6, 6]
    else if columnIndex = sizeSub width 6 then
      [-10, -9, -8, -7, -6, -5, -4, -3, -2, -1, 0, 1, 2, 3, 4, 5, 5, 5, 5, 5, 5]
    else if columnIndex = sizeSub width 5 then
      [-10, -9, -8, -7, -6, -5, -4, -3, -2, -1, 0, 1, 2, 3, 4, 4, 4, 4, 4, 4, 4]
    else if columnIndex = sizeSub width 4 then
      [-10, -9, -8, -7, -6, -5, -4, -3, -2, -1, 0, 1, 2, 3, 3, 3, 3, 3, 3, 3, 3]
    else if columnIndex = sizeSub width 3 then
      [-10, -9, -8, -7, -6, -5, -4, -3, -2, -1, 0, 1, 2, 2, 2, 2, 2, 2, 2, 2, 2]
    else if columnIndex = sizeSub width 2 then
      [-10, -9, -8, -7, -6, -5, -4, -3, -2, -1, 0, 1, 1, 1, 1, 1, 1, 1, 1, 1, 1]
    else
      [-10, -9, -8, -7, -6, -5, -4, -3, -2, -1, 0, 0, 0, 0, 0, 0, 0, 0, 0, 0, 0]
  | .reflect =>
    if columnIndex = sizeSub width 10 then
      [-10, -9, -8, -7, -6, -5, -4, -3, -2, -1, 0, 1, 2, 3, 4, 5, 6, 7, 8, 9, 9]
    else if columnIndex = sizeSub width 9 then
      [-10, -9, -8, -7, -6, -5, -4, -3, -2, -1, 0, 1, 2, 3, 4, 5, 6, 7, 8, 8, 7]
    else if columnIndex = sizeSub width 8 then
      [-10, -9, -8, -7, -6, -5, -4, -3, -2, -1, 0, 1, 2, 3, 4, 5, 6, 7, 7, 6, 5]
    else if columnIndex = sizeSub width 7 then
      [-10, -9, -8, -7, -6, -5, -4, -3, -2, -1, 0, 1, 2, 3, 4, 5, 6, 6, 5, 4, 3]
    else if columnIndex = sizeSub width 6 then
      [-10, -9, -8, -7, -6, -5, -4, -3, -2, -1, 0, 1, 2, 3, 4, 5, 5, 4, 3, 2, 1]
    else if columnIndex = sizeSub width 5 then
      [-10, -9, -8, -7, -6, -5, -4, -3, -2, -1, 0, 1, 2, 3, 4, 4, 3, 2, 1, 0, -1]
    else if columnIndex = sizeSub width 4 then
      [-10, -9, -8, -7, -6, -5, -4, -3, -2, -1, 0, 1, 2, 3, 3, 2, 1, 0, -1, -2, -3]
    else if columnIndex = sizeSub width 3 then
      [-10, -9, -8, -7, -6, -5, -4, -3, -2, -1, 0, 1, 2, 2, 1, 0, -1, -2, -3, -4, -5]
    else if columnIndex = sizeSub width 2 then
      [-10, -9, -8, -7, -6, -5, -4, -3, -2, -1, 0, 1, 1, 0, -1, -2, -3, -4, -5, -6, -7]
    else
      [-10, -9, -8, -7, -6, -5, -4, -3, -2, -1, 0, 0, -1, -2, -3, -4, -5, -6, -7, -8, -9]
  | .wrap =>
    if columnIndex = sizeSub width 10 then
      [-10, -9, -8, -7, -6, -5, -4, -3, -2, -1, 0, 1, 2, 3, 4, 5, 6, 7, 8, 9, 10 + wrapOffset]
    else if columnIndex = sizeSub width 9 then
      [-10, -9, -8, -7, -6, -5, -4, -3, -2, -1, 0, 1, 2, 3, 4, 5, 6, 7, 8, 9 + wrapOffset,
       10 + wrapOffset]
    else if columnIndex = sizeSub width 8 then
      [-10, -9, -8, -7, -6, -5, -4, -3, -2, -1, 0, 1, 2, 3, 4, 5, 6, 7, 8 + wrapOffset,
       9 + wrapOffset, 10 + wrapOffset]
    else if columnIndex = sizeSub width 7 then
      [-10, -9, -8, -7, -6, -5, -4, -3, -2, -1, 0, 1, 2, 3, 4, 5, 6, 7 + wrapOffset,
       8 + wrapOffset, 9 + wrapOffset, 10 + wrapOffset]
    else if columnIndex = sizeSub width 6 then
      [-10, -9, -8, -7, -6, -5, -4, -3, -2, -1, 0, 1, 2, 3, 4, 5, 6 + wrapOffset, 7 + wrapOffset,
       8 + wrapOffset, 9 + wrapOffset, 10 + wrapOffset]
    else if columnIndex = sizeSub width 5 then
      [-10, -9, -8, -7, -6, -5, -4, -3, -2, -1, 0, 1, 2, 3, 4, 5 + wrapOffset, 6 + wrapOffset,
       7 + wrapOffset, 8 + wrapOffset, 9 + wrapOffset, 10 + wrapOffset]
    else if columnIndex = sizeSub width 4 then
      [-10, -9, -8, -7, -6, -5, -4, -3, -2, -1, 0, 1, 2, 3, 4 + wrapOffset, 5 + wrapOffset,
       6 + wrapOffset, 7 + wrapOffset, 8 + wrapOffset, 9 + wrapOffset, 10 + wrapOffset]
    else if columnIndex = sizeSub width 3 then
      [-10, -9, -8, -7, -6, -5, -4, -3, -2, -1, 0, 1, 2, 3 + wrapOffset, 4 + wrapOffset,
       5 + wrapOffset, 6 + wrapOffset, 7 + wrapOffset, 8 + wrapOffset, 9 + wrapOffset,
       10 + wrapOffset]
    else if columnIndex = sizeSub width 2 then
      [-10, -9, -8, -7, -6, -5, -4, -3, -2, -1, 0, 1, 2 + wrapOffset, 3 + wrapOffset,
       4 + wrapOffset, 5 + wrapOffset, 6 + wrapOffset, 7 + wrapOffset, 8 + wrapOffset,
       9 + wrapOffset, 10 + wrapOffset]
    else
      [-10, -9, -8, -7, -6, -5, -4, -3, -2, -1, 0, 1 + wrapOffset, 2 + wrapOffset, 3 + wrapOffset,
       4 + wrapOffset, 5 + wrapOffset, 6 + wrapOffset, 7 + wrapOffset, 8 + wrapOffset,
       9 + wrapOffset, 10 + wrapOffset]
  | .reverse =>
    if columnIndex = sizeSub width 10 then
      [-10, -9, -8, -7, -6, -5, -4, -3, -2, -1, 0, 1, 2, 3, 4, 5, 6, 7, 8, 9, 8]
    else if columnIndex = sizeSub width 9 then
      [-10, -9, -8, -7, -6, -5, -4, -3, -2, -1, 0, 1, 2, 3, 4, 5, 6, 7, 8, 7, 6]
    else if columnIndex = sizeSub width 8 then
      [-10, -9, -8, -7, -6, -5, -4, -3, -2, -1, 0, 1, 2, 3, 4, 5, 6, 7, 6, 5, 4]
    else if columnIndex = sizeSub width 7 then
      [-10, -9, -8, -7, -6, -5, -4, -3, -2, -1, 0, 1, 2, 3, 4, 5, 6, 5, 4, 3, 2]
    else if columnIndex = sizeSub width 6 then
      [-10, -9, -8, -7, -6, -5, -4, -3, -2, -1, 0, 1, 2, 3, 4, 5, 4, 3, 2, 1, 0]
    else if columnIndex = sizeSub width 5 then
      [-10, -9, -8, -7, -6, -5, -4, -3, -2, -1, 0, 1, 2, 3, 4, 3, 2, 1, 0, -1, -2]
    else if columnIndex = sizeSub width 4 then
      [-10, -9, -8, -7, -6, -5, -4, -3, -2, -1, 0, 1, 2, 3, 2, 1, 0, -1, -2, -3, -4]
    else if columnIndex = sizeSub width 3 then
      [-10, -9, -8, -7, -6, -5, -4, -3, -2, -1, 0, 1, 2, 1, 0, -1, -2, -3, -4, -5, -6]
    else if columnIndex = sizeSub width 2 then
      [-10, -9, -8, -7, -6, -5, -4, -3, -2, -1, 0, 1, 0, -1, -2, -3, -4, -5, -6, -7, -8]
    else
      [-10, -9, -8, -7, -6, -5, -4, -3, -2, -1, 0, -1, -2, -3, -4, -5, -6, -7, -8, -9, -10]

def offsetsWithBorder (width : ℕ) (borderType : FixedBorderType) (rowOrColumnIndex : ℕ) :
    Offsets :=
  if rowOrColumnIndex < 10 then offsetsWithLeftBorder width borderType rowOrColumnIndex
  else if rowOrColumnIndex ≥ sizeSub width 10 then
    offsetsWithRightBorder width borderType rowOrColumnIndex
  else offsetsWithoutBorder

theorem left_eq (n : ℕ) (b : FixedBorderType) {i : ℕ} (hi : i < 10) :
    offsetsWithLeftBorder n b i = leftOffsets 10 n b i := by
  interval_cases i <;> cases b <;>
    simp [offsetsWithLeftBorder, leftOffsets, List.range, List.range.loop]

theorem right_eq {n i j : ℕ} (b : FixedBorderType) (hn : n < 2 ^ 63) (hmn : 20 ≤ n)
    (hij : i + j + 1 = n) (hj : j < 10) :
    offsetsWithRightBorder n b i = rightOffsets 10 n b j := by
  have hk : ∀ k ≤ 10, (i = sizeSub n k ↔ j + 1 = k) := by
    intro k hk
    exact eq_sizeSub_iff hn hij (by omega)
  interval_cases j <;> cases b <;>
    simp [offsetsWithRightBorder, rightOffsets, hk, List.range, List.range.loop]

/-- The tables of `border_21x21.h`. -/
def info : FixedBorderInfo where
  margin := 10
  offsetsWithoutBorder := offsetsWithoutBorder
  offsetsWithLeftBorder := offsetsWithLeftBorder
  offsetsWithRightBorder := offsetsWithRightBorder
  offsetsWithBorder := offsetsWithBorder
  margin_pos := by decide
  without_eq := by decide
  left_eq := fun n b _ hi => left_eq n b hi
  right_eq := fun _ b _ _ hn hmn hij hj => right_eq b hn hmn hij hj
  border_eq := by
    intro n b i hn hmn hi
    have hs : sizeSub n 10 = n - 10 := sizeSub_eq (by omega) (hn.trans (by decide))
    unfold offsetsWithBorder
    rw [hs]
    split_ifs <;> first
      | omega
      | rfl

end FixedBorderInfo21x21

end KleidiCV
