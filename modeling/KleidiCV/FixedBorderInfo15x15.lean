/-
Offset tables of the 15x15 filters, `border_15x15.h`.
-/
import KleidiCV.BorderTypes

namespace KleidiCV

namespace FixedBorderInfo15x15

def offsetsWithoutBorder : Offsets :=
  [-7, -6, -5, -4, -3, -2, -1, 0, 1, 2, 3, 4, 5, 6, 7]

def offsetsWithLeftBorder (height : ℕ) (borderType : FixedBorderType) (columnIndex : ℕ) :
    Offsets :=
  match borderType with
  | .replicate =>
    if columnIndex = 0 then
      [0, 0, 0, 0, 0, 0, 0, 0, 1, 2, 3, 4, 5, 6, 7]
    else if columnIndex = 1 then
      [-1, -1, -1, -1, -1, -1, -1, 0, 1, 2, 3, 4, 5, 6, 7]
    else if columnIndex = 2 then
      [-2, -2, -2, -2, -2, -2, -1, 0, 1, 2, 3, 4, 5, 6, 7]
    else if columnIndex = 3 then
      [-3, -3, -3, -3, -3, -2, -1, 0, 1, 2, 3, 4, 5, 6, 7]
    else if columnIndex = 4 then
      [-4, -4, -4, -4, -3, -2, -1, 0, 1, 2, 3, 4, 5, 6, 7]
    else if columnIndex = 5 then
      [-5, -5, -5, -4, -3, -2, -1, 0, 1, 2, 3, 4, 5, 6, 7]
    else
      [-6, -6, -5, -4, -3, -2, -1, 0, 1, 2, 3, 4, 5, 6, 7]
  | .reflect =>
    if columnIndex = 0 then
      [6, 5, 4, 3, 2, 1, 0, 0, 1, 2, 3, 4, 5, 6, 7]
    else if columnIndex = 1 then
      [4, 3, 2, 1, 0, -1, -1, 0, 1, 2, 3, 4, 5, 6, 7]
    else if columnIndex = 2 then
      [2, 1, 0, -1, -2, -2, -1, 0, 1, 2, 3, 4, 5, 6, 7]
    else if columnIndex = 3 then
      [0, -1, -2, -3, -3, -2, -1, 0, 1, 2, 3, 4, 5, 6, 7]
    else if columnIndex = 4 then
      [-2, -3, -4, -4, -3, -2, -1, 0, 1, 2, 3, 4, 5, 6, 7]
    else if columnIndex = 5 then
      [-4, -5, -5, -4, -3, -2, -1, 0, 1, 2, 3, 4, 5, 6, 7]
    else
      [-6, -6, -5, -4, -3, -2, -1, 0, 1, 2, 3, 4, 5, 6, 7]
  | .wrap =>
    if columnIndex = 0 then
      [minus height 7, minus height 6, minus height 5, minus height 4, minus height 3,
       minus height 2, minus height 1, 0, 1, 2, 3, 4, 5, 6, 7]
    else if columnIndex = 1 then
      [minus height 7, minus height 6, minus height 5, minus height 4, minus height 3,
       minus height 2, -1, 0, 1, 2, 3, 4, 5, 6, 7]
    else if columnIndex = 2 then
      [minus height 7, minus height 6, minus height 5, minus height 4, minus height 3, -2, -1, 0,
       1, 2, 3, 4, 5, 6, 7]
    else if columnIndex = 3 then
      [minus height 7, minus height 6, minus height 5, minus height 4, -3, -2, -1, 0, 1, 2, 3, 4,
       5, 6, 7]
    else if columnIndex = 4 then
      [minus height 7, minus height 6, minus height 5, -4, -3, -2, -1, 0, 1, 2, 3, 4, 5, 6, 7]
    else if columnIndex = 5 then
      [minus height 7, minus height 6, -5, -4, -3, -2, -1, 0, 1, 2, 3, 4, 5, 6, 7]
    else
      [minus height 7, -6, -5, -4, -3, -2, -1, 0, 1, 2, 3, 4, 5, 6, 7]
  | .reverse =>
    if columnIndex = 0 then
      [7, 6, 5, 4, 3, 2, 1, 0, 1, 2, 3, 4, 5, 6, 7]
    else if columnIndex = 1 then
      [5, 4, 3, 2, 1, 0, -1, 0, 1, 2, 3, 4, 5, 6, 7]
    else if columnIndex = 2 then
      [3, 2, 1, 0, -1, -2, -1, 0, 1, 2, 3, 4, 5, 6, 7]
    else if columnIndex = 3 then
      [1, 0, -1, -2, -3, -2, -1, 0, 1, 2, 3, 4, 5, 6, 7]
    else if columnIndex = 4 then
      [-1, -2, -3, -4, -3, -2, -1, 0, 1, 2, 3, 4, 5, 6, 7]
    else if columnIndex = 5 then
      [-3, -4, -5, -4, -3, -2, -1, 0, 1, 2, 3, 4, 5, 6, 7]
    else
      [-5, -6, -5, -4, -3, -2, -1, 0, 1, 2, 3, 4, 5, 6, 7]

def offsetsWithRightBorder (height : ℕ) (borderType : FixedBorderType) (columnIndex : ℕ) :
    Offsets :=
  let wrapOffset := -toPtrdiff height
  match borderType with
  | .replicate =>
    if columnIndex = sizeSub height 7 then
      [-7, -6, -5, -4, -3, -2, -1, 0, 1, 2, 3, 4, 5, 6, 6]
    else if columnIndex = sizeSub height 6 then
      [-7, -6, -5, -4, -3, -2, -1, 0, 1, 2, 3, 4, 5, 5, 5]
    else if columnIndex = sizeSub height 5 then
      [-7, -6, -5, -4, -3, -2, -1, 0, 1, 2, 3, 4, 4, 4, 4]
    else if columnIndex = sizeSub height 4 then
      [-7, -6, -5, -4, -3, -2, -1, 0, 1, 2, 3, 3, 3, 3, 3]
    else if columnIndex = sizeSub height 3 then
      [-7, -6, -5, -4, -3, -2, -1, 0, 1, 2, 2, 2, 2, 2, 2]
    else if columnIndex = sizeSub height 2 then
      [-7, -6, -5, -4, -3, -2, -1, 0, 1, 1, 1, 1, 1, 1, 1]
    else
      [-7, -6, -5, -4, -3, -2, -1, 0, 0, 0, 0, 0, 0, 0, 0]
  | .reflect =>
    if columnIndex = sizeSub height 7 then
      [-7, -6, -5, -4, -3, -2, -1, 0, 1, 2, 3, 4, 5, 6, 6]
    else if columnIndex = sizeSub height 6 then
      [-7, -6, -5, -4, -3, -2, -1, 0, 1, 2, 3, 4, 5, 5, 4]
    else if columnIndex = sizeSub height 5 then
      [-7, -6, -5, -4, -3, -2, -1, 0, 1, 2, 3, 4, 4, 3, 2]
    else if columnIndex = sizeSub height 4 then
      [-7, -6, -5, -4, -3, -2, -1, 0, 1, 2, 3, 3, 2, 1, 0]
    else if columnIndex = sizeSub height 3 then
      [-7, -6, -5, -4, -3, -2, -1, 0, 1, 2, 2, 1, 0, -1, -2]
    else if columnIndex = sizeSub height 2 then
      [-7, -6, -5, -4, -3, -2, -1, 0, 1, 1, 0, -1, -2, -3, -4]
    else
      [-7, -6, -5, -4, -3, -2, -1, 0, 0, -1, -2, -3, -4, -5, -6]
  | .wrap =>
    if columnIndex = sizeSub height 7 then
      [-7, -6, -5, -4, -3, -2, -1, 0, 1, 2, 3, 4, 5, 6, 7 + wrapOffset]
    else if columnIndex = sizeSub height 6 then
      [-7, -6, -5, -4, -3, -2, -1, 0, 1, 2, 3, 4, 5, 6 + wrapOffset, 7 + wrapOffset]
    else if columnIndex = sizeSub height 5 then
      [-7, -6, -5, -4, -3, -2, -1, 0, 1, 2, 3, 4, 5 + wrapOffset, 6 + wrapOffset, 7 + wrapOffset]
    else if columnIndex = sizeSub height 4 then
      [-7, -6, -5, -4, -3, -2, -1, 0, 1, 2, 3, 4 + wrapOffset, 5 + wrapOffset, 6 + wrapOffset,
       7 + wrapOffset]
    else if columnIndex = sizeSub height 3 then
      [-7, -6, -5, -4, -3, -2, -1, 0, 1, 2, 3 + wrapOffset, 4 + wrapOffset, 5 + wrapOffset,
       6 + wrapOffset, 7 + wrapOffset]
    else if columnIndex = sizeSub height 2 then
      [-7, -6, -5, -4, -3, -2, -1, 0, 1, 2 + wrapOffset, 3 + wrapOffset, 4 + wrapOffset,
       5 + wrapOffset, 6 + wrapOffset, 7 + wrapOffset]
    else
      [-7, -6, -5, -4, -3, -2, -1, 0, 1 + wrapOffset, 2 + wrapOffset, 3 + wrapOffset,
       4 + wrapOffset, 5 + wrapOffset, 6 + wrapOffset, 7 + wrapOffset]
  | .reverse =>
    if columnIndex = sizeSub height 7 then
      [-7, -6, -5, -4, -3, -2, -1, 0, 1, 2, 3, 4, 5, 6, 5]
    else if columnIndex = sizeSub height 6 then
      [-7, -6, -5, -4, -3, -2, -1, 0, 1, 2, 3, 4, 5, 4, 3]
    else if columnIndex = sizeSub height 5 then
      [-7, -6, -5, -4, -3, -2, -1, 0, 1, 2, 3, 4, 3, 2, 1]
    else if columnIndex = sizeSub height 4 then
      [-7, -6, -5, -4, -3, -2, -1, 0, 1, 2, 3, 2, 1, 0, -1]
    else if columnIndex = sizeSub height 3 then
      [-7, -6, -5, -4, -3, -2, -1, 0, 1, 2, 1, 0, -1, -2, -3]
    else if columnIndex = sizeSub height 2 then
      [-7, -6, -5, -4, -3, -2, -1, 0, 1, 0, -1, -2, -3, -4, -5]
    else
      [-7, -6, -5, -4, -3, -2, -1, 0, -1, -2, -3, -4, -5, -6, -7]

def offsetsWithBorder (height : ℕ) (borderType : FixedBorderType) (rowOrColumnIndex : ℕ) :
    Offsets :=
  if rowOrColumnIndex ≤ 6 then offsetsWithLeftBorder height borderType rowOrColumnIndex
  else if rowOrColumnIndex ≥ sizeSub height 7 then
    offsetsWithRightBorder height borderType rowOrColumnIndex
  else offsetsWithoutBorder

theorem left_eq (n : ℕ) (b : FixedBorderType) {i : ℕ} (hi : i < 7) :
    offsetsWithLeftBorder n b i = leftOffsets 7 n b i := by
  interval_cases i <;> cases b <;>
    simp [offsetsWithLeftBorder, leftOffsets, List.range, List.range.loop]

theorem right_eq {n i j : ℕ} (b : FixedBorderType) (hn : n < 2 ^ 63) (hmn : 14 ≤ n)
    (hij : i + j + 1 = n) (hj : j < 7) :
    offsetsWithRightBorder n b i = rightOffsets 7 n b j := by
  have hk : ∀ k ≤ 7, (i = sizeSub n k ↔ j + 1 = k) := by
    intro k hk
    exact eq_sizeSub_iff hn hij (by omega)
  interval_cases j <;> cases b <;>
    simp [offsetsWithRightBorder, rightOffsets, hk, List.range, List.range.loop]

/-- The tables of `border_15x15.h`. -/
def info : FixedBorderInfo where
  margin := 7
  offsetsWithoutBorder := offsetsWithoutBorder
  offsetsWithLeftBorder := offsetsWithLeftBorder
  offsetsWithRightBorder := offsetsWithRightBorder
  offsetsWithBorder := offsetsWithBorder
  margin_pos := by decide
  without_eq := by decide
  left_eq := fun n b _ hi => left_eq n b hi
  right_eq := fun _ b _ _ hn hmn hij hj => right_eq b hn hmn hij hj
  border_eq := by
    intro n b i hn hmn hi
    have hs : sizeSub n 7 = n - 7 := sizeSub_eq (by omega) (hn.trans (by decide))
    unfold offsetsWithBorder
    rw [hs]
    split_ifs <;> first
      | omega
      | rfl

end FixedBorderInfo15x15

end KleidiCV
