/-
Border types, and what the offset tables of the fixed-size filters share.

`border_types.h` maps the border types of the API to the four that a filter
can extend an image with.  The tables of `border_3x3.h` to `border_21x21.h`
(modules `FixedBorderInfo…`) are three functions each; a table is right when
its rows are those of `leftOffsets` and `rightOffsets`, one formula for every
kernel size.

* `FixedBorderInfo` — the tables of one kernel size, with the proof that every
  row is the one the formulas give;
* `add_leftOffsets`, `add_rightOffsets` — the formulas reach the samples of the
  extended row.
-/
import KleidiCV.Lib.Extension
import KleidiCV.Utils

namespace KleidiCV

/-- `kleidicv_border_type_t`. -/
inductive BorderType
  | constant
  | replicate
  | reflect
  | wrap
  | reverse
  | transparent
  | none
  deriving DecidableEq, Repr

/-- `FixedBorderType`. -/
inductive FixedBorderType
  | replicate
  | reflect
  | wrap
  | reverse
  deriving DecidableEq, Repr

/-- `get_fixed_border_type`. -/
def getFixedBorderType : BorderType → Option FixedBorderType
  | .replicate => some .replicate
  | .reflect => some .reflect
  | .wrap => some .wrap
  | .reverse => some .reverse
  | _ => Option.none

/-- The extension a border type stands for. -/
def FixedBorderType.extension : FixedBorderType → Extension
  | .replicate => .edge
  | .reflect => .halfMirror
  | .wrap => .periodic
  | .reverse => .fullMirror

/-- `height_ - k` where a `ptrdiff_t` is expected. -/
def minus (height k : ℕ) : ℤ := toPtrdiff (sizeSub height k)

theorem minus_eq {a k : ℕ} (hk : k ≤ a) (ha : a < 2 ^ 63) : minus a k = (a : ℤ) - k := by
  have hmod : a < sizeMod := ha.trans (by decide)
  rw [minus, sizeSub_eq hk hmod, toPtrdiff_eq (by omega), Nat.cast_sub hk]

/-- A column of the right border, named by its distance to the last column. -/
theorem eq_sizeSub_iff {n i j k : ℕ} (hn : n < 2 ^ 63) (hij : i + j + 1 = n) (hk : k ≤ n) :
    i = sizeSub n k ↔ j + 1 = k := by
  rw [sizeSub_eq hk (hn.trans (by decide))]
  omega

/-- `Offsets`; `c0()`, `c1()`, ... are its entries. -/
abbrev Offsets := List ℤ

/-- `c`_t`()`. -/
def Offsets.c (offsets : Offsets) (t : ℕ) : ℤ := offsets.getD t 0

/-! ### The rows of a correct table -/

/-- The row of a column that no border affects. -/
def plainOffsets (m : ℕ) : Offsets := (List.range (2 * m + 1)).map fun t : ℕ => (t : ℤ) - m

/-- The row of column `i`, with `i < m` columns before it. -/
def leftOffsets (m n : ℕ) (borderType : FixedBorderType) (i : ℕ) : Offsets :=
  (List.range (2 * m + 1)).map fun t : ℕ =>
    if i + t < m then
      match borderType with
      | .replicate => -(i : ℤ)
      | .reflect => (m : ℤ) - 1 - 2 * i - t
      | .wrap => minus n (m - t)
      | .reverse => (m : ℤ) - 2 * i - t
    else (t : ℤ) - m

/-- The row of the column with `j < m` columns after it. -/
def rightOffsets (m n : ℕ) (borderType : FixedBorderType) (j : ℕ) : Offsets :=
  (List.range (2 * m + 1)).map fun t : ℕ =>
    if m + j < t then
      match borderType with
      | .replicate => (j : ℤ)
      | .reflect => 2 * (j : ℤ) + 1 + m - t
      | .wrap => (t : ℤ) - m + -toPtrdiff n
      | .reverse => 2 * (j : ℤ) + m - t
    else (t : ℤ) - m

/-- `FixedBorderInfo<T, S>`: the tables of one kernel size, `S = 2 * margin + 1`. -/
structure FixedBorderInfo where
  margin : ℕ
  offsetsWithoutBorder : Offsets
  offsetsWithLeftBorder : ℕ → FixedBorderType → ℕ → Offsets
  offsetsWithRightBorder : ℕ → FixedBorderType → ℕ → Offsets
  offsetsWithBorder : ℕ → FixedBorderType → ℕ → Offsets
  margin_pos : 0 < margin
  without_eq : offsetsWithoutBorder = plainOffsets margin
  left_eq : ∀ n b i, i < margin → offsetsWithLeftBorder n b i = leftOffsets margin n b i
  right_eq : ∀ n b i j, n < 2 ^ 63 → 2 * margin ≤ n → i + j + 1 = n → j < margin →
    offsetsWithRightBorder n b i = rightOffsets margin n b j
  border_eq : ∀ n b i, n < 2 ^ 63 → 2 * margin ≤ n → i < n →
    offsetsWithBorder n b i =
      if i < margin then offsetsWithLeftBorder n b i
      else if n ≤ i + margin then offsetsWithRightBorder n b i
      else offsetsWithoutBorder

theorem plainOffsets_c {m t : ℕ} (ht : t < 2 * m + 1) : (plainOffsets m).c t = t - m := by
  simp only [plainOffsets, Offsets.c, List.getD_eq_getElem?_getD, List.getElem?_map,
    List.getElem?_range ht, Option.map_some, Option.getD_some]

variable {m n i j t : ℕ} (b : FixedBorderType)

/-- The samples that the row of a column without borders reaches. -/
theorem add_plainOffsets (ht : t < 2 * m + 1) (hn : 2 ≤ n) (hi : m ≤ i) (hin : i + m < n) :
    (i : ℤ) + (plainOffsets m).c t = b.extension.index n (i + t - m) := by
  rw [plainOffsets_c ht, Extension.index_of_mem _ (by omega) (by omega) (by omega)]
  ring

theorem add_leftOffsets (ht : t < 2 * m + 1) (him : i < m) (hmn : 2 * m ≤ n) (hn : n < 2 ^ 63) :
    (i : ℤ) + (leftOffsets m n b i).c t = b.extension.index n (i + t - m) := by
  rw [Extension.index_eq_foldOnce _ (by omega) (by omega) (by omega)]
  have hw := minus_eq (a := n) (k := m - t) (by omega) hn
  simp only [leftOffsets, Offsets.c, List.getD_eq_getElem?_getD, List.getElem?_map,
    List.getElem?_range ht, Option.map_some, Option.getD_some, Extension.foldOnce]
  cases b <;> simp only [FixedBorderType.extension] <;> split_ifs <;> omega

theorem add_rightOffsets (ht : t < 2 * m + 1) (hjm : j < m) (hij : i + j + 1 = n)
    (hmn : 2 * m ≤ n) (hn : n < 2 ^ 63) :
    (i : ℤ) + (rightOffsets m n b j).c t = b.extension.index n (i + t - m) := by
  rw [Extension.index_eq_foldOnce _ (by omega) (by omega) (by omega)]
  have hw := toPtrdiff_eq hn
  simp only [rightOffsets, Offsets.c, List.getD_eq_getElem?_getD, List.getElem?_map,
    List.getElem?_range ht, Option.map_some, Option.getD_some, Extension.foldOnce]
  cases b <;> simp only [FixedBorderType.extension] <;> split_ifs <;> omega

end KleidiCV
