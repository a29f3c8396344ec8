/-
The sorting networks of the median filters with a kernel of 5x5 and of 7x7.

A network is the sequence of its calls of the comparator.  It sorts the columns of the window,
then in each row the elements that can still be the median, and then goes on with the
diagonals; many calls keep only one of the two elements.

* `ScalarComparator.call_eq_step` — the scalar comparator is minimum and maximum;
* `phases5x5`, `phases7x7` — the phases, on all 0-1 windows;
* `sortingNetworks_median` — the output is the median.
-/
import KleidiCV.Lib.SortingNetwork

open SortingNetwork

namespace KleidiCV

namespace MedianBlurSortingNetwork

section

variable {ι α : Type*} [DecidableEq ι] [LinearOrder α]

/-- `std::min`. -/
def stdMin (a b : α) : α := if b < a then b else a

/-- `std::max`. -/
def stdMax (a b : α) : α := if a < b then b else a

namespace ScalarComparator

/-- `ScalarComparator::compare_and_swap`: the new values of `left` and `right`. -/
def compareAndSwap (left right : α) : α × α := if left > right then (right, left) else (left, right)

/-- `ScalarComparator::min`: the new value of `left`. -/
def min (left right : α) : α := stdMin left right

/-- `ScalarComparator::max`: the new value of `right`. -/
def max (left right : α) : α := stdMax left right

/-- A call on two elements of `KernelWindow`. -/
def call (kernelWindow : ι → α) : Comparator ι → ι → α
  | .compareAndSwap l r =>
    let swapped := compareAndSwap (kernelWindow l) (kernelWindow r)
    Function.update (Function.update kernelWindow l swapped.1) r swapped.2
  | .min l r => Function.update kernelWindow l (min (kernelWindow l) (kernelWindow r))
  | .max l r => Function.update kernelWindow r (max (kernelWindow l) (kernelWindow r))

end ScalarComparator

theorem stdMin_eq (a b : α) : stdMin a b = Min.min a b := by
  unfold stdMin
  split
  · rename_i h
    exact (min_eq_right h.le).symm
  · rename_i h
    exact (min_eq_left (not_lt.mp h)).symm

theorem stdMax_eq (a b : α) : stdMax a b = Max.max a b := by
  unfold stdMax
  split
  · rename_i h
    exact (max_eq_right h.le).symm
  · rename_i h
    exact (max_eq_left (not_lt.mp h)).symm

theorem compareAndSwap_eq (a b : α) :
    ScalarComparator.compareAndSwap a b = (Min.min a b, Max.max a b) := by
  unfold ScalarComparator.compareAndSwap
  split
  · rename_i h
    rw [min_eq_right (le_of_lt h), max_eq_left (le_of_lt h)]
  · rename_i h
    rw [min_eq_left (not_lt.mp h), max_eq_right (not_lt.mp h)]

theorem ScalarComparator.call_eq_step (w : ι → α) (c : Comparator ι) :
    ScalarComparator.call w c = step Min.min Max.max w c := by
  cases c with
  | compareAndSwap l r => simp only [ScalarComparator.call, compareAndSwap_eq, step]
  | min l r => rw [ScalarComparator.call, ScalarComparator.min, stdMin_eq, step]
  | max l r => rw [ScalarComparator.call, ScalarComparator.max, stdMax_eq, step]

/-- Calls of the comparator, one after the other. -/
def execute (calls : List (Comparator ι)) (kernelWindow : ι → α) : ι → α :=
  calls.foldl ScalarComparator.call kernelWindow

theorem execute_eq_run (calls : List (Comparator ι)) (w : ι → α) :
    execute calls w = run Min.min Max.max calls w := by
  unfold execute run
  rw [show ScalarComparator.call = step (ι := ι) (α := α) Min.min Max.max from
    funext fun w => funext fun c => ScalarComparator.call_eq_step w c]

end

/-! ### The networks -/

/-- The calls of `sorting_network5x5`. -/
def calls5x5 : List (Comparator (Fin 5 × Fin 5)) := [
  -- sort the columns
  .compareAndSwap (3, 0) (0, 0), .compareAndSwap (4, 0) (1, 0), .compareAndSwap (2, 0) (0, 0),
  .compareAndSwap (3, 0) (1, 0), .compareAndSwap (1, 0) (0, 0), .compareAndSwap (4, 0) (2, 0),
  .compareAndSwap (2, 0) (1, 0), .compareAndSwap (4, 0) (3, 0), .compareAndSwap (3, 0) (2, 0),
  .compareAndSwap (3, 1) (0, 1), .compareAndSwap (4, 1) (1, 1), .compareAndSwap (2, 1) (0, 1),
  .compareAndSwap (3, 1) (1, 1), .compareAndSwap (1, 1) (0, 1), .compareAndSwap (4, 1) (2, 1),
  .compareAndSwap (2, 1) (1, 1), .compareAndSwap (4, 1) (3, 1), .compareAndSwap (3, 1) (2, 1),
  .compareAndSwap (3, 2) (0, 2), .compareAndSwap (4, 2) (1, 2), .compareAndSwap (2, 2) (0, 2),
  .compareAndSwap (3, 2) (1, 2), .compareAndSwap (1, 2) (0, 2), .compareAndSwap (4, 2) (2, 2),
  .compareAndSwap (2, 2) (1, 2), .compareAndSwap (4, 2) (3, 2), .compareAndSwap (3, 2) (2, 2),
  .compareAndSwap (3, 3) (0, 3), .compareAndSwap (4, 3) (1, 3), .compareAndSwap (2, 3) (0, 3),
  .compareAndSwap (3, 3) (1, 3), .compareAndSwap (1, 3) (0, 3), .compareAndSwap (4, 3) (2, 3),
  .compareAndSwap (2, 3) (1, 3), .compareAndSwap (4, 3) (3, 3), .compareAndSwap (3, 3) (2, 3),
  .compareAndSwap (3, 4) (0, 4), .compareAndSwap (4, 4) (1, 4), .compareAndSwap (2, 4) (0, 4),
  .compareAndSwap (3, 4) (1, 4), .compareAndSwap (1, 4) (0, 4), .compareAndSwap (4, 4) (2, 4),
  .compareAndSwap (2, 4) (1, 4), .compareAndSwap (4, 4) (3, 4), .compareAndSwap (3, 4) (2, 4),
  -- sort row zero for only element 3 and 4
  .compareAndSwap (0, 3) (0, 0), .compareAndSwap (0, 4) (0, 1), .compareAndSwap (0, 2) (0, 0),
  .compareAndSwap (0, 3) (0, 1), .min (0, 1) (0, 0), .compareAndSwap (0, 4) (0, 2),
  .min (0, 2) (0, 1), .compareAndSwap (0, 4) (0, 3), .min (0, 3) (0, 2),
  -- sort row 1 for only element {2, 3, 4}
  .compareAndSwap (1, 3) (1, 0), .compareAndSwap (1, 4) (1, 1), .compareAndSwap (1, 2) (1, 0),
  .compareAndSwap (1, 3) (1, 1), .min (1, 1) (1, 0), .compareAndSwap (1, 4) (1, 2),
  .min (1, 2) (1, 1), .compareAndSwap (1, 4) (1, 3), .compareAndSwap (1, 3) (1, 2),
  -- sort row 2 {1, 2, 3}
  .compareAndSwap (2, 3) (2, 0), .compareAndSwap (2, 4) (2, 1), .compareAndSwap (2, 2) (2, 0),
  .compareAndSwap (2, 3) (2, 1), .min (2, 1) (2, 0), .compareAndSwap (2, 4) (2, 2),
  .compareAndSwap (2, 2) (2, 1), .max (2, 4) (2, 3), .compareAndSwap (2, 3) (2, 2),
  -- sort row 3
  .compareAndSwap (3, 3) (3, 0), .compareAndSwap (3, 4) (3, 1), .compareAndSwap (3, 2) (3, 0),
  .compareAndSwap (3, 3) (3, 1), .compareAndSwap (3, 1) (3, 0), .compareAndSwap (3, 4) (3, 2),
  .compareAndSwap (3, 2) (3, 1), .max (3, 4) (3, 3), .max (3, 3) (3, 2),
  -- sort row 4
  .compareAndSwap (4, 3) (4, 0), .compareAndSwap (4, 4) (4, 1), .compareAndSwap (4, 2) (4, 0),
  .max (4, 3) (4, 1), .compareAndSwap (4, 1) (4, 0), .max (4, 4) (4, 2), .max (4, 2) (4, 1),
  -- sort diagonal 0
  .min (2, 1) (0, 3), .min (3, 0) (1, 2), .min (3, 0) (2, 1),
  -- sort diagonal 1
  .compareAndSwap (3, 1) (0, 4), .compareAndSwap (4, 0) (1, 3), .compareAndSwap (2, 2) (0, 4),
  .compareAndSwap (3, 1) (1, 3), .min (1, 3) (0, 4), .compareAndSwap (4, 0) (2, 2),
  .min (2, 2) (1, 3), .max (4, 0) (3, 1), .max (3, 1) (2, 2),
  -- sort diagonal 2
  .max (3, 2) (1, 4), .max (4, 1) (2, 3), .max (2, 3) (1, 4), .compareAndSwap (3, 0) (1, 4),
  .min (2, 2) (1, 4), .max (3, 0) (2, 2)]

/-- The calls of `sorting_network7x7`. -/
def calls7x7 : List (Comparator (Fin 7 × Fin 7)) := [
  -- sort the columns
  .compareAndSwap (0, 0) (6, 0), .compareAndSwap (2, 0) (3, 0), .compareAndSwap (4, 0) (5, 0),
  .compareAndSwap (0, 0) (2, 0), .compareAndSwap (1, 0) (4, 0), .compareAndSwap (3, 0) (6, 0),
  .compareAndSwap (0, 0) (1, 0), .compareAndSwap (2, 0) (5, 0), .compareAndSwap (3, 0) (4, 0),
  .compareAndSwap (1, 0) (2, 0), .compareAndSwap (4, 0) (6, 0), .compareAndSwap (2, 0) (3, 0),
  .compareAndSwap (4, 0) (5, 0), .compareAndSwap (1, 0) (2, 0), .compareAndSwap (3, 0) (4, 0),
  .compareAndSwap (5, 0) (6, 0), .compareAndSwap (0, 1) (6, 1), .compareAndSwap (2, 1) (3, 1),
  .compareAndSwap (4, 1) (5, 1), .compareAndSwap (0, 1) (2, 1), .compareAndSwap (1, 1) (4, 1),
  .compareAndSwap (3, 1) (6, 1), .compareAndSwap (0, 1) (1, 1), .compareAndSwap (2, 1) (5, 1),
  .compareAndSwap (3, 1) (4, 1), .compareAndSwap (1, 1) (2, 1), .compareAndSwap (4, 1) (6, 1),
  .compareAndSwap (2, 1) (3, 1), .compareAndSwap (4, 1) (5, 1), .compareAndSwap (1, 1) (2, 1),
  .compareAndSwap (3, 1) (4, 1), .compareAndSwap (5, 1) (6, 1), .compareAndSwap (0, 2) (6, 2),
  .compareAndSwap (2, 2) (3, 2), .compareAndSwap (4, 2) (5, 2), .compareAndSwap (0, 2) (2, 2),
  .compareAndSwap (1, 2) (4, 2), .compareAndSwap (3, 2) (6, 2), .compareAndSwap (0, 2) (1, 2),
  .compareAndSwap (2, 2) (5, 2), .compareAndSwap (3, 2) (4, 2), .compareAndSwap (1, 2) (2, 2),
  .compareAndSwap (4, 2) (6, 2), .compareAndSwap (2, 2) (3, 2), .compareAndSwap (4, 2) (5, 2),
  .compareAndSwap (1, 2) (2, 2), .compareAndSwap (3, 2) (4, 2), .compareAndSwap (5, 2) (6, 2),
  .compareAndSwap (0, 3) (6, 3), .compareAndSwap (2, 3) (3, 3), .compareAndSwap (4, 3) (5, 3),
  .compareAndSwap (0, 3) (2, 3), .compareAndSwap (1, 3) (4, 3), .compareAndSwap (3, 3) (6, 3),
  .compareAndSwap (0, 3) (1, 3), .compareAndSwap (2, 3) (5, 3), .compareAndSwap (3, 3) (4, 3),
  .compareAndSwap (1, 3) (2, 3), .compareAndSwap (4, 3) (6, 3), .compareAndSwap (2, 3) (3, 3),
  .compareAndSwap (4, 3) (5, 3), .compareAndSwap (1, 3) (2, 3), .compareAndSwap (3, 3) (4, 3),
  .compareAndSwap (5, 3) (6, 3), .compareAndSwap (0, 4) (6, 4), .compareAndSwap (2, 4) (3, 4),
  .compareAndSwap (4, 4) (5, 4), .compareAndSwap (0, 4) (2, 4), .compareAndSwap (1, 4) (4, 4),
  .compareAndSwap (3, 4) (6, 4), .compareAndSwap (0, 4) (1, 4), .compareAndSwap (2, 4) (5, 4),
  .compareAndSwap (3, 4) (4, 4), .compareAndSwap (1, 4) (2, 4), .compareAndSwap (4, 4) (6, 4),
  .compareAndSwap (2, 4) (3, 4), .compareAndSwap (4, 4) (5, 4), .compareAndSwap (1, 4) (2, 4),
  .compareAndSwap (3, 4) (4, 4), .compareAndSwap (5, 4) (6, 4), .compareAndSwap (0, 5) (6, 5),
  .compareAndSwap (2, 5) (3, 5), .compareAndSwap (4, 5) (5, 5), .compareAndSwap (0, 5) (2, 5),
  .compareAndSwap (1, 5) (4, 5), .compareAndSwap (3, 5) (6, 5), .compareAndSwap (0, 5) (1, 5),
  .compareAndSwap (2, 5) (5, 5), .compareAndSwap (3, 5) (4, 5), .compareAndSwap (1, 5) (2, 5),
  .compareAndSwap (4, 5) (6, 5), .compareAndSwap (2, 5) (3, 5), .compareAndSwap (4, 5) (5, 5),
  .compareAndSwap (1, 5) (2, 5), .compareAndSwap (3, 5) (4, 5), .compareAndSwap (5, 5) (6, 5),
  .compareAndSwap (0, 6) (6, 6), .compareAndSwap (2, 6) (3, 6), .compareAndSwap (4, 6) (5, 6),
  .compareAndSwap (0, 6) (2, 6), .compareAndSwap (1, 6) (4, 6), .compareAndSwap (3, 6) (6, 6),
  .compareAndSwap (0, 6) (1, 6), .compareAndSwap (2, 6) (5, 6), .compareAndSwap (3, 6) (4, 6),
  .compareAndSwap (1, 6) (2, 6), .compareAndSwap (4, 6) (6, 6), .compareAndSwap (2, 6) (3, 6),
  .compareAndSwap (4, 6) (5, 6), .compareAndSwap (1, 6) (2, 6), .compareAndSwap (3, 6) (4, 6),
  .compareAndSwap (5, 6) (6, 6),
  -- sort row 0 for element 4, 5, 6
  .compareAndSwap (0, 0) (0, 6), .compareAndSwap (0, 2) (0, 3), .compareAndSwap (0, 4) (0, 5),
  .compareAndSwap (0, 0) (0, 2), .compareAndSwap (0, 1) (0, 4), .compareAndSwap (0, 3) (0, 6),
  .max (0, 0) (0, 1), .compareAndSwap (0, 2) (0, 5), .compareAndSwap (0, 3) (0, 4),
  .max (0, 1) (0, 2), .compareAndSwap (0, 4) (0, 6), .max (0, 2) (0, 3),
  .compareAndSwap (0, 4) (0, 5), .compareAndSwap (0, 3) (0, 4), .compareAndSwap (0, 5) (0, 6),
  -- sort row 1 for element 3, 4, 5, 6
  .compareAndSwap (1, 0) (1, 6), .compareAndSwap (1, 2) (1, 3), .compareAndSwap (1, 4) (1, 5),
  .compareAndSwap (1, 1) (1, 4), .compareAndSwap (1, 0) (1, 2), .compareAndSwap (1, 3) (1, 6),
  .max (1, 0) (1, 1), .compareAndSwap (1, 3) (1, 4), .compareAndSwap (1, 2) (1, 5),
  .max (1, 1) (1, 2), .compareAndSwap (1, 4) (1, 6), .max (1, 2) (1, 3),
  .compareAndSwap (1, 4) (1, 5), .compareAndSwap (1, 3) (1, 4), .compareAndSwap (1, 5) (1, 6),
  -- sort row 2 for element 2, 3, 4, 5, 6
  .compareAndSwap (2, 0) (2, 6), .compareAndSwap (2, 2) (2, 3), .compareAndSwap (2, 4) (2, 5),
  .compareAndSwap (2, 1) (2, 4), .compareAndSwap (2, 0) (2, 2), .compareAndSwap (2, 3) (2, 6),
  .max (2, 0) (2, 1), .compareAndSwap (2, 3) (2, 4), .compareAndSwap (2, 2) (2, 5),
  .compareAndSwap (2, 1) (2, 2), .compareAndSwap (2, 4) (2, 6), .compareAndSwap (2, 2) (2, 3),
  .compareAndSwap (2, 4) (2, 5), .max (2, 1) (2, 2), .compareAndSwap (2, 3) (2, 4),
  .compareAndSwap (2, 5) (2, 6),
  -- sort row 3 for element 1, 2, 3, 4, 5
  .compareAndSwap (3, 0) (3, 6), .compareAndSwap (3, 2) (3, 3), .compareAndSwap (3, 4) (3, 5),
  .compareAndSwap (3, 1) (3, 4), .compareAndSwap (3, 0) (3, 2), .compareAndSwap (3, 3) (3, 6),
  .max (3, 0) (3, 1), .compareAndSwap (3, 3) (3, 4), .compareAndSwap (3, 2) (3, 5),
  .compareAndSwap (3, 1) (3, 2), .compareAndSwap (3, 4) (3, 6), .compareAndSwap (3, 2) (3, 3),
  .compareAndSwap (3, 4) (3, 5), .compareAndSwap (3, 1) (3, 2), .compareAndSwap (3, 3) (3, 4),
  .min (3, 5) (3, 6),
  -- sort row 4 for element 0, 1, 2, 3, 4
  .compareAndSwap (4, 0) (4, 6), .compareAndSwap (4, 2) (4, 3), .compareAndSwap (4, 4) (4, 5),
  .compareAndSwap (4, 1) (4, 4), .compareAndSwap (4, 0) (4, 2), .compareAndSwap (4, 3) (4, 6),
  .compareAndSwap (4, 0) (4, 1), .compareAndSwap (4, 3) (4, 4), .compareAndSwap (4, 2) (4, 5),
  .compareAndSwap (4, 1) (4, 2), .min (4, 4) (4, 6), .compareAndSwap (4, 2) (4, 3),
  .min (4, 4) (4, 5), .compareAndSwap (4, 1) (4, 2), .compareAndSwap (4, 3) (4, 4),
  -- sort row 5 for element 0, 1, 2, 3
  .compareAndSwap (5, 0) (5, 6), .compareAndSwap (5, 2) (5, 3), .compareAndSwap (5, 4) (5, 5),
  .compareAndSwap (5, 1) (5, 4), .compareAndSwap (5, 0) (5, 2), .compareAndSwap (5, 3) (5, 6),
  .compareAndSwap (5, 0) (5, 1), .compareAndSwap (5, 3) (5, 4), .compareAndSwap (5, 2) (5, 5),
  .compareAndSwap (5, 1) (5, 2), .min (5, 4) (5, 6), .compareAndSwap (5, 2) (5, 3),
  .min (5, 4) (5, 5), .compareAndSwap (5, 1) (5, 2), .min (5, 3) (5, 4),
  -- sort row 6 for element 0, 1, 2
  .compareAndSwap (6, 0) (6, 6), .compareAndSwap (6, 2) (6, 3), .compareAndSwap (6, 4) (6, 5),
  .compareAndSwap (6, 1) (6, 4), .compareAndSwap (6, 0) (6, 2), .min (6, 3) (6, 6),
  .compareAndSwap (6, 0) (6, 1), .min (6, 3) (6, 4), .min (6, 2) (6, 5),
  .compareAndSwap (6, 1) (6, 2), .min (6, 2) (6, 3), .compareAndSwap (6, 1) (6, 2),
  -- sort diagonal 0
  .max (1, 3) (2, 2), .max (3, 1) (4, 0), .max (2, 2) (4, 0), .max (4, 0) (0, 4),
  -- sort diagonal 1
  .compareAndSwap (4, 1) (2, 3), .compareAndSwap (5, 0) (0, 5), .compareAndSwap (3, 2) (1, 4),
  .max (4, 1) (3, 2), .compareAndSwap (2, 3) (1, 4), .max (5, 0) (2, 3),
  .compareAndSwap (3, 2) (0, 5), .max (3, 2) (2, 3), .compareAndSwap (1, 4) (0, 5),
  .compareAndSwap (2, 3) (1, 4),
  -- sort diagonal 2
  .compareAndSwap (6, 0) (0, 6), .compareAndSwap (4, 2) (3, 3), .compareAndSwap (2, 4) (1, 5),
  .compareAndSwap (5, 1) (2, 4), .compareAndSwap (6, 0) (4, 2), .compareAndSwap (3, 3) (0, 6),
  .max (6, 0) (5, 1), .compareAndSwap (3, 3) (2, 4), .compareAndSwap (4, 2) (1, 5),
  .compareAndSwap (5, 1) (4, 2), .min (2, 4) (0, 6), .compareAndSwap (4, 2) (3, 3),
  .min (2, 4) (1, 5), .max (5, 1) (4, 2), .compareAndSwap (3, 3) (2, 4),
  -- sort diagonal 3
  .compareAndSwap (5, 2) (3, 4), .compareAndSwap (6, 1) (1, 6), .compareAndSwap (4, 3) (2, 5),
  .compareAndSwap (5, 2) (4, 3), .min (3, 4) (2, 5), .compareAndSwap (6, 1) (3, 4),
  .min (4, 3) (1, 6), .compareAndSwap (6, 1) (5, 2), .min (4, 3) (3, 4),
  .compareAndSwap (5, 2) (4, 3),
  -- sort diagonal 4
  .min (5, 3) (4, 4), .min (3, 5) (2, 6), .min (5, 3) (3, 5), .min (6, 2) (5, 3),
  .compareAndSwap (6, 1) (0, 4), .compareAndSwap (6, 2) (2, 3), .compareAndSwap (5, 2) (4, 3),
  .compareAndSwap (4, 2) (2, 4), .compareAndSwap (3, 3) (1, 4), .compareAndSwap (6, 1) (6, 2),
  .compareAndSwap (4, 2) (3, 3), .compareAndSwap (4, 3) (0, 5), .compareAndSwap (2, 3) (0, 4),
  .compareAndSwap (2, 4) (1, 4), .compareAndSwap (6, 2) (4, 2), .compareAndSwap (5, 2) (3, 3),
  .compareAndSwap (4, 3) (2, 4), .min (1, 4) (0, 5), .max (6, 1) (4, 3),
  .compareAndSwap (6, 2) (5, 2), .max (4, 2) (2, 4), .min (3, 3) (0, 4),
  .compareAndSwap (2, 3) (1, 4), .compareAndSwap (5, 2) (2, 3), .compareAndSwap (4, 3) (3, 3),
  .min (2, 4) (1, 4), .compareAndSwap (5, 2) (4, 3), .max (4, 2) (2, 3), .min (3, 3) (2, 4),
  .max (4, 2) (4, 3), .min (3, 3) (2, 3), .max (4, 3) (3, 3)]

section

variable {α : Type*} [LinearOrder α]

/-- `sorting_network5x5<ScalarComparator>`. -/
def sortingNetwork5x5 (kernelWindow : Fin 5 × Fin 5 → α) : α := execute calls5x5 kernelWindow (2, 2)

/-- `sorting_network7x7<ScalarComparator>`. -/
def sortingNetwork7x7 (kernelWindow : Fin 7 × Fin 7 → α) : α := execute calls7x7 kernelWindow (3, 3)

end

/-! ### The phases -/

/-- The elements that the diagonals of `sorting_network5x5` use. -/
def live5x5 : List (Fin 5 × Fin 5) :=
  [(0, 3), (0, 4), (1, 2), (1, 3), (1, 4), (2, 1), (2, 2), (2, 3), (3, 0), (3, 1), (3, 2), (4, 0),
  (4, 1)]

/-- The elements that the diagonals of `sorting_network7x7` use. -/
def live7x7 : List (Fin 7 × Fin 7) :=
  [(0, 4), (0, 5), (0, 6), (1, 3), (1, 4), (1, 5), (1, 6), (2, 2), (2, 3), (2, 4), (2, 5), (2, 6),
  (3, 1), (3, 2), (3, 3), (3, 4), (3, 5), (4, 0), (4, 1), (4, 2), (4, 3), (4, 4), (5, 0), (5, 1),
  (5, 2), (5, 3), (6, 0), (6, 1), (6, 2)]

/-- Columns and rows are sorted downwards. -/
theorem phases5x5 : MedianPhases id (calls5x5.take 45) ((calls5x5.drop 45).take 43)
    (calls5x5.drop 88) live5x5 (2, 2) 12 where
  size := rfl
  columnsWithin := by decide +kernel
  columnsSort := by decide +kernel
  rowsWithin := by decide +kernel
  rowsSort := by decide +kernel
  lastWithin := by decide +kernel
  out_mem := by decide +kernel
  lastMedian := by decide +kernel

/-- Columns and rows are sorted upwards. -/
theorem phases7x7 : MedianPhases Fin.rev (calls7x7.take 112) ((calls7x7.drop 112).take 104)
    (calls7x7.drop 216) live7x7 (3, 3) 24 where
  size := rfl
  columnsWithin := by decide +kernel
  columnsSort := by decide +kernel
  rowsWithin := by decide +kernel
  rowsSort := by decide +kernel
  lastWithin := by decide +kernel
  out_mem := by decide +kernel
  lastMedian := by decide +kernel

theorem take_append_take_append_drop {β : Type*} (l : List β) (m n : ℕ) :
    l.take m ++ (l.drop m).take n ++ l.drop (m + n) = l := by
  rw [List.append_assoc, ← List.drop_drop, List.take_append_drop, List.take_append_drop]

/-- **Both networks give the median** of every window over every linear order: the element of
rank 12 of 25, and of rank 24 of 49. -/
theorem sortingNetworks_median {α : Type*} [LinearOrder α] :
    (∀ w : Fin 5 × Fin 5 → α,
      (Finset.univ.val.map w).sort[12]? = some (sortingNetwork5x5 w)) ∧
    ∀ w : Fin 7 × Fin 7 → α,
      (Finset.univ.val.map w).sort[24]? = some (sortingNetwork7x7 w) := by
  constructor
  · intro w
    rw [median_of_phases phases5x5 w, take_append_take_append_drop calls5x5 45 43,
      sortingNetwork5x5, execute_eq_run]
  · intro w
    rw [median_of_phases phases7x7 w, take_append_take_append_drop calls7x7 112 104,
      sortingNetwork7x7, execute_eq_run]

end MedianBlurSortingNetwork

end KleidiCV
