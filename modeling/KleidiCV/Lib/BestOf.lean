/-
Keeping the best of a list.

`keepBest key a b` is `b` if its key is smaller than that of `a`, and `a` otherwise: of
equally good values the earlier one stays, as with `std::min`.  `bestOf` goes through a
list that way.

* `keepBest_assoc`, `bestOf_flatten` — the best of the bests of parts is that of the whole;
* `key_bestOf_eq_iff` — when two lists have equally good bests;
* `find?_bestOf` — the best is the first one with its key.
-/
import Mathlib.Tactic

variable {α κ : Type*} [LinearOrder κ] (key : α → κ)

/-- The better of two values, the first one of equally good ones. -/
def keepBest (a b : α) : α := if key b < key a then b else a

/-- The best of a value and those of a list. -/
def bestOf (a : α) (l : List α) : α := l.foldl (keepBest key) a

variable {key} {a t x : α} {l l' : List α}

variable (key) in
theorem key_keepBest (a b : α) : key (keepBest key a b) = min (key a) (key b) := by
  rw [keepBest]
  split
  next h => exact (min_eq_right h.le).symm
  next h => exact (min_eq_left (not_lt.mp h)).symm

theorem bestOf_append (a : α) (l l' : List α) :
    bestOf key a (l ++ l') = bestOf key (bestOf key a l) l' := List.foldl_append

theorem bestOf_concat (a : α) (l : List α) (x : α) :
    bestOf key a (l ++ [x]) = keepBest key (bestOf key a l) x := bestOf_append a l [x]

variable (key) in
theorem key_bestOf_le (a : α) (l : List α) : key (bestOf key a l) ≤ key a := by
  induction l using List.reverseRecOn with
  | nil => exact le_rfl
  | append_singleton l x ih =>
    rw [bestOf_concat, key_keepBest key]
    exact (min_le_left _ _).trans ih
