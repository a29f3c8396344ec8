/-
Extending a sequence of `n` samples to all integer positions.

A filter near the edge of its input asks for samples outside `[0, n)`.  The
standard extensions answer with a sample inside: `Extension.index e n p` is
the position in `[0, n)` that stands for `p`, for every integer `p`.

* `Extension.index_mem` — the answer lies inside;
* `Extension.index_of_mem` — inside, nothing changes;
* `Extension.index_eq_foldOnce` — at positions less than one length away, the
  periodic definitions fold at most once.
-/
import Mathlib.Tactic

/-- The standard ways to extend a finite sequence. -/
inductive Extension
  /-- The first or the last sample, `aaa|abcd|ddd`. -/
  | edge
  /-- Mirrored, edge sample repeated, `cba|abcd|dcb`. -/
  | halfMirror
  /-- Periodic, `bcd|abcd|abc`. -/
  | periodic
  /-- Mirrored, edge sample not repeated, `dcb|abcd|cba`. -/
  | fullMirror
  deriving DecidableEq, Repr

namespace Extension

/-- Fold a period of length `m` onto `[0, n)`: positions from `n` on count back
from the end of the period. -/
def foldBack (n m q : ℤ) : ℤ := if q < n then q else m - q

/-- The position in `[0, n)` whose sample stands at `p`. -/
def index (e : Extension) (n p : ℤ) : ℤ :=
  match e with
  | edge => max 0 (min (n - 1) p)
  | halfMirror => foldBack n (2 * n - 1) (p % (2 * n))
  | periodic => p % n
  | fullMirror => foldBack n (2 * (n - 1)) (p % (2 * (n - 1)))

/-- The same when `p` is less than one length away from `[0, n)`. -/
def foldOnce (e : Extension) (n p : ℤ) : ℤ :=
  if p < 0 then
    match e with
    | edge => 0
    | halfMirror => -1 - p
    | periodic => p + n
    | fullMirror => -p
  else if n ≤ p then
    match e with
    | edge => n - 1
    | halfMirror => 2 * n - 1 - p
    | periodic => p - n
    | fullMirror => 2 * (n - 1) - p
  else p

variable {n p : ℤ}

theorem foldBack_mem {m q : ℤ} (hq : 0 ≤ q) (hm : q < n ∨ m - q < n) (hqm : q ≤ m) :
    0 ≤ foldBack n m q ∧ foldBack n m q < n := by
  unfold foldBack
  split <;> omega

theorem index_mem (e : Extension) (hn : 2 ≤ n) : 0 ≤ e.index n p ∧ e.index n p < n := by
  cases e with
  | edge => simp only [index]; omega
  | halfMirror =>
    have h0 := Int.emod_nonneg p (show 2 * n ≠ 0 by omega)
    have h1 := Int.emod_lt_of_pos p (show 0 < 2 * n by omega)
    exact foldBack_mem h0 (by omega) (by omega)
  | periodic =>
    exact ⟨Int.emod_nonneg p (by omega), Int.emod_lt_of_pos p (by omega)⟩
  | fullMirror =>
    have h0 := Int.emod_nonneg p (show 2 * (n - 1) ≠ 0 by omega)
    have h1 := Int.emod_lt_of_pos p (show 0 < 2 * (n - 1) by omega)
    exact foldBack_mem h0 (by omega) (by omega)

/-- A residue is found by adding a multiple that lands inside. -/
theorem emod_eq_of_add {m q k : ℤ} (h : p + m * k = q) (h0 : 0 ≤ q) (h1 : q < m) :
    p % m = q := by
  rw [← Int.add_mul_emod_self_left p m k, h]
  exact Int.emod_eq_of_lt h0 h1

theorem index_eq_foldOnce (e : Extension) (hn : 2 ≤ n) (h0 : -n < p) (h1 : p < 2 * n - 1) :
    e.index n p = e.foldOnce n p := by
  unfold foldOnce
  cases e with
  | edge => simp only [index]; split_ifs <;> omega
  | halfMirror =>
    simp only [index, foldBack]
    by_cases hneg : p < 0
    · rw [emod_eq_of_add (q := p + 2 * n) (k := 1) (by omega) (by omega) (by omega)]
      split_ifs <;> omega
    · rw [Int.emod_eq_of_lt (by omega) (by omega)]
      split_ifs <;> omega
  | periodic =>
    simp only [index]
    split_ifs with hneg hbig
    · exact emod_eq_of_add (k := 1) (by omega) (by omega) (by omega)
    · exact emod_eq_of_add (k := -1) (by omega) (by omega) (by omega)
    · exact Int.emod_eq_of_lt (by omega) (by omega)
  | fullMirror =>
    simp only [index, foldBack]
    by_cases hneg : p < 0
    · rw [emod_eq_of_add (q := p + 2 * (n - 1)) (k := 1) (by omega) (by omega) (by omega)]
      split_ifs <;> omega
    · by_cases hend : p = 2 * (n - 1)
      -- One full period away, where the residue is 0.
      · rw [emod_eq_of_add (q := 0) (k := -1) (by omega) (by omega) (by omega)]
        split_ifs <;> omega
      · rw [Int.emod_eq_of_lt (by omega) (by omega)]
        split_ifs <;> omega

/-- A whole length away, unless the edge sample is left out. -/
theorem index_eq_foldOnce_full (he : e ≠ fullMirror) (hn : 1 ≤ n) (h0 : -n ≤ p) (h1 : p < 2 * n) :
    e.index n p = e.foldOnce n p := by
  unfold foldOnce
  cases e with
  | edge => simp only [index]; split_ifs <;> omega
  | halfMirror =>
    simp only [index, foldBack]
    by_cases hneg : p < 0
    · rw [emod_eq_of_add (q := p + 2 * n) (k := 1) (by omega) (by omega) (by omega)]
      split_ifs <;> omega
    · rw [Int.emod_eq_of_lt (by omega) (by omega)]
      split_ifs <;> omega
  | periodic =>
    simp only [index]
    split_ifs with hneg hbig
    · exact emod_eq_of_add (k := 1) (by omega) (by omega) (by omega)
    · exact emod_eq_of_add (k := -1) (by omega) (by omega) (by omega)
    · exact Int.emod_eq_of_lt (by omega) (by omega)
  | fullMirror => exact absurd rfl he

theorem index_of_mem (e : Extension) (hn : 2 ≤ n) (h0 : 0 ≤ p) (h1 : p < n) :
    e.index n p = p := by
  rw [index_eq_foldOnce e hn (by omega) (by omega)]
  simp only [foldOnce, if_neg (show ¬p < 0 by omega), if_neg (show ¬n ≤ p by omega)]

end Extension
