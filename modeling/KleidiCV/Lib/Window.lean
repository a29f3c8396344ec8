/-
Sums over windows of consecutive terms.

`windowSum f a k` is `f a + ... + f (a + k - 1)`.  Moving the window by one
place adds the term that comes in and takes away the one that goes out, which
is stated without subtraction so that the terms may be multisets.

* `windowSum.slide` — the window one place further on;
* `windowMix` — a window whose terms are replaced one by one.
-/
import Mathlib.Tactic

variable {M : Type*} [AddCommMonoid M] {f g : ℕ → M} {a k n : ℕ}

/-- The sum of the `k` terms from `a` on. -/
def windowSum (f : ℕ → M) (a k : ℕ) : M := ∑ i ∈ Finset.range k, f (a + i)

namespace windowSum

@[simp] theorem zero (f : ℕ → M) (a : ℕ) : windowSum f a 0 = 0 := rfl

theorem succ (f : ℕ → M) (a k : ℕ) : windowSum f a (k + 1) = windowSum f a k + f (a + k) :=
  Finset.sum_range_succ _ _

theorem succ' (f : ℕ → M) (a k : ℕ) : windowSum f a (k + 1) = f a + windowSum f (a + 1) k := by
  rw [windowSum, Finset.sum_range_succ', Nat.add_zero, add_comm]
  simp only [windowSum, Nat.add_assoc, Nat.add_comm 1]

/-- The window one place further on. -/
theorem slide (f : ℕ → M) (a k : ℕ) :
    f a + windowSum f (a + 1) k = windowSum f a k + f (a + k) := by
  rw [← succ', succ]

theorem congr (h : ∀ i < k, f (a + i) = g (a + i)) : windowSum f a k = windowSum g a k :=
  Finset.sum_congr rfl fun i hi => h i (Finset.mem_range.mp hi)

/-- Summing commutes with additive functions. -/
theorem map {N : Type*} [AddCommMonoid N] (φ : M →+ N) (f : ℕ → M) (a k : ℕ) :
    φ (windowSum f a k) = windowSum (fun i => φ (f i)) a k :=
  map_sum φ _ _

end windowSum

/-- The window whose first `c` terms have been replaced by those of `g`. -/
def windowMix (f g : ℕ → M) (a k c : ℕ) : M := windowSum g a c + windowSum f (a + c) (k - c)

namespace windowMix

@[simp] theorem zero (f g : ℕ → M) (a k : ℕ) : windowMix f g a k 0 = windowSum f a k := by
  rw [windowMix, windowSum.zero, zero_add]
  rfl

@[simp] theorem self (f g : ℕ → M) (a k : ℕ) : windowMix f g a k k = windowSum g a k := by
  rw [windowMix, Nat.sub_self, windowSum.zero, add_zero]

/-- One term more, up to the difference between the two terms. -/
theorem succ {c : ℕ} (hc : c < k) {x y : M} (h : f (a + c) + x = g (a + c) + y) :
    windowMix f g a k c + x = windowMix f g a k (c + 1) + y := by
  have hlast : windowSum f (a + c) (k - c) = f (a + c) + windowSum f (a + (c + 1)) (k - (c + 1)) := by
    rw [show k - c = k - (c + 1) + 1 by omega, windowSum.succ']
    rfl
  rw [windowMix, windowMix, windowSum.succ, hlast]
  calc windowSum g a c + (f (a + c) + windowSum f (a + (c + 1)) (k - (c + 1))) + x
      = windowSum g a c + windowSum f (a + (c + 1)) (k - (c + 1)) + (f (a + c) + x) := by abel
    _ = windowSum g a c + windowSum f (a + (c + 1)) (k - (c + 1)) + (g (a + c) + y) := by rw [h]
    _ = windowSum g a c + g (a + c) + windowSum f (a + (c + 1)) (k - (c + 1)) + y := by abel

end windowMix
