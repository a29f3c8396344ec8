/-
Arithmetic of fixed width that fails instead of wrapping.

* `unsigned`, `signed`, `sub` — a value, if it fits;
* `lanes` — one fallible value for each lane of a vector;
* `tryForRange_invariant` — a counting loop whose iterations may fail, but do not
  where an invariant holds.
-/
import Mathlib.Tactic

namespace Checked

/-- A value without sign, of `w` bits. -/
def unsigned (w n : ℕ) : Option ℕ := if n < 2 ^ w then some n else none

/-- A value of `w` bits and a sign bit. -/
def signed (w : ℕ) (z : ℤ) : Option ℤ := if -2 ^ w ≤ z ∧ z < 2 ^ w then some z else none

/-- A difference without sign. -/
def sub (a b : ℕ) : Option ℕ := if b ≤ a then some (a - b) else none

theorem unsigned_eq {w n : ℕ} (h : n < 2 ^ w) : unsigned w n = some n := if_pos h

theorem signed_eq {w : ℕ} {z : ℤ} (hlow : -2 ^ w ≤ z) (hhigh : z < 2 ^ w) : signed w z = some z :=
  if_pos ⟨hlow, hhigh⟩

theorem signed_of_lt {w n : ℕ} (h : n < 2 ^ w) : signed w n = some (n : ℤ) := by
  have hhigh : (n : ℤ) < 2 ^ w := by exact_mod_cast h
  have hlow : -2 ^ w ≤ (0 : ℤ) := neg_nonpos.mpr (by positivity)
  exact signed_eq (hlow.trans (Nat.cast_nonneg n)) hhigh

theorem sub_eq {a b : ℕ} (h : b ≤ a) : sub a b = some (a - b) := if_pos h

section

variable {n : ℕ} {α : Type*}

/-- All lanes, if none of them fails. -/
def lanes (f : Fin n → Option α) : Option (Fin n → α) :=
  if h : ∀ lane, (f lane).isSome = true then some fun lane => (f lane).get (h lane) else none

theorem lanes_eq {f : Fin n → Option α} {g : Fin n → α} (h : ∀ lane, f lane = some (g lane)) :
    lanes f = some g := by
  obtain rfl : f = fun lane => some (g lane) := funext h
  exact dif_pos fun _ => rfl

end

section

variable {σ : Type*}

/-- `for (i = 0; i < n; ++i) body(i)`, until an iteration fails. -/
def tryForRange : ℕ → (ℕ → σ → Option σ) → σ → Option σ
  | 0, _, s => some s
  | n + 1, body, s => (tryForRange n body s).bind (body n)

/-- Where the invariant holds the next iteration does not fail, so the loop ends. -/
theorem tryForRange_invariant (inv : ℕ → σ → Prop) {n : ℕ} {body : ℕ → σ → Option σ} {s : σ}
    (h0 : inv 0 s) (hstep : ∀ i < n, ∀ s, inv i s → ∃ s', body i s = some s' ∧ inv (i + 1) s') :
    ∃ s', tryForRange n body s = some s' ∧ inv n s' := by
  induction n with
  | zero => exact ⟨s, rfl, h0⟩
  | succ n ih =>
      obtain ⟨t, ht, hinv⟩ := ih fun i hi => hstep i (hi.trans (Nat.lt_succ_self n))
      obtain ⟨t', ht', hinv'⟩ := hstep n (Nat.lt_succ_self n) t hinv
      exact ⟨t', by rw [tryForRange, ht, Option.bind_some, ht'], hinv'⟩

end

end Checked
