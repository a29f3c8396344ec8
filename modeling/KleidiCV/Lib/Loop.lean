/-
Counting loops over an explicit state.

`forRange n body` runs `body 0`, ..., `body (n - 1)`; `forFrom start n body`
starts counting at `start`.  Facts about a loop are proved through an invariant
indexed by the number of iterations done.

* `forRange_invariant` — an invariant that every iteration carries on;
* `forRange_rel` — two loops in lockstep;
* `forRange_cursor` — a loop that advances a cursor by a fixed step;
* `forSteps_invariant` — a loop in steps, the last of which may be cut short.
-/
import Mathlib.Tactic
import Mathlib.Order.CompletePartialOrder

namespace Loop

variable {σ τ : Type*}

/-- `for (i = 0; i < n; ++i) body(i)`. -/
def forRange : ℕ → (ℕ → σ → σ) → σ → σ
  | 0, _, s => s
  | n + 1, body, s => body n (forRange n body s)

/-- `for (i = start; i < start + n; ++i) body(i)`. -/
def forFrom (start n : ℕ) (body : ℕ → σ → σ) (s : σ) : σ :=
  forRange n (fun i => body (start + i)) s

@[simp] theorem forRange_zero (body : ℕ → σ → σ) (s : σ) : forRange 0 body s = s := rfl

theorem forRange_succ (n : ℕ) (body : ℕ → σ → σ) (s : σ) :
    forRange (n + 1) body s = body n (forRange n body s) := rfl

/-- What holds at the start and is carried on by every iteration holds at the
end. -/
theorem forRange_invariant (inv : ℕ → σ → Prop) {n : ℕ} {f : ℕ → σ → σ} {s : σ}
    (h0 : inv 0 s) (hs : ∀ i < n, ∀ s, inv i s → inv (i + 1) (f i s)) :
    inv n (forRange n f s) := by
  induction n with
  | zero => exact h0
  | succ n ih =>
    rw [forRange_succ]
    exact hs n (Nat.lt_succ_self n) _ (ih fun i hi => hs i (hi.trans (Nat.lt_succ_self n)))

/-- The same for a loop that starts counting at `start`. -/
theorem forFrom_invariant (inv : ℕ → σ → Prop) {start n : ℕ} {body : ℕ → σ → σ} {s : σ}
    (h0 : inv start s)
    (hs : ∀ i, start ≤ i → i < start + n → ∀ s, inv i s → inv (i + 1) (body i s)) :
    inv (start + n) (forFrom start n body s) :=
  forRange_invariant (fun i => inv (start + i)) h0
    fun i hi s h => hs (start + i) (by omega) (by omega) s h

/-- Two loops whose iterations keep a relation between their states. -/
theorem forRange_rel (r : ℕ → σ → τ → Prop) {n : ℕ} {f : ℕ → σ → σ} {g : ℕ → τ → τ} {s : σ}
    {t : τ} (h0 : r 0 s t) (hs : ∀ i < n, ∀ s t, r i s t → r (i + 1) (f i s) (g i t)) :
    r n (forRange n f s) (forRange n g t) := by
  induction n with
  | zero => exact h0
  | succ n ih =>
    simp only [forRange_succ]
    exact hs n (Nat.lt_succ_self n) _ _ (ih fun i hi => hs i (hi.trans (Nat.lt_succ_self n)))

theorem forRange_congr {n : ℕ} {f g : ℕ → σ → σ} (h : ∀ i < n, ∀ s, f i s = g i s) (s : σ) :
    forRange n f s = forRange n g s := by
  refine forRange_rel (fun _ s t => s = t) rfl fun i hi s t hst => ?_
  rw [hst]
  exact h i hi t

/-- A cursor that every iteration advances by `step`. -/
theorem forRange_cursor (n step : ℕ) (body : ℕ → σ → σ) (c : ℕ) (s : σ) :
    forRange n (fun _ p => (p.1 + step, body p.1 p.2)) (c, s) =
      (c + n * step, forRange n (fun i => body (c + i * step)) s) := by
  induction n with
  | zero => simp
  | succ n ih =>
    simp only [forRange_succ, ih, Prod.mk.injEq, and_true]
    ring

/-- `for (i = start; i < last; i += step) body(i)`. -/
def forSteps (start step last : ℕ) (body : ℕ → σ → σ) (s : σ) : σ :=
  forRange ((last - start + step - 1) / step) (fun t => body (start + t * step)) s

theorem forSteps_of_le {start step last : ℕ} (hstep : 0 < step) (h : last ≤ start)
    (body : ℕ → σ → σ) (s : σ) : forSteps start step last body s = s := by
  rw [forSteps, Nat.sub_eq_zero_of_le h, Nat.div_eq_of_lt (by omega)]
  rfl

/-- An iteration carries the invariant on by a step, or to the end where less is left. -/
theorem forSteps_invariant (inv : ℕ → σ → Prop) {start step last : ℕ} {body : ℕ → σ → σ} {s : σ}
    (hstep : 0 < step) (hstart : start ≤ last) (h0 : inv start s)
    (hs : ∀ i, start ≤ i → i < last → ∀ s, inv i s → inv (i + min step (last - i)) (body i s)) :
    inv last (forSteps start step last body s) := by
  have hend : last - start ≤ (last - start + step - 1) / step * step := by
    have := Nat.lt_div_mul_add hstep (a := last - start + step - 1)
    omega
  have hall := forRange_invariant (fun t => inv (min (start + t * step) last))
    (n := (last - start + step - 1) / step) (f := fun t => body (start + t * step)) (s := s) ?_ ?_
  · rwa [Nat.min_eq_right (by omega)] at hall
  · rwa [Nat.zero_mul, Nat.add_zero, Nat.min_eq_left hstart]
  · intro t ht s h
    have hlt := (Nat.le_div_iff_mul_le hstep).mp (Nat.succ_le_of_lt ht)
    rw [Nat.succ_mul] at hlt
    have hi : start + t * step < last := by omega
    rw [Nat.min_eq_left hi.le] at h
    have hnext := hs (start + t * step) (Nat.le_add_right _ _) hi s h
    rwa [show start + t * step + min step (last - (start + t * step)) =
      min (start + (t + 1) * step) last by rw [Nat.succ_mul]; omega] at hnext

end Loop
