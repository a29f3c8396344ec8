/-
Computations that may fail, and what they end with.

A computation in `Option` fails where the program would leave its contract: a
counter that wraps, a search that finds nothing.  `Ends x Q` says that `x` does
not fail and that its result satisfies `Q`.

* `Ends.bind`, `Ends.mono` — one step after another, weaker conclusions;
* `Ends.forRangeM`, `Ends.forFromM` — loops, through an invariant.
-/
import Mathlib.Tactic

/-- The computation succeeds, and its result satisfies `Q`. -/
def Ends {α : Type*} (x : Option α) (Q : α → Prop) : Prop := ∃ a, x = some a ∧ Q a

namespace Loop

variable {σ : Type*}

/-- `for (i = 0; i < n; ++i) body(i)`, where `body` may fail. -/
def forRangeM : ℕ → (ℕ → σ → Option σ) → σ → Option σ
  | 0, _, s => some s
  | n + 1, body, s => (forRangeM n body s).bind (body n)

/-- `for (i = start; i < start + n; ++i) body(i)`, where `body` may fail. -/
def forFromM (start n : ℕ) (body : ℕ → σ → Option σ) (s : σ) : Option σ :=
  forRangeM n (fun i => body (start + i)) s

end Loop

namespace Ends

variable {α β σ : Type*} {x : Option α} {P P' : α → Prop} {Q : β → Prop}

theorem some {a : α} (h : P a) : Ends (some a) P := ⟨a, rfl, h⟩

theorem mono (h : Ends x P) (hP : ∀ a, P a → P' a) : Ends x P' := by
  obtain ⟨a, hx, ha⟩ := h
  exact ⟨a, hx, hP a ha⟩

theorem bind {f : α → Option β} (hx : Ends x P) (hf : ∀ a, P a → Ends (f a) Q) : Ends (x.bind f) Q := by
  obtain ⟨a, rfl, ha⟩ := hx
  exact hf a ha

theorem map {g : α → β} (hx : Ends x P) (hg : ∀ a, P a → Q (g a)) : Ends (x.map g) Q := by
  obtain ⟨a, rfl, ha⟩ := hx
  exact ⟨g a, rfl, hg a ha⟩

/-- A loop, by what every iteration carries on. -/
theorem forRangeM (inv : ℕ → σ → Prop) {n : ℕ} {f : ℕ → σ → Option σ} {s : σ} (h0 : inv 0 s)
    (hs : ∀ i < n, ∀ s, inv i s → Ends (f i s) (inv (i + 1))) :
    Ends (Loop.forRangeM n f s) (inv n) := by
  induction n with
  | zero => exact some h0
  | succ n ih =>
    exact (ih fun i hi => hs i (hi.trans (Nat.lt_succ_self n))).bind (hs n (Nat.lt_succ_self n))

/-- The same for a loop that starts counting at `start`. -/
theorem forFromM (inv : ℕ → σ → Prop) {a n : ℕ} {f : ℕ → σ → Option σ} {s : σ} (h0 : inv a s)
    (hs : ∀ i, a ≤ i → i < a + n → ∀ s, inv i s → Ends (f i s) (inv (i + 1))) :
    Ends (Loop.forFromM a n f s) (inv (a + n)) :=
  forRangeM (fun i => inv (a + i)) h0
    fun i hi s h => hs (a + i) (by omega) (by omega) s h

end Ends
