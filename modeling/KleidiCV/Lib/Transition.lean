/-
Labelled transition systems and their invariants.

`Reachable init step` is the set of states of all runs: it starts from any
state in `init` and follows `step` under any label.  The rules are the two
ways an invariant is established:

* `Reachable.invariant` — it holds at the start and every step keeps it;
* `Reachable.invariant_of` — every step keeps it between states that already
  satisfy another invariant.
-/
import Mathlib.Tactic

namespace Transition

variable {σ ε : Type*} {init : σ → Prop} {step : σ → ε → σ → Prop}

/-- The states of all runs. -/
inductive Reachable (init : σ → Prop) (step : σ → ε → σ → Prop) : σ → Prop
  | start {s : σ} : init s → Reachable init step s
  | next {s t : σ} {e : ε} : Reachable init step s → step s e t → Reachable init step t

theorem Reachable.invariant {inv : σ → Prop} (h0 : ∀ s, init s → inv s)
    (hs : ∀ s e t, inv s → step s e t → inv t) {s : σ} (h : Reachable init step s) : inv s := by
  induction h with
  | start hi => exact h0 _ hi
  | next _ ht ih => exact hs _ _ _ ih ht

/-- An invariant may assume one that is already known. -/
theorem Reachable.invariant_of {known inv : σ → Prop}
    (hk : ∀ s, Reachable init step s → known s) (h0 : ∀ s, init s → inv s)
    (hs : ∀ s e t, known s → inv s → step s e t → inv t) {s : σ}
    (h : Reachable init step s) : inv s := by
  induction h with
  | start hi => exact h0 _ hi
  | next hr ht ih => exact hs _ _ _ (hk _ hr) ih ht

end Transition
