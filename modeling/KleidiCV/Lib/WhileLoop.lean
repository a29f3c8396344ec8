/-
Loops that run while a condition holds.

`whileLoop cond body fuel` is `none` if the condition still holds after `fuel` rounds, or if a
round fails.  A loop terminates if there is fuel enough for it.

* `whileLoop_of_not`, `whileLoop_round` — no round, and one;
* `whileLoop_counted` — a loop whose states are known, round by round.
-/
import KleidiCV.Lib.Loop

open Loop

variable {σ : Type*} {cond : σ → Bool} {body : σ → Option σ}

/-- `while (cond(s)) body(s)`, for at most `fuel` rounds. -/
def whileLoop (cond : σ → Bool) (body : σ → Option σ) : ℕ → σ → Option σ
  | 0, s => if cond s then none else some s
  | fuel + 1, s => if cond s then (body s).bind (whileLoop cond body fuel) else some s

variable (cond) in
theorem whileLoop_of_not {s : σ} (h : cond s = false) (fuel : ℕ) :
    whileLoop cond body fuel s = some s := by
  cases fuel with
  | zero => rw [whileLoop, h, if_neg Bool.false_ne_true]
  | succ fuel => rw [whileLoop, h, if_neg Bool.false_ne_true]

variable (cond) in
theorem whileLoop_round {s s' : σ} (h : cond s = true) (hbody : body s = some s') (fuel : ℕ) :
    whileLoop cond body (fuel + 1) s = whileLoop cond body fuel s' := by
  rw [whileLoop, h, if_pos rfl, hbody, Option.bind_some]

variable (cond body) in
/-- **A loop of `n` rounds**, where `state i` is reached after `i` of them. -/
theorem whileLoop_counted {n : ℕ} (state : ℕ → σ) (hcond : ∀ i < n, cond (state i) = true)
    (hbody : ∀ i < n, body (state i) = some (state (i + 1))) (hend : cond (state n) = false)
    {fuel : ℕ} (hfuel : n ≤ fuel) : whileLoop cond body fuel (state 0) = some (state n) := by
  induction n generalizing state fuel with
  | zero => exact whileLoop_of_not cond hend fuel
  | succ n ih =>
    obtain ⟨fuel, rfl⟩ := Nat.exists_eq_add_of_le' hfuel
    have hpos := Nat.succ_pos n
    rw [← Nat.add_assoc, whileLoop_round cond (hcond 0 hpos) (hbody 0 hpos)]
    exact ih (fun i => state (i + 1)) (fun i hi => hcond (i + 1) (Nat.succ_lt_succ hi))
      (fun i hi => hbody (i + 1) (Nat.succ_lt_succ hi)) hend (Nat.le_add_left n fuel)
