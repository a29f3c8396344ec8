/-
Filling a buffer row by row.

The rows of the buffer have `n` elements each and follow one another.  `FilledRows` says
that the elements before a place have their values and that the others are as they were.

* `FilledRows.store`, `FilledRows.update` — storing elements, some of which may be there already;
* `FilledRows.row` — the next row;
* `FilledRows.unique` — what is in the buffer at the end.
-/
import Mathlib.Tactic

/-- The elements before element `i` of row `y` are those of `f`, and the others those of
the old buffer. -/
structure FilledRows {α : Type*} (f : ℕ → ℕ → α) (n : ℕ) (old : ℕ → α) (y i : ℕ) (m : ℕ → α) :
    Prop where
  done : ∀ y' x, x < n → y' < y ∨ y' = y ∧ x < i → m (y' * n + x) = f y' x
  rest : ∀ j, y * n + i ≤ j → m j = old j

namespace FilledRows

variable {α : Type*} {f : ℕ → ℕ → α} {n y i : ℕ} {old m m' : ℕ → α}

theorem start : FilledRows f n m 0 0 m where
  done _ _ _ h := by omega
  rest _ _ := rfl

theorem row (h : FilledRows f n old y n m) : FilledRows f n old (y + 1) 0 m where
  done y' x hx hy := by
    refine h.done y' x hx ?_
    rcases hy with hlt | ⟨-, hneg⟩
    · omega
    · exact absurd hneg (Nat.not_lt_zero x)
  rest j hj := by
    rw [Nat.succ_mul] at hj
    exact h.rest j hj

/-- Storing elements `x` to `e` of the current row. -/
theorem store (h : FilledRows f n old y i m) {x e : ℕ} (hx : x ≤ i) (he : i ≤ e)
    (hin : ∀ k, x ≤ k → k < e → m' (y * n + k) = f y k)
    (hout : ∀ j, j < y * n + x ∨ y * n + e ≤ j → m' j = m j) : FilledRows f n old y e m' where
  done y' k hk hy := by
    rcases hy with hlt | ⟨rfl, hlt⟩
    · have hrow := Nat.mul_le_mul_right n (Nat.succ_le_of_lt hlt)
      rw [Nat.succ_mul] at hrow
      rw [hout _ (.inl (by omega))]
      exact h.done y' k hk (.inl hlt)
    · by_cases hstored : x ≤ k
      · exact hin k hstored hlt
      · rw [hout _ (.inl (by omega))]
        exact h.done y' k hk (.inr ⟨rfl, by omega⟩)
  rest j hj := by
    rw [hout j (.inr hj)]
    exact h.rest j (by omega)

/-- The next element. -/
theorem update {v : α} (h : FilledRows f n old y i m) (hv : v = f y i) :
    FilledRows f n old y (i + 1) (Function.update m (y * n + i) v) := by
  refine h.store le_rfl (Nat.le_succ i) (fun k hk hlt => ?_) fun j hj =>
    Function.update_of_ne (by omega) _ _
  obtain rfl : k = i := by omega
  rw [Function.update_self, hv]

/-- Two buffers filled with the same rows. -/
theorem unique (h : FilledRows f n old y 0 m) (h' : FilledRows f n old y 0 m') : m = m' := by
  funext j
  by_cases hj : y * n ≤ j
  · rw [h.rest j hj, h'.rest j hj]
  · rw [not_le] at hj
    have hn : 0 < n := Nat.pos_of_ne_zero fun h0 => by simp [h0] at hj
    have hmod := Nat.mod_lt j hn
    have hdiv : j / n < y := Nat.div_lt_of_lt_mul (by rwa [Nat.mul_comm])
    rw [← Nat.div_add_mod' j n, h.done _ _ hmod (.inl hdiv), h'.done _ _ hmod (.inl hdiv)]

end FilledRows
