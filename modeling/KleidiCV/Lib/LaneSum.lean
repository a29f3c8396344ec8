/-
Sums kept in the lanes of a register.

Each step adds a number to every lane.  `wrap` says what a lane makes of a sum that does
not fit; a `LaneSum` also remembers whether that ever changed a sum.

* `LaneSum.lanes_of_exact`, `LaneSum.total_of_exact` — nothing lost: lanes and total are
  sums;
* `LaneSum.exact_of_bound` — few small numbers always fit;
* `LaneSum.not_exact` — a lane whose sum is too large.
-/
import Mathlib.Tactic

/-- The lanes of a register, and that no sum was changed. -/
structure LaneSum (ι : Type*) where
  lanes : ι → ℤ
  exact : Prop

namespace LaneSum

variable {ι : Type*}

/-- The sum of nothing. -/
def zero : LaneSum ι := ⟨0, True⟩

/-- One number for each lane. -/
def add (wrap : ℤ → ℤ) (s : LaneSum ι) (p : ι → ℤ) : LaneSum ι where
  lanes l := wrap (s.lanes l + p l)
  exact := s.exact ∧ ∀ l, wrap (s.lanes l + p l) = s.lanes l + p l

/-- A whole run. -/
def run (wrap : ℤ → ℤ) (ps : List (ι → ℤ)) : LaneSum ι := ps.foldl (add wrap) zero

variable {wrap : ℤ → ℤ} {ps : List (ι → ℤ)}

@[simp] theorem run_nil : run wrap ([] : List (ι → ℤ)) = zero := rfl

theorem run_concat (p : ι → ℤ) : run wrap (ps ++ [p]) = (run wrap ps).add wrap p := by
  rw [run, List.foldl_append, List.foldl_cons, List.foldl_nil, run]

theorem lanes_of_exact (h : (run wrap ps).exact) (l : ι) :
    (run wrap ps).lanes l = (ps.map (· l)).sum := by
  induction ps using List.reverseRecOn with
  | nil => rfl
  | append_singleton ps p ih =>
    rw [run_concat] at h ⊢
    have hlane : wrap ((run wrap ps).lanes l + p l) = (run wrap ps).lanes l + p l := h.2 l
    show wrap ((run wrap ps).lanes l + p l) = _
    rw [hlane, ih h.1, List.map_append, List.sum_append, List.map_singleton, List.sum_singleton]

/-- The total over all lanes. -/
theorem total_of_exact [Fintype ι] (h : (run wrap ps).exact) :
    ∑ l, (run wrap ps).lanes l = (ps.map fun p => ∑ l, p l).sum := by
  simp only [lanes_of_exact h]
  clear h
  induction ps with
  | nil => simp
  | cons p ps ih =>
    simp only [List.map_cons, List.sum_cons, Finset.sum_add_distrib, ih]

/-- Each lane is bounded by the number of steps. -/
theorem exact_and_abs_le {B M : ℤ} (hwrap : ∀ x, |x| < M → wrap x = x) (hB : 0 ≤ B)
    (hps : ∀ p ∈ ps, ∀ l, |p l| ≤ B) (hlen : ps.length * B < M) :
    (run wrap ps).exact ∧ ∀ l, |(run wrap ps).lanes l| ≤ ps.length * B := by
  induction ps using List.reverseRecOn with
  | nil => exact ⟨trivial, fun l => by simp [zero]⟩
  | append_singleton ps p ih =>
    rw [List.length_append, List.length_singleton, Nat.cast_add, Nat.cast_one, add_mul,
      one_mul] at hlen ⊢
    obtain ⟨hexact, hlanes⟩ := ih (fun q hq => hps q (List.mem_append_left _ hq)) (by linarith)
    have hsum : ∀ l, |(run wrap ps).lanes l + p l| ≤ ps.length * B + B := fun l =>
      (abs_add_le _ _).trans
        (add_le_add (hlanes l) (hps p (List.mem_append_right _ (List.mem_singleton_self p)) l))
    have hfit : ∀ l, wrap ((run wrap ps).lanes l + p l) = (run wrap ps).lanes l + p l := fun l =>
      hwrap _ ((hsum l).trans_lt hlen)
    rw [run_concat]
    refine ⟨⟨hexact, hfit⟩, fun l => ?_⟩
    show |wrap _| ≤ _
    rw [hfit l]
    exact hsum l

/-- **Few small numbers always fit.** -/
theorem exact_of_bound {B M : ℤ} (hwrap : ∀ x, |x| < M → wrap x = x) (hB : 0 ≤ B)
    (hps : ∀ p ∈ ps, ∀ l, |p l| ≤ B) (hlen : ps.length * B < M) : (run wrap ps).exact :=
  (exact_and_abs_le hwrap hB hps hlen).1

/-- A lane that never wraps around. -/
theorem run_id_exact : (run id ps).exact := by
  induction ps using List.reverseRecOn with
  | nil => exact trivial
  | append_singleton ps p ih =>
    rw [run_concat]
    exact ⟨ih, fun _ => rfl⟩

/-- **A lane whose sum is too large.** -/
theorem not_exact {M : ℤ} (hM : 0 < M) (hwrap : ∀ x, wrap x < M) {l : ι}
    (hsum : M ≤ (ps.map (· l)).sum) : ¬(run wrap ps).exact := by
  intro h
  have hlt : (run wrap ps).lanes l < M := by
    rcases ps.eq_nil_or_concat with rfl | ⟨qs, q, rfl⟩
    · exact hM
    · rw [List.concat_eq_append, run_concat]
      exact hwrap _
  rw [lanes_of_exact h] at hlt
  exact absurd hsum (not_le.mpr hlt)

end LaneSum
