/-
The SVE operations that the scalable kernels use, on lanes of any number.

A vector is a function of the lane, a predicate says which lanes are active.  Lanes of an
operation that merges nothing and zeroes nothing hold unspecified values; they are
parameters of the models that use them.

* `svld1_of_active`, `svld1_of_inactive` — loads zero what is inactive;
* `sum_pairs` — bottom and top lanes together are all lanes;
* `sum_masked` — a predicate counts up to the end of the data.
-/
import Mathlib.Tactic

namespace KleidiCV

/-- `svptrue`. -/
def svptrue : ℕ → Bool := fun _ => true

/-- `svwhilelt`. -/
def svwhilelt (index last : ℕ) : ℕ → Bool := fun l => decide (index + l < last)

/-- `svld1` and each vector of `svld2`: what is inactive is zero. -/
def svld1 (pg : ℕ → Bool) (data : ℕ → ℤ) : ℕ → ℤ := fun l => if pg l then data l else 0

/-- `svst1`, into a buffer of elements, with `lanes` lanes a vector. -/
def svst1 (pg : ℕ → Bool) (m : ℕ → ℤ) (ptr lanes : ℕ) (v : ℕ → ℤ) : ℕ → ℤ := fun i =>
  if ptr ≤ i ∧ i < ptr + lanes ∧ pg (i - ptr) then v (i - ptr) else m i

/-- `svst2`: lane `l` of both vectors goes to elements `2 * l` and `2 * l + 1`. -/
def svst2 (pg : ℕ → Bool) (m : ℕ → ℤ) (ptr lanes : ℕ) (v0 v1 : ℕ → ℤ) : ℕ → ℤ := fun i =>
  if ptr ≤ i ∧ i < ptr + 2 * lanes ∧ pg ((i - ptr) / 2) then
    if (i - ptr) % 2 = 0 then v0 ((i - ptr) / 2) else v1 ((i - ptr) / 2)
  else m i

theorem svld1_of_active {pg : ℕ → Bool} {l : ℕ} (h : pg l = true) (data : ℕ → ℤ) :
    svld1 pg data l = data l := if_pos h

theorem svld1_of_inactive {pg : ℕ → Bool} {l : ℕ} (h : pg l = false) (data : ℕ → ℤ) :
    svld1 pg data l = 0 := if_neg (by rw [h]; exact Bool.false_ne_true)

theorem svst2_even (pg : ℕ → Bool) (m : ℕ → ℤ) (ptr lanes : ℕ) (v0 v1 : ℕ → ℤ) :
    (fun j => svst2 pg m (ptr * 2) lanes v0 v1 (j * 2)) =
      svst1 pg (fun j => m (j * 2)) ptr lanes v0 := by
  funext j
  rw [svst2, svst1, show (j * 2 - ptr * 2) / 2 = j - ptr by omega]
  by_cases hin : ptr ≤ j ∧ j < ptr + lanes ∧ pg (j - ptr) = true
  · rw [if_pos hin, if_pos ⟨by omega, by omega, hin.2.2⟩, if_pos (by omega)]
  · rw [if_neg hin, if_neg fun h => hin ⟨by omega, by omega, h.2.2⟩]

theorem svst2_odd (pg : ℕ → Bool) (m : ℕ → ℤ) (ptr lanes : ℕ) (v0 v1 : ℕ → ℤ) :
    (fun j => svst2 pg m (ptr * 2) lanes v0 v1 (j * 2 + 1)) =
      svst1 pg (fun j => m (j * 2 + 1)) ptr lanes v1 := by
  funext j
  rw [svst2, svst1, show (j * 2 + 1 - ptr * 2) / 2 = j - ptr by omega]
  by_cases hin : ptr ≤ j ∧ j < ptr + lanes ∧ pg (j - ptr) = true
  · rw [if_pos hin, if_pos ⟨by omega, by omega, hin.2.2⟩, if_neg (by omega)]
  · rw [if_neg hin, if_neg fun h => hin ⟨by omega, by omega, h.2.2⟩]

/-! ### Sums over lanes -/

/-- Bottom and top lanes together are all lanes. -/
theorem sum_pairs (g : ℕ → ℤ) (v : ℕ) :
    ∑ i : Fin v, (g (2 * i) + g (2 * i + 1)) = ∑ l ∈ Finset.range (2 * v), g l := by
  rw [Fin.sum_univ_eq_sum_range (fun i => g (2 * i) + g (2 * i + 1))]
  induction v with
  | zero => rfl
  | succ v ih =>
    rw [Finset.sum_range_succ, ih, show 2 * (v + 1) = 2 * v + 1 + 1 by omega,
      Finset.sum_range_succ, Finset.sum_range_succ, add_assoc]

/-- Active lanes go on to the end of the data. -/
theorem sum_masked (f : ℕ → ℤ) {i e lanes : ℕ} (hie : i ≤ e) (hlanes : e ≤ i + lanes) :
    ∑ x ∈ Finset.range i, f x + ∑ l ∈ Finset.range lanes, (if i + l < e then f (i + l) else 0) =
      ∑ x ∈ Finset.range e, f x := by
  obtain ⟨k, rfl⟩ := Nat.exists_eq_add_of_le hie
  obtain ⟨d, rfl⟩ : ∃ d, lanes = k + d := ⟨lanes - k, by omega⟩
  rw [Finset.sum_range_add, Finset.sum_range_add]
  have hactive : ∑ l ∈ Finset.range k, (if i + l < i + k then f (i + l) else 0) =
      ∑ l ∈ Finset.range k, f (i + l) :=
    Finset.sum_congr rfl fun l hl => if_pos (by have := Finset.mem_range.mp hl; omega)
  have hinactive : ∑ l ∈ Finset.range d, (if i + (k + l) < i + k then f (i + (k + l)) else 0) = 0 :=
    Finset.sum_eq_zero fun l _ => if_neg (by omega)
  rw [hactive, hinactive, add_zero]

end KleidiCV
