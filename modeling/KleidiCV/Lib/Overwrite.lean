/-
Memory with a range of addresses overwritten.

`overwrite m d n g` holds `g 0`, ..., `g (n - 1)` from address `d` on and is `m`
elsewhere.  Stores and copies of blocks are brought to this form, and `Wrote`
takes them from there.

* `overwrite_append`, `overwrite_comm` — adjacent and disjoint ranges;
* `copyN_eq`, `swapRanges_eq` — copying and swapping, element by element, of
  ranges that do not overlap;
* `overwrite_wrote` — a range as a piece of a larger whole.
-/
import KleidiCV.Lib.Writes

open Loop

variable {β : Type*} {m : ℕ → β} {d n k : ℕ} {g h : ℕ → β}

/-- `m` with `n` addresses from `d` on replaced by `g`. -/
def overwrite (m : ℕ → β) (d n : ℕ) (g : ℕ → β) : ℕ → β :=
  fun a => if d ≤ a ∧ a < d + n then g (a - d) else m a

theorem overwrite_add (hj : k < n) : overwrite m d n g (d + k) = g k := by
  rw [overwrite, if_pos ⟨by omega, by omega⟩, Nat.add_sub_cancel_left]

theorem overwrite_of_not_mem {a : ℕ} (ha : ¬(d ≤ a ∧ a < d + n)) : overwrite m d n g a = m a :=
  if_neg ha

@[simp] theorem overwrite_zero : overwrite m d 0 g = m := by
  funext a
  exact overwrite_of_not_mem (by omega)

theorem overwrite_congr (hgh : ∀ j < n, g j = h j) : overwrite m d n g = overwrite m d n h := by
  funext a
  unfold overwrite
  split
  · exact hgh _ (by omega)
  · rfl

/-- Two ranges, one after the other, are one range. -/
theorem overwrite_append :
    overwrite (overwrite m d n g) (d + n) k h =
      overwrite m d (n + k) fun j => if j < n then g j else h (j - n) := by
  funext a
  simp only [overwrite]
  by_cases hlo : d ≤ a ∧ a < d + n
  · rw [if_neg (by omega), if_pos hlo, if_pos (by omega), if_pos (by omega)]
  · by_cases hhi : d + n ≤ a ∧ a < d + n + k
    · rw [if_pos hhi, if_pos (by omega), if_neg (by omega), Nat.sub_sub]
    · rw [if_neg hhi, if_neg hlo, if_neg (by omega)]

/-- Disjoint ranges can be overwritten in either order. -/
theorem overwrite_comm {e : ℕ} (hd : d + n ≤ e ∨ e + k ≤ d) :
    overwrite (overwrite m d n g) e k h = overwrite (overwrite m e k h) d n g := by
  funext a
  simp only [overwrite]
  by_cases hda : d ≤ a ∧ a < d + n
  · rw [if_neg (by omega), if_pos hda, if_pos hda]
  · rw [if_neg hda, if_neg hda]

/-- One more address. -/
theorem update_overwrite (v : β) :
    Function.update (overwrite m d n g) (d + n) v =
      overwrite m d (n + 1) fun j => if j < n then g j else v := by
  funext a
  rcases Nat.lt_trichotomy a (d + n) with ha | rfl | ha
  · rw [Function.update_of_ne ha.ne]
    simp only [overwrite]
    by_cases hda : d ≤ a ∧ a < d + n
    · rw [if_pos hda, if_pos (by omega), if_pos (by omega)]
    · rw [if_neg hda, if_neg (by omega)]
  · rw [Function.update_self, overwrite_add (Nat.lt_succ_self n), if_neg (lt_irrefl n)]
  · rw [Function.update_of_ne ha.ne', overwrite_of_not_mem (by omega),
      overwrite_of_not_mem (by omega)]

/-- Single elements, one after the other. -/
theorem forRange_update (n : ℕ) (m : ℕ → β) :
    forRange n (fun i m => Function.update m (d + i) (g i)) m = overwrite m d n g := by
  refine forRange_invariant (fun i m' => m' = overwrite m d i g) overwrite_zero.symm ?_
  rintro i - _ rfl
  rw [update_overwrite]
  refine overwrite_congr fun j hj => ?_
  split
  · rfl
  · rw [show j = i by omega]

/-! ### Copying and swapping -/

/-- `std::copy_n`. -/
def copyN (src n dst : ℕ) (m : ℕ → β) : ℕ → β :=
  forRange n (fun i m => Function.update m (dst + i) (m (src + i))) m

/-- `std::swap_ranges`. -/
def swapRanges (first n second : ℕ) (m : ℕ → β) : ℕ → β :=
  forRange n (fun i m => Function.update (Function.update m (first + i) (m (second + i)))
    (second + i) (m (first + i))) m

theorem copyN_eq {src dst : ℕ} (hd : src + n ≤ dst ∨ dst + n ≤ src) (m : ℕ → β) :
    copyN src n dst m = overwrite m dst n fun j => m (src + j) := by
  refine forRange_invariant (fun i m' => m' = overwrite m dst i fun j => m (src + j)) ?_ ?_
  · exact overwrite_zero.symm
  · rintro i hi _ rfl
    rw [update_overwrite]
    refine overwrite_congr fun j hj => ?_
    split
    · rfl
    · obtain rfl : j = i := by omega
      exact overwrite_of_not_mem (by omega)

theorem swapRanges_eq {first second : ℕ} (hd : first + n ≤ second ∨ second + n ≤ first)
    (m : ℕ → β) :
    swapRanges first n second m =
      overwrite (overwrite m first n fun j => m (second + j)) second n fun j => m (first + j) := by
  refine forRange_invariant (fun i m' => m' =
    overwrite (overwrite m first i fun j => m (second + j)) second i fun j => m (first + j)) ?_ ?_
  · rw [overwrite_zero, overwrite_zero]
  · rintro i hi _ rfl
    have hfirst : overwrite (overwrite m first i fun j => m (second + j)) second i
        (fun j => m (first + j)) (first + i) = m (first + i) := by
      rw [overwrite_of_not_mem (by omega), overwrite_of_not_mem (by omega)]
    have hsecond : overwrite (overwrite m first i fun j => m (second + j)) second i
        (fun j => m (first + j)) (second + i) = m (second + i) := by
      rw [overwrite_of_not_mem (by omega), overwrite_of_not_mem (by omega)]
    rw [hfirst, hsecond, overwrite_comm (by omega), update_overwrite, overwrite_comm (by omega),
      update_overwrite]
    have hlast : ∀ p, ∀ j < i + 1, (if j < i then m (p + j) else m (p + i)) = m (p + j) := by
      intro p j hj
      split
      · rfl
      · rw [show j = i by omega]
    rw [overwrite_congr (hlast second), overwrite_congr (hlast first)]

/-! ### As a piece of a larger whole -/

/-- The positions whose addresses are the range. -/
theorem overwrite_wrote {P : Type*} {addr : P → ℕ} {v : P → β} {S : Set P}
    (hS : ∀ q ∈ S, ∃ j < n, addr q = d + j ∧ g j = v q)
    (hd : ∀ j < n, ∃ q ∈ S, addr q = d + j) : Wrote addr v S m (overwrite m d n g) := by
  refine ⟨fun q hq => ?_, fun a ha => overwrite_of_not_mem fun hcon => ?_⟩
  · obtain ⟨j, hj, haddr, hv⟩ := hS q hq
    rw [haddr, overwrite_add hj, hv]
  · obtain ⟨q, hq, haddr⟩ := hd (a - d) (by omega)
    exact ha q hq (by omega)

/-- The positions of a range, listed by `f`. -/
theorem overwrite_wrote_range {P : Type*} {addr : P → ℕ} {v : P → β} {f : ℕ → P}
    (hf : ∀ j < n, addr (f j) = d + j) (hg : ∀ j < n, g j = v (f j)) :
    Wrote addr v {p | ∃ j < n, f j = p} m (overwrite m d n g) := by
  refine overwrite_wrote ?_ fun j hj => ⟨f j, ⟨j, hj, rfl⟩, hf j hj⟩
  rintro _ ⟨j, hj, rfl⟩
  exact ⟨j, hj, hf j hj, hg j hj⟩

/-- A range of a row that starts at `base`. -/
theorem overwrite_wrote_row {base a : ℕ} {v : ℕ → β} (hg : ∀ j < n, g j = v (a + j)) :
    Wrote (base + ·) v {i | a ≤ i ∧ i < a + n} m (overwrite m (base + a) n g) := by
  refine overwrite_wrote (fun i hi => ?_) fun j hj => ?_
  · obtain ⟨j, rfl⟩ := Nat.exists_eq_add_of_le hi.1
    have hj : j < n := by have := hi.2; omega
    exact ⟨j, hj, (Nat.add_assoc ..).symm, hg j hj⟩
  · exact ⟨a + j, ⟨by omega, by omega⟩, (Nat.add_assoc ..).symm⟩

/-- Ranges without a common address lie one after the other. -/
theorem ranges_disjoint {a b : ℕ} (hn : 0 < n) (hk : 0 < k)
    (hne : ∀ i < n, ∀ j < k, a + i ≠ b + j) : a + n ≤ b ∨ b + k ≤ a := by
  by_contra hcon
  rcases Nat.le_total a b with hab | hab
  · exact hne (b - a) (by omega) 0 hk (by omega)
  · exact hne 0 hn (a - b) (by omega) (by omega)
