/-
The symmetries of a rectangle of cells.

A `Symmetry` turns a rectangle around or over.  The eight of them are a group in which
`g * h` is `g` first and `h` after it.  Sizes and cells are pairs of a row and a column.

* `source` — where a cell of the result comes from;
* `source_mul` — the cell that a cell of the result of two symmetries comes from.
-/
import Mathlib.Tactic

/-- Rows and columns are exchanged or not; then the rows are put in reverse order or not,
and the columns. -/
structure Symmetry where
  swap : Bool
  reverseRows : Bool
  reverseColumns : Bool
  deriving DecidableEq

namespace Symmetry

/-- The size of the result. -/
def size (g : Symmetry) (s : ℕ × ℕ) : ℕ × ℕ := if g.swap then s.swap else s

/-- Place `i` of `n` places, counted from the other end or not. -/
def reverse (r : Bool) (n i : ℕ) : ℕ := if r then n - 1 - i else i

/-- The cell that cell `p` of the result comes from. -/
def source (g : Symmetry) (s p : ℕ × ℕ) : ℕ × ℕ :=
  let q := (reverse g.reverseRows (g.size s).1 p.1, reverse g.reverseColumns (g.size s).2 p.2)
  if g.swap then q.swap else q

/-- `g` first, `h` after it. -/
def andThen (g h : Symmetry) : Symmetry where
  swap := xor h.swap g.swap
  reverseRows := xor (if h.swap then g.reverseColumns else g.reverseRows) h.reverseRows
  reverseColumns := xor (if h.swap then g.reverseRows else g.reverseColumns) h.reverseColumns

/-- The symmetry that undoes `g`. -/
def undo (g : Symmetry) : Symmetry where
  swap := g.swap
  reverseRows := if g.swap then g.reverseColumns else g.reverseRows
  reverseColumns := if g.swap then g.reverseRows else g.reverseColumns

instance : Mul Symmetry := ⟨andThen⟩

instance : One Symmetry := ⟨⟨false, false, false⟩⟩

instance : Inv Symmetry := ⟨undo⟩

theorem mul_def (g h : Symmetry) : g * h = g.andThen h := rfl

theorem andThen_assoc (g h k : Symmetry) : (g.andThen h).andThen k = g.andThen (h.andThen k) := by
  obtain ⟨gs, gr, gc⟩ := g
  obtain ⟨hs, hr, hc⟩ := h
  obtain ⟨ks, kr, kc⟩ := k
  cases hs <;> cases ks <;> simp [andThen]

instance : Group Symmetry where
  mul_assoc := andThen_assoc
  one_mul := fun ⟨gs, gr, gc⟩ => by cases gs <;> cases gr <;> cases gc <;> rfl
  mul_one := fun ⟨gs, gr, gc⟩ => by cases gs <;> cases gr <;> cases gc <;> rfl
  inv_mul_cancel := fun ⟨gs, gr, gc⟩ => by cases gs <;> cases gr <;> cases gc <;> rfl

theorem size_one (s : ℕ × ℕ) : (1 : Symmetry).size s = s := rfl

theorem source_one (s p : ℕ × ℕ) : (1 : Symmetry).source s p = p := rfl

theorem size_mul (g h : Symmetry) (s : ℕ × ℕ) : (g * h).size s = h.size (g.size s) := by
  rw [mul_def, size, size, size, andThen]
  cases g.swap <;> cases h.swap <;> rfl

theorem reverse_lt {r : Bool} {n i : ℕ} (hi : i < n) : reverse r n i < n := by
  rw [reverse]
  split <;> omega

theorem reverse_reverse {a b : Bool} {n i : ℕ} (hi : i < n) :
    reverse a n (reverse b n i) = reverse (xor a b) n i := by
  cases a <;> cases b <;> simp only [reverse, Bool.xor_true, Bool.xor_false, Bool.not_true,
    Bool.not_false, if_true, if_false, Bool.false_eq_true]
  omega

/-- A cell of the result comes from a cell of the rectangle. -/
theorem source_lt {g : Symmetry} {s p : ℕ × ℕ} (h1 : p.1 < (g.size s).1) (h2 : p.2 < (g.size s).2) :
    (g.source s p).1 < s.1 ∧ (g.source s p).2 < s.2 := by
  have hrow := reverse_lt (r := g.reverseRows) h1
  have hcolumn := reverse_lt (r := g.reverseColumns) h2
  rw [source]
  cases hswap : g.swap with
  | true =>
    simp only [size, hswap, if_true, Prod.fst_swap, Prod.snd_swap] at hrow hcolumn ⊢
    exact ⟨hcolumn, hrow⟩
  | false =>
    simp only [size, hswap, Bool.false_eq_true, if_false] at hrow hcolumn ⊢
    exact ⟨hrow, hcolumn⟩

/-- **From the result of two symmetries back to the rectangle.** -/
theorem source_mul {g h : Symmetry} {s p : ℕ × ℕ} (h1 : p.1 < ((g * h).size s).1)
    (h2 : p.2 < ((g * h).size s).2) :
    (g * h).source s p = g.source s (h.source (g.size s) p) := by
  obtain ⟨y, x⟩ := p
  rw [size_mul] at h1 h2
  simp only [source, size_mul]
  rw [mul_def, andThen]
  generalize g.size s = t at h1 h2 ⊢
  cases hswap : h.swap with
  | true =>
    simp only [size, hswap, if_true, Prod.fst_swap, Prod.snd_swap] at h1 h2 ⊢
    rw [reverse_reverse h1, reverse_reverse h2]
    cases g.swap <;> rfl
  | false =>
    simp only [size, hswap, Bool.false_eq_true, if_false] at h1 h2 ⊢
    rw [reverse_reverse h1, reverse_reverse h2]
    cases g.swap <;> rfl

end Symmetry
