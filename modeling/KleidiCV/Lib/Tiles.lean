/-
Half-open ranges that follow each other.

`Tiles a l b` says that the ranges of `l` lead from `a` to `b` without a gap, and that none of
them is empty.  Loops that record the ranges of their rounds are described this way.

* `Tiles.append`, `Tiles.concat` — more ranges;
* `Tiles.isPartition` — ranges from 0 are a partition;
* `Tiles.cover`, `Tiles.disjoint` — what they cover, wherever they begin.
-/
import KleidiCV.Lib.Partition

/-- The ranges of a list, from `a` to `b`. -/
def Tiles : ℕ → List (ℕ × ℕ) → ℕ → Prop
  | a, [], b => a = b
  | a, r :: l, b => r.1 = a ∧ a < r.2 ∧ Tiles r.2 l b

namespace Tiles

variable {a b c : ℕ} {l l' : List (ℕ × ℕ)}

theorem nil (a : ℕ) : Tiles a [] a := rfl

theorem append (h : Tiles a l b) (h' : Tiles b l' c) : Tiles a (l ++ l') c := by
  induction l generalizing a with
  | nil =>
    obtain rfl : a = b := h
    exact h'
  | cons r l ih =>
    obtain ⟨hfirst, hlt, hrest⟩ := h
    exact ⟨hfirst, hlt, ih hrest⟩

/-- One more range. -/
theorem concat (h : Tiles a l b) (hlt : b < c) : Tiles a (l ++ [(b, c)]) c :=
  h.append ⟨rfl, hlt, rfl⟩

theorem le (h : Tiles a l b) : a ≤ b := by
  induction l generalizing a with
  | nil => exact Nat.le_of_eq h
  | cons r l ih =>
    obtain ⟨-, hlt, hrest⟩ := h
    exact hlt.le.trans (ih hrest)

theorem bounds (h : Tiles a l b) : ∀ r ∈ l, a ≤ r.1 ∧ r.1 < r.2 ∧ r.2 ≤ b := by
  induction l generalizing a with
  | nil => exact fun r hr => absurd hr List.not_mem_nil
  | cons q l ih =>
    obtain ⟨hfirst, hlt, hrest⟩ := h
    intro r hr
    rcases List.mem_cons.mp hr with rfl | hr
    · exact ⟨hfirst.ge, by omega, hrest.le⟩
    · have := ih hrest r hr
      exact ⟨by omega, this.2⟩

theorem cover (h : Tiles a l b) {i : ℕ} (h1 : a ≤ i) (h2 : i < b) : ∃ r ∈ l, r.1 ≤ i ∧ i < r.2 := by
  induction l generalizing a with
  | nil =>
    obtain rfl : a = b := h
    omega
  | cons r l ih =>
    obtain ⟨hfirst, hlt, hrest⟩ := h
    rcases Nat.lt_or_ge i r.2 with hi | hi
    · exact ⟨r, List.mem_cons_self, by omega, hi⟩
    · obtain ⟨q, hq, hmem⟩ := ih hrest hi
      exact ⟨q, List.mem_cons_of_mem r hq, hmem⟩

theorem disjoint (h : Tiles a l b) :
    l.Pairwise fun r q => ∀ i, ¬((r.1 ≤ i ∧ i < r.2) ∧ q.1 ≤ i ∧ i < q.2) := by
  induction l generalizing a with
  | nil => exact List.Pairwise.nil
  | cons r l ih =>
    obtain ⟨-, -, hrest⟩ := h
    refine List.Pairwise.cons (fun q hq i hi => ?_) (ih hrest)
    have := hrest.bounds q hq
    omega

/-- Ranges from 0 on. -/
theorem isPartition (h : Tiles 0 l b) : IsPartition b l where
  bounds r hr := ⟨(h.bounds r hr).2.1.le, (h.bounds r hr).2.2⟩
  disjoint := h.disjoint
  cover _ hi := h.cover (Nat.zero_le _) hi

end Tiles
