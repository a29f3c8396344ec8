/-
A row of memory stored from its start on, piece by piece.

`RowStored L d n g r r'` says that `g 0`, ..., `g (n - 1)` were stored from address `d` on, each
once, and that loads were from `L` only.

* `RowStored.append` — the piece that follows;
* `RowStored.read` — what is not in the row stays as it was;
* `RowStored.forRange` — a loop of pieces of the same size.
-/
import KleidiCV.Lib.StoredRows

open Loop

/-- `n` addresses from `d` on were stored, with `g`, and loads were from `L`. -/
def RowStored {β : Type*} (L : Set ℕ) (d n : ℕ) (g : ℕ → β) (r r' : Tallied β) : Prop :=
  Stored (fun k => d + k) g L {k | k < n} r r'

/-- Ranges of `n` and `k` addresses have none in common. -/
def RangesApart (a n b k : ℕ) : Prop := ∀ i < n, ∀ j < k, a + i ≠ b + j

theorem RangesApart.part {a n b k i m j l : ℕ} (h : RangesApart a n b k) (hi : i + m ≤ n) (hj : j + l ≤ k) :
    RangesApart (a + i) m (b + j) l := by
  intro x hx y hy
  rw [Nat.add_assoc, Nat.add_assoc]
  exact h (i + x) (by omega) (j + y) (by omega)

theorem RangesApart.symm {a n b k : ℕ} (h : RangesApart a n b k) : RangesApart b k a n :=
  fun i hi j hj => (h j hj i hi).symm

namespace RowStored

variable {β : Type*} {L L' : Set ℕ} {d n k : ℕ} {g h : ℕ → β} {r r' r'' : Tallied β}

theorem empty (L : Set ℕ) (d : ℕ) (g : ℕ → β) (r : Tallied β) : RowStored L d 0 g r r :=
  (Stored.refl r).congr subset_rfl (Set.eq_empty_of_forall_notMem fun _ => Nat.not_lt_zero _).symm

theorem mono (hr : RowStored L d n g r r') (hL : L ⊆ L') : RowStored L' d n g r r' :=
  Stored.congr hr hL rfl

theorem congr (hr : RowStored L d n g r r') (hgh : ∀ j < n, g j = h j) :
    RowStored L d n h r r' :=
  Stored.congr_value hr hgh

theorem storeRange (L : Set ℕ) (d n : ℕ) (g : ℕ → β) (r : Tallied β) :
    RowStored L d n g r (r.storeRange d n g) := by
  refine ⟨?_, (Touched.storeRange r d n g).congr (Set.empty_subset L) (Set.ext fun a => ⟨?_, ?_⟩)⟩
  · rw [Tallied.storeRange_mem]
    exact overwrite_wrote (fun j hj => ⟨j, hj, rfl, rfl⟩) fun j hj => ⟨j, hj, rfl⟩
  · rintro ⟨h1, h2⟩
    obtain ⟨j, rfl⟩ := Nat.exists_eq_add_of_le h1
    exact ⟨j, Nat.lt_of_add_lt_add_left h2, rfl⟩
  · rintro ⟨j, hj, rfl⟩
    exact ⟨Nat.le_add_right d j, Nat.add_lt_add_left hj d⟩

/-- Loads before the stores. -/
theorem after_loads (hload : Touched L ∅ r r') (hr : RowStored L d n g r' r'') :
    RowStored L d n g r r'' :=
  (Stored.after_loads hload hr).congr (Set.union_self L).subset rfl

/-- A block is loaded, then stored. -/
theorem load_store (a m d n : ℕ) (g : ℕ → β) (r : Tallied β) (hL : Set.Ico a (a + m) ⊆ L) :
    RowStored L d n g r ((r.loadRange a m).storeRange d n g) :=
  after_loads ((Touched.loadRange r a m).congr hL rfl) (storeRange L d n g _)

/-- What is not in the row stays as it was. -/
theorem read (hr : RowStored L d n g r r') {a : ℕ} (ha : ∀ j < n, d + j ≠ a) :
    r'.mem a = r.mem a :=
  Stored.read hr ha

theorem read_apart (hr : RowStored L d n g r r') {a : ℕ} (ha : RangesApart a k d n) {j : ℕ}
    (hj : j < k) : r'.mem (a + j) = r.mem (a + j) :=
  hr.read fun i hi => (ha j hj i hi).symm

theorem value (hr : RowStored L d n g r r') {j : ℕ} (hj : j < n) : r'.mem (d + j) = g j :=
  hr.wrote.value j hj

/-- The same row leaves the same memory, stored as often. -/
theorem same (hr : RowStored L d n g r r') (hr' : RowStored L' d n g r r'') :
    r'.mem = r''.mem ∧ r'.stores = r''.stores := by
  refine ⟨hr.wrote.eq_of hr'.wrote, funext fun a => ?_⟩
  by_cases ha : a ∈ (fun k => d + k) '' {k | k < n}
  · rw [hr.touched.once a ha, hr'.touched.once a ha]
  · rw [hr.touched.stores a ha, hr'.touched.stores a ha]

/-- A piece of the row, by its places in the row. -/
theorem segment (hr : RowStored L (d + n) k (fun j => g (n + j)) r r') :
    Stored (fun j => d + j) g L {j | n ≤ j ∧ j < n + k} r r' := by
  refine Stored.reindex (fun j => j - n) hr (fun j hj => ?_) fun j hj => ?_
  · obtain ⟨h1, h2⟩ := hj
    refine ⟨show j - n < k by omega, show d + n + (j - n) = d + j by omega, ?_⟩
    show g (n + (j - n)) = g j
    rw [Nat.add_sub_cancel' h1]
  · have hj' : j < k := hj
    exact ⟨n + j, ⟨by omega, by omega⟩, Nat.add_sub_cancel_left n j⟩

/-- Places of a row are different addresses. -/
theorem row_injOn (d : ℕ) : Set.InjOn (fun j => d + j) Set.univ :=
  fun _ _ _ _ hab => Nat.add_left_cancel hab

/-- The piece that follows. -/
theorem append (hr : RowStored L d n g r r')
    (hr' : RowStored L (d + n) k (fun j => g (n + j)) r' r'') : RowStored L d (n + k) g r r'' := by
  refine (Stored.trans (row_injOn d) (Set.subset_univ _) (Set.subset_univ _) ?_ hr
    hr'.segment).congr subset_rfl ?_
  · exact Set.disjoint_left.mpr fun j hj hj' => (not_le.mpr (show j < n from hj)) hj'.1
  · ext j
    simp only [Set.mem_union, Set.mem_ofPred_eq]
    omega

/-- Three pieces, the one in the middle first. -/
theorem of_segments {l : ℕ} {r₁ r₂ r₃ : Tallied β}
    (hmiddle : RowStored L (d + n) k (fun j => g (n + j)) r r₁) (hleft : RowStored L d n g r₁ r₂)
    (hright : RowStored L (d + (n + k)) l (fun j => g (n + k + j)) r₂ r₃) :
    RowStored L d (n + k + l) g r r₃ := by
  have hboth : Stored (fun j => d + j) g L ({j | n ≤ j ∧ j < n + k} ∪ {j | j < n}) r r₂ :=
    Stored.trans (row_injOn d) (Set.subset_univ _) (Set.subset_univ _)
      (Set.disjoint_left.mpr fun j hj hj' => (not_le.mpr (show j < n from hj')) hj.1)
      hmiddle.segment hleft
  have hprefix : RowStored L d (n + k) g r r₂ := hboth.congr subset_rfl (by
    ext j
    simp only [Set.mem_union, Set.mem_ofPred_eq]
    omega)
  exact hprefix.append hright

/-- Pieces of the same size. -/
theorem forRange {p : ℕ} {body : ℕ → Tallied β → Tallied β}
    (hbody : ∀ i < n, ∀ r', RowStored L d (i * p) g r r' →
      RowStored L (d + i * p) p (fun j => g (i * p + j)) r' (body i r')) :
    RowStored L d (n * p) g r (Loop.forRange n body r) := by
  refine forRange_invariant (fun i => RowStored L d (i * p) g r) ?_ fun i hi r' hr => ?_
  · rw [Nat.zero_mul]
    exact empty L d g r
  · rw [Nat.succ_mul]
    exact hr.append (hbody i hi r' hr)

end RowStored
