/-
Rows of memory loaded and stored, every store counted.

`Stored` joins the two views of a run: what it writes (`Wrote`) and how often it stores
(`Touched`).  A block is a number of rows, a fixed stride apart.

* `Stored.trans`, `Stored.reindex` — pieces that do not meet, and other names for positions;
* `loadRows`, `storeRows` — a block loaded, and a block stored row by row;
* `storeRows_stored` — a block whose rows do not overlap;
* `Confined` — scratch memory: accesses stay below a capacity.
-/
import KleidiCV.Lib.Tally

open Loop

/-- From `r` to `r'`, the positions of `S` were stored once each, with `v`, and no other
address; loads were from `L` only. -/
structure Stored {P β : Type*} (addr : P → ℕ) (v : P → β) (L : Set ℕ) (S : Set P)
    (r r' : Tallied β) : Prop where
  wrote : Wrote addr v S r.mem r'.mem
  touched : Touched L (addr '' S) r r'

namespace Stored

variable {P Q β : Type*} {addr : P → ℕ} {v w : P → β} {L L' : Set ℕ} {S T U : Set P}
  {r r' r'' : Tallied β}

theorem refl (r : Tallied β) : Stored addr v L ∅ r r :=
  ⟨Wrote.refl r.mem, (Touched.refl r).congr (Set.empty_subset L) (Set.image_empty addr).symm⟩

theorem congr (h : Stored addr v L S r r') (hL : L ⊆ L') (hST : S = T) :
    Stored addr v L' T r r' := by
  subst hST
  exact ⟨h.wrote, h.touched.congr hL rfl⟩

theorem congr_value (h : Stored addr v L S r r') (hvw : ∀ p ∈ S, v p = w p) :
    Stored addr w L S r r' :=
  ⟨h.wrote.congr_value hvw, h.touched⟩

/-- Loads before the stores. -/
theorem after_loads (hload : Touched L ∅ r r') (h : Stored addr v L' S r' r'') :
    Stored addr v (L ∪ L') S r r'' := by
  refine ⟨?_, ?_⟩
  · rw [← hload.mem_eq]
    exact h.wrote
  · exact (hload.trans h.touched (Set.empty_disjoint _)).congr subset_rfl (Set.empty_union _)

/-- One piece after another. -/
theorem trans (hinj : Set.InjOn addr U) (hS : S ⊆ U) (hT : T ⊆ U) (hdisjoint : Disjoint S T)
    (h : Stored addr v L S r r') (h' : Stored addr v L T r' r'') :
    Stored addr v L (S ∪ T) r r'' := by
  refine ⟨h.wrote.trans hinj hS hT h'.wrote, ?_⟩
  refine (h.touched.trans h'.touched ?_).congr (Set.union_self L).subset
    (Set.image_union addr S T).symm
  refine Set.disjoint_left.mpr ?_
  rintro _ ⟨p, hp, rfl⟩ ⟨q, hq, heq⟩
  obtain rfl : q = p := hinj (hT hq) (hS hp) heq
  exact Set.disjoint_left.mp hdisjoint hp hq

/-- The same bytes under other positions. -/
theorem reindex {addr' : Q → ℕ} {v' : Q → β} {T : Set Q} (e : P → Q)
    (h : Stored addr' v' L T r r') (he : ∀ p ∈ S, e p ∈ T ∧ addr' (e p) = addr p ∧ v' (e p) = v p)
    (hsurj : ∀ q ∈ T, ∃ p ∈ S, e p = q) : Stored addr v L S r r' := by
  refine ⟨h.wrote.reindex e he hsurj, h.touched.congr subset_rfl (Set.ext fun a => ⟨?_, ?_⟩)⟩
  · rintro ⟨q, hq, rfl⟩
    obtain ⟨p, hp, rfl⟩ := hsurj q hq
    exact ⟨p, hp, (he p hp).2.1.symm⟩
  · rintro ⟨p, hp, rfl⟩
    exact ⟨e p, (he p hp).1, (he p hp).2.1⟩

/-- Pieces that do not meet, in a loop. -/
theorem forRange (hinj : Set.InjOn addr U) {n : ℕ} {f : ℕ → Tallied β → Tallied β}
    {S : ℕ → Set P} (hS : ∀ i < n, S i ⊆ U) (hdisjoint : ∀ i < n, ∀ j < i, Disjoint (S j) (S i))
    (hbody : ∀ i < n, ∀ r', Stored addr v L (⋃ j < i, S j) r r' →
      Stored addr v L (S i) r' (f i r')) :
    Stored addr v L (⋃ j < n, S j) r (Loop.forRange n f r) := by
  refine forRange_invariant (fun i => Stored addr v L (⋃ j < i, S j) r) ?_ fun i hi r' h => ?_
  · exact (refl r).congr subset_rfl (by simp)
  · have hbefore : ⋃ j < i, S j ⊆ U := Set.iUnion₂_subset fun j hj => hS j (hj.trans hi)
    have hpiece : Disjoint (⋃ j < i, S j) (S i) :=
      Set.disjoint_iUnion₂_left.mpr fun j hj => hdisjoint i hi j hj
    refine (h.trans hinj hbefore (hS i hi) hpiece (hbody i hi r' h)).congr subset_rfl ?_
    ext p
    simp only [Set.mem_union, Set.mem_iUnion, exists_prop, Nat.lt_succ_iff_lt_or_eq]
    constructor
    · rintro (⟨j, hj, hp⟩ | hp)
      · exact ⟨j, .inl hj, hp⟩
      · exact ⟨i, .inr rfl, hp⟩
    · rintro ⟨j, hj | rfl, hp⟩
      · exact .inl ⟨j, hj, hp⟩
      · exact .inr hp

/-- Pieces that do not meet, in the order of a list. -/
theorem foldl (hinj : Set.InjOn addr U) {ι : Type*} {body : Tallied β → ι → Tallied β}
    {S : ι → Set P} {l : List ι} (hS : ∀ i ∈ l, S i ⊆ U)
    (hdisjoint : l.Pairwise fun i j => Disjoint (S i) (S j))
    (hbody : ∀ i ∈ l, ∀ (done : List ι) r', Stored addr v L (⋃ j ∈ done, S j) r r' →
      (∀ j ∈ done, j ∈ l) → Stored addr v L (S i) r' (body r' i)) :
    Stored addr v L (⋃ j ∈ l, S j) r (l.foldl body r) := by
  induction l using List.reverseRecOn with
  | nil => exact (refl r).congr subset_rfl (by simp)
  | append_singleton l i ih =>
    have hl : ∀ j ∈ l, S j ⊆ U := fun j hj => hS j (List.mem_append_left _ hj)
    obtain ⟨hpairs, -, hlast⟩ := List.pairwise_append.mp hdisjoint
    have h := ih hl hpairs fun j hj done r' hr hdone =>
      hbody j (List.mem_append_left _ hj) done r' hr fun k hk => List.mem_append_left _ (hdone k hk)
    have hpiece := hbody i (by simp) l _ h fun j hj => List.mem_append_left _ hj
    rw [List.foldl_concat]
    refine (h.trans hinj (Set.iUnion₂_subset hl) (hS i (by simp)) ?_ hpiece).congr subset_rfl ?_
    · exact Set.disjoint_iUnion₂_left.mpr fun j hj => hlast j hj i (by simp)
    · ext p
      simp only [Set.mem_union, Set.mem_iUnion, List.mem_append, List.mem_singleton, exists_prop]
      constructor
      · rintro (⟨j, hj, hp⟩ | hp)
        · exact ⟨j, .inl hj, hp⟩
        · exact ⟨i, .inr rfl, hp⟩
      · rintro ⟨j, hj | rfl, hp⟩
        · exact .inl ⟨j, hj, hp⟩
        · exact .inr hp

/-- Memory read at an address that is not stored. -/
theorem read (h : Stored addr v L S r r') {a : ℕ} (ha : ∀ p ∈ S, addr p ≠ a) :
    r'.mem a = r.mem a :=
  h.wrote.read ha

end Stored

/-! ### Blocks -/

/-- Place `q.2` of row `q.1` of a block. -/
def blockAt (base stride : ℕ) (q : ℕ × ℕ) : ℕ := base + q.1 * stride + q.2

/-- The places of a block of `rows` rows of `n`. -/
def blockPart (n rows : ℕ) : Set (ℕ × ℕ) := {q | q.1 < rows ∧ q.2 < n}

section

variable {β : Type*} {base stride n rows : ℕ} {g h : ℕ → ℕ → β} {r r' r'' : Tallied β}

/-- A block is loaded, row `index i` in iteration `i`. -/
def loadRows (base stride : ℕ) (index : ℕ → ℕ) (n rows : ℕ) (r : Tallied β) : Tallied β :=
  forRange rows (fun i r => r.loadRange (base + index i * stride) n) r

/-- A block is stored, `g i` in row `i`. -/
def storeRows (base stride n rows : ℕ) (g : ℕ → ℕ → β) (r : Tallied β) : Tallied β :=
  forRange rows (fun i r => r.storeRange (base + i * stride) n (g i)) r

/-- One more row. -/
theorem storeRows_succ (i : ℕ) (g : ℕ → ℕ → β) (r : Tallied β) :
    storeRows base stride n (i + 1) g r =
      (storeRows base stride n i g r).storeRange (base + i * stride) n (g i) := rfl

theorem storeRows_congr (hgh : ∀ i < rows, ∀ j < n, g i j = h i j) (r : Tallied β) :
    storeRows base stride n rows g r = storeRows base stride n rows h r :=
  forRange_congr (fun i hi _ => Tallied.storeRange_congr (hgh i hi)) r

/-- Rows that fit in their stride do not overlap. -/
theorem blockAt_injOn (base rows : ℕ) (hn : n ≤ stride) :
    Set.InjOn (blockAt base stride) (blockPart n rows) := by
  rintro ⟨i, j⟩ ⟨-, hj⟩ ⟨i', j'⟩ ⟨-, hj'⟩ heq
  simp only [blockAt] at heq hj hj'
  have hrow : i = i' := by
    rcases Nat.lt_trichotomy i i' with hlt | hsame | hlt
    · have := Nat.mul_le_mul_right stride (Nat.succ_le_of_lt hlt)
      rw [Nat.succ_mul] at this
      omega
    · exact hsame
    · have := Nat.mul_le_mul_right stride (Nat.succ_le_of_lt hlt)
      rw [Nat.succ_mul] at this
      omega
  subst hrow
  exact Prod.ext rfl (by simp only; omega)

/-- Loads leave what memory holds. -/
theorem loadRows_mem (index : ℕ → ℕ) (r : Tallied β) :
    (loadRows base stride index n rows r).mem = r.mem :=
  forRange_invariant (fun _ (r' : Tallied β) => r'.mem = r.mem) rfl fun _ _ _ h => h

theorem loadRows_touched {index : ℕ → ℕ} (hindex : ∀ i < rows, index i < rows) (r : Tallied β) :
    Touched (blockAt base stride '' blockPart n rows) ∅ r (loadRows base stride index n rows r) := by
  refine forRange_invariant (fun _ r' => Touched (blockAt base stride '' blockPart n rows) ∅ r r')
    ((Touched.refl r).congr (Set.empty_subset _) rfl) fun i hi r' h => ?_
  refine (h.trans (Touched.loadRange r' _ n) (Set.empty_disjoint _)).congr ?_ (Set.union_self ∅)
  refine Set.union_subset subset_rfl ?_
  rintro a ⟨h1, h2⟩
  refine ⟨(index i, a - (base + index i * stride)), ⟨hindex i hi, ?_⟩, ?_⟩
  · show a - (base + index i * stride) < n
    omega
  · simp only [blockAt]
    omega

/-- A block whose rows do not overlap is stored once. -/
theorem storeRows_stored (hinj : Set.InjOn (blockAt base stride) (blockPart n rows))
    (g : ℕ → ℕ → β) (r : Tallied β) :
    Stored (blockAt base stride) (fun q => g q.1 q.2) ∅ (blockPart n rows) r
      (storeRows base stride n rows g r) := by
  have hsub : ∀ {i}, i ≤ rows → blockPart n i ⊆ blockPart n rows := fun hi _ hq =>
    ⟨hq.1.trans_le hi, hq.2⟩
  -- Row `i` follows the block of the rows before it.
  have key : ∀ i ≤ rows, Stored (blockAt base stride) (fun q => g q.1 q.2) ∅ (blockPart n i) r
      (storeRows base stride n i g r) := by
    intro i
    induction i with
    | zero =>
      intro _
      refine (Stored.refl r).congr subset_rfl (Set.eq_empty_of_forall_notMem ?_).symm
      exact fun q hq => Nat.not_lt_zero _ hq.1
    | succ i ih =>
      intro hi
      have hrow : Stored (blockAt base stride) (fun q : ℕ × ℕ => g q.1 q.2) ∅
          {q | q.1 = i ∧ q.2 < n} (storeRows base stride n i g r)
          (storeRows base stride n (i + 1) g r) := by
        refine ⟨?_, (Touched.storeRange _ _ _ (g i)).congr subset_rfl (Set.ext fun a => ⟨?_, ?_⟩)⟩
        · show Wrote _ _ _ _ (Tallied.storeRange _ _ _ _).mem
          rw [Tallied.storeRange_mem]
          refine overwrite_wrote ?_ fun j hj => ⟨(i, j), ⟨rfl, hj⟩, rfl⟩
          rintro ⟨_, j⟩ ⟨rfl, hj⟩
          exact ⟨j, hj, rfl, rfl⟩
        · rintro ⟨h1, h2⟩
          obtain ⟨j, rfl⟩ := Nat.exists_eq_add_of_le h1
          exact ⟨(i, j), ⟨rfl, show j < n by omega⟩, rfl⟩
        · rintro ⟨⟨_, j⟩, ⟨rfl, hj⟩, rfl⟩
          have hj' : j < n := hj
          exact ⟨Nat.le_add_right _ _, Nat.add_lt_add_left hj' _⟩
      refine ((ih (by omega)).trans hinj (hsub (by omega)) ?_ ?_ hrow).congr subset_rfl ?_
      · rintro q ⟨hq, hj⟩
        exact ⟨by omega, hj⟩
      · exact Set.disjoint_left.mpr fun q hq hq' => hq.1.ne hq'.1
      · ext q
        constructor
        · rintro (⟨hq, hj⟩ | ⟨hq, hj⟩)
          · exact ⟨by omega, hj⟩
          · exact ⟨by omega, hj⟩
        · rintro ⟨hq, hj⟩
          rcases Nat.lt_succ_iff_lt_or_eq.mp hq with hlt | heq
          · exact .inl ⟨hlt, hj⟩
          · exact .inr ⟨heq, hj⟩
  exact key rows le_rfl

/-- What a block that was stored holds. -/
theorem storeRows_mem (hn : n ≤ stride) (g : ℕ → ℕ → β) (r : Tallied β) {i j : ℕ} (hi : i < rows)
    (hj : j < n) : (storeRows base stride n rows g r).mem (base + i * stride + j) = g i j :=
  (storeRows_stored (blockAt_injOn base rows hn) g r).wrote.value (i, j) ⟨hi, hj⟩

/-! ### Scratch memory -/

/-- From `r` to `r'`, no address from `capacity` on was accessed. -/
def Confined (capacity : ℕ) (r r' : Tallied β) : Prop :=
  ∀ a, capacity ≤ a → r'.mem a = r.mem a ∧ r'.loads a = r.loads a ∧ r'.stores a = r.stores a

theorem Confined.refl (capacity : ℕ) (r : Tallied β) : Confined capacity r r :=
  fun _ _ => ⟨rfl, rfl, rfl⟩

theorem Confined.trans {c : ℕ} (h : Confined c r r') (h' : Confined c r' r'') :
    Confined c r r'' := fun a ha =>
  ⟨(h' a ha).1.trans (h a ha).1, (h' a ha).2.1.trans (h a ha).2.1,
    (h' a ha).2.2.trans (h a ha).2.2⟩

theorem Confined.mono {c c' : ℕ} (h : Confined c r r') (hc : c ≤ c') : Confined c' r r' :=
  fun a ha => h a (hc.trans ha)

theorem Confined.of_touched {c : ℕ} {L S : Set ℕ} (h : Touched L S r r') (hL : ∀ a ∈ L, a < c)
    (hS : ∀ a ∈ S, a < c) : Confined c r r' := fun a ha =>
  ⟨h.frame a fun hmem => (hS a hmem).not_ge ha, h.loads a fun hmem => (hL a hmem).not_ge ha,
    h.stores a fun hmem => (hS a hmem).not_ge ha⟩

/-- A block at the start of scratch memory. -/
theorem blockAt_lt {capacity : ℕ} (hn : n ≤ stride) (hrows : rows * stride ≤ capacity) :
    ∀ a ∈ blockAt 0 stride '' blockPart n rows, a < capacity := by
  rintro _ ⟨⟨i, j⟩, ⟨hi, hj⟩, rfl⟩
  have hle := Nat.mul_le_mul_right stride (Nat.succ_le_of_lt hi)
  rw [Nat.succ_mul] at hle
  simp only [blockAt] at hj hle ⊢
  omega

theorem loadRows_confined {capacity : ℕ} {index : ℕ → ℕ} (hindex : ∀ i < rows, index i < rows)
    (hn : n ≤ stride) (hrows : rows * stride ≤ capacity) (r : Tallied β) :
    Confined capacity r (loadRows 0 stride index n rows r) :=
  .of_touched (loadRows_touched hindex r) (blockAt_lt hn hrows) fun _ ha => ha.elim

theorem storeRows_confined {capacity : ℕ} (hn : n ≤ stride) (hrows : rows * stride ≤ capacity)
    (g : ℕ → ℕ → β) (r : Tallied β) : Confined capacity r (storeRows 0 stride n rows g r) :=
  .of_touched (storeRows_stored (blockAt_injOn 0 rows hn) g r).touched (fun _ ha => ha.elim)
    (blockAt_lt hn hrows)

end
