/-
Work items cut into ranges, and the ranges run in any order.

* `IsPartition` — ranges that cover the first `n` items without overlap, every item
  in one of them (`IsPartition.countP_eq_one`);
* `Wrote.partition` — items whose pieces only rely on what no other item
  writes give the same memory for every partition and order.
-/
import KleidiCV.Lib.Writes

open Loop

/-- The half-open ranges of `l` cover `0`, ..., `n - 1`, each item once. -/
structure IsPartition (n : ℕ) (l : List (ℕ × ℕ)) : Prop where
  bounds : ∀ r ∈ l, r.1 ≤ r.2 ∧ r.2 ≤ n
  disjoint : l.Pairwise fun a b => ∀ i, ¬((a.1 ≤ i ∧ i < a.2) ∧ b.1 ≤ i ∧ i < b.2)
  cover : ∀ i < n, ∃ r ∈ l, r.1 ≤ i ∧ i < r.2

/-- One range with all items. -/
theorem IsPartition.whole (n : ℕ) : IsPartition n [(0, n)] :=
  ⟨by simp, by simp, fun i hi => ⟨(0, n), by simp, Nat.zero_le i, hi⟩⟩

/-- The items before and in a range do not meet again. -/
theorem IsPartition.not_mem_done {n : ℕ} {l done rest : List (ℕ × ℕ)} {r : ℕ × ℕ}
    (hl : IsPartition n l) (heq : l = done ++ r :: rest) {i : ℕ} (h1 : r.1 ≤ i) (h2 : i < r.2) :
    ∀ q ∈ done, ¬(q.1 ≤ i ∧ i < q.2) := by
  intro q hq hcon
  have hpw := hl.disjoint
  rw [heq] at hpw
  exact (List.pairwise_append.mp hpw).2.2 q hq r (by simp) i ⟨hcon, h1, h2⟩

namespace Wrote

variable {P A β : Type*} {addr : P → A} {v : P → β} {U : Set P} {m : A → β}

/-- The pieces of the items in a set. -/
def pieces (S : ℕ → Set P) (D : Set ℕ) : Set P := {p | ∃ t ∈ D, p ∈ S t}

theorem pieces_subset {S : ℕ → Set P} {D : Set ℕ} (h : ∀ t ∈ D, S t ⊆ U) : pieces S D ⊆ U :=
  fun _ ⟨t, ht, hp⟩ => h t ht hp

theorem pieces_union (S : ℕ → Set P) (D E : Set ℕ) :
    pieces S D ∪ pieces S E = pieces S (D ∪ E) := by
  ext p
  simp only [pieces, Set.mem_union, Set.mem_ofPred_eq, or_and_right, exists_or]

/-- The items of one range, in order, after those in `D`. -/
theorem items (hinj : Set.InjOn addr U) {n lo k : ℕ} {f : ℕ → (A → β) → A → β} {S : ℕ → Set P}
    {D : Set ℕ} {m' : A → β} (hS : ∀ t < n, S t ⊆ U) (hD : ∀ u ∈ D, u < n) (hk : lo + k ≤ n)
    (hnew : ∀ t, lo ≤ t → t < lo + k → t ∉ D)
    (hitem : ∀ t < n, ∀ D : Set ℕ, t ∉ D → (∀ u ∈ D, u < n) → ∀ m',
      Wrote addr v (pieces S D) m m' → Wrote addr v (S t) m' (f t m'))
    (h : Wrote addr v (pieces S D) m m') :
    Wrote addr v (pieces S (D ∪ {t | lo ≤ t ∧ t < lo + k})) m (forFrom lo k f m') := by
  refine forFrom_invariant
    (fun i m'' => Wrote addr v (pieces S (D ∪ {t | lo ≤ t ∧ t < i})) m m'') ?_ ?_
  · refine h.congr (congrArg _ ?_)
    ext t
    simp only [Set.mem_union, Set.mem_ofPred_eq]
    exact ⟨.inl, fun h => h.resolve_right (by omega)⟩
  · intro i h1 h2 m'' hm
    have hlt : ∀ u ∈ D ∪ {t | lo ≤ t ∧ t < i}, u < n := by
      rintro u (hu | hu)
      · exact hD u hu
      · exact hu.2.trans (by omega)
    have hi : i ∉ D ∪ {t | lo ≤ t ∧ t < i} := by
      rintro (hu | hu)
      · exact hnew i h1 h2 hu
      · exact lt_irrefl i hu.2
    have hstep := hm.trans hinj (pieces_subset fun t ht => hS t (hlt t ht)) (hS i (by omega))
      (hitem i (by omega) _ hi hlt m'' hm)
    refine hstep.congr ?_
    have hone : S i = pieces S {i} := by
      ext p
      simp [pieces]
    rw [hone, pieces_union]
    congr 1
    ext t
    simp only [Set.mem_union, Set.mem_ofPred_eq, Set.mem_singleton_iff, or_assoc]
    refine or_congr_right ?_
    omega

/-- Every partition of the items, in any order, writes the same. -/
theorem partition (hinj : Set.InjOn addr U) {n : ℕ} {f : ℕ → (A → β) → A → β} {S : ℕ → Set P}
    (hS : ∀ t < n, S t ⊆ U) {l : List (ℕ × ℕ)} (hl : IsPartition n l)
    (hitem : ∀ t < n, ∀ D : Set ℕ, t ∉ D → (∀ u ∈ D, u < n) → ∀ m',
      Wrote addr v (pieces S D) m m' → Wrote addr v (S t) m' (f t m')) :
    Wrote addr v (pieces S {t | t < n}) m
      (l.foldl (fun m r => forFrom r.1 (r.2 - r.1) f m) m) := by
  -- Induction over the ranges done so far.
  have key : ∀ done rest, done ++ rest = l → Wrote addr v
      (pieces S {t | ∃ r ∈ done, r.1 ≤ t ∧ t < r.2}) m
      (done.foldl (fun m r => forFrom r.1 (r.2 - r.1) f m) m) := by
    intro done
    induction done using List.reverseRecOn with
    | nil =>
      intro rest _
      refine (Wrote.refl m).congr ?_
      ext p
      simp [pieces]
    | append_singleton done r ih =>
      intro rest heq
      have heq' : l = done ++ r :: rest := by rw [← heq]; simp
      have hb : ∀ q ∈ done ++ [r], q.1 ≤ q.2 ∧ q.2 ≤ n := fun q hq =>
        hl.bounds q (heq ▸ List.mem_append_left _ hq)
      have hr := hb r (by simp)
      rw [List.foldl_concat]
      refine (items hinj hS ?_ (by omega) ?_ hitem (ih (r :: rest) heq'.symm)).congr ?_
      · rintro u ⟨q, hq, -, hu⟩
        exact hu.trans_le (hb q (by simp [hq])).2
      · rintro t h1 h2 ⟨q, hq, hmem⟩
        exact hl.not_mem_done heq' h1 (by omega) q hq hmem
      · congr 1
        ext t
        simp only [Set.mem_union, Set.mem_ofPred_eq, List.mem_append, List.mem_singleton, or_and_right,
          exists_or, exists_eq_left, Nat.add_sub_cancel' hr.1]
  refine (key l [] (List.append_nil l)).congr (congrArg _ ?_)
  ext t
  exact ⟨fun ⟨r, hr, _, h2⟩ => h2.trans_le (hl.bounds r hr).2, fun ht => hl.cover t ht⟩

/-- Positions that keep their value may be counted as written. -/
theorem extend {S T : Set P} {m' : A → β} (hinj : Set.InjOn addr T) (h : Wrote addr v S m m')
    (hST : S ⊆ T) (hkeep : ∀ p ∈ T, p ∉ S → v p = m (addr p)) : Wrote addr v T m m' := by
  refine ⟨fun p hp => ?_, fun a ha => h.frame a fun p hp => ha p (hST hp)⟩
  by_cases hpS : p ∈ S
  · exact h.value p hpS
  · rw [hkeep p hp hpS]
    exact h.read fun q hq heq => hpS (hinj (hST hq) hp heq ▸ hq)

end Wrote
