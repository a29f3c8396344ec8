/-
What a piece of code writes, and that it writes it once.

`WroteOnce addr v S r r'` says of memory that counts its accesses what `Wrote` says of memory,
and that each position of `S` was stored once, no other.  Pieces compose when no position is in
two of them.

* `WroteOnce.trans` — one piece after another;
* `WroteOnce.storeRange`, `WroteOnce.append` — consecutive addresses;
* `WroteOnce.partition` — items cut into ranges, and the ranges run in any order.
-/
import KleidiCV.Lib.Tally

/-- From `r` to `r'`, exactly the positions of `S` were stored, each once, with `v`. -/
structure WroteOnce {P β : Type*} (addr : P → ℕ) (v : P → β) (S : Set P) (r r' : Tallied β) :
    Prop where
  wrote : Wrote addr v S r.mem r'.mem
  once : ∀ p ∈ S, r'.stores (addr p) = r.stores (addr p) + 1
  stores : ∀ a, (∀ p ∈ S, addr p ≠ a) → r'.stores a = r.stores a

namespace WroteOnce

variable {P β : Type*} {addr : P → ℕ} {v : P → β} {S T U : Set P} {r r' r'' : Tallied β}

/-- No position, nothing written. -/
theorem refl_of_empty (r : Tallied β) (hS : ∀ p, p ∉ S) : WroteOnce addr v S r r :=
  ⟨Wrote.refl_of_empty _ hS, fun p hp => absurd hp (hS p), fun _ _ => rfl⟩

theorem congr (h : WroteOnce addr v S r r') (hST : S = T) : WroteOnce addr v T r r' := hST ▸ h

/-- One piece after another, without a common position. -/
theorem trans (hinj : Set.InjOn addr U) (hS : S ⊆ U) (hT : T ⊆ U) (hdisjoint : Disjoint S T)
    (h : WroteOnce addr v S r r') (h' : WroteOnce addr v T r' r'') :
    WroteOnce addr v (S ∪ T) r r'' := by
  have hne : ∀ p ∈ S, ∀ q ∈ T, addr q ≠ addr p := fun p hp q hq heq =>
    Set.disjoint_left.mp hdisjoint (hinj (hT hq) (hS hp) heq ▸ hp) hq
  refine ⟨h.wrote.trans hinj hS hT h'.wrote, fun p hp => ?_, fun a ha => ?_⟩
  · rcases hp with hp | hp
    · rw [h'.stores _ fun q hq => hne p hp q hq, h.once p hp]
    · rw [h'.once p hp, h.stores _ fun q hq => (hne q hq p hp).symm]
  · rw [h'.stores a fun p hp => ha p (.inr hp), h.stores a fun p hp => ha p (.inl hp)]

/-- The same stores under other positions. -/
theorem reindex {Q : Type*} {addr' : Q → ℕ} {v' : Q → β} {T : Set Q} (e : P → Q)
    (h : WroteOnce addr' v' T r r') (he : ∀ p ∈ S, e p ∈ T ∧ addr' (e p) = addr p ∧ v' (e p) = v p)
    (hsurj : ∀ q ∈ T, ∃ p ∈ S, e p = q) : WroteOnce addr v S r r' := by
  refine ⟨h.wrote.reindex e he hsurj, fun p hp => ?_, fun a ha => h.stores a fun q hq => ?_⟩
  · obtain ⟨hT, haddr, -⟩ := he p hp
    rw [← haddr, h.once _ hT]
  · obtain ⟨p, hp, rfl⟩ := hsurj q hq
    rw [(he p hp).2.1]
    exact ha p hp

/-- Consecutive addresses. -/
theorem storeRange {base a n : ℕ} {v g : ℕ → β} (hg : ∀ j < n, g j = v (a + j)) (r : Tallied β) :
    WroteOnce (base + ·) v {i | a ≤ i ∧ i < a + n} r (r.storeRange (base + a) n g) := by
  refine ⟨?_, fun i hi => ?_, fun x hx => ?_⟩
  · rw [Tallied.storeRange_mem]
    exact overwrite_wrote_row hg
  · have hmem : base + i ∈ Set.Ico (base + a) (base + a + n) := by
      have := hi.1
      have := hi.2
      exact ⟨by omega, by omega⟩
    exact (Touched.storeRange r (base + a) n g).once _ hmem
  · refine (Touched.storeRange r (base + a) n g).stores x fun hmem => ?_
    obtain ⟨h1, h2⟩ := hmem
    refine hx (x - base) ⟨by omega, by omega⟩ ?_
    show base + (x - base) = x
    omega

/-- Two ranges, one after the other. -/
theorem append {base a b c : ℕ} {v : ℕ → β}
    (h : WroteOnce (base + ·) v {e | a ≤ e ∧ e < b} r r')
    (h' : WroteOnce (base + ·) v {e | b ≤ e ∧ e < c} r' r'') (hab : a ≤ b) (hbc : b ≤ c) :
    WroteOnce (base + ·) v {e | a ≤ e ∧ e < c} r r'' := by
  have hinj : Set.InjOn (base + ·) (Set.univ : Set ℕ) := fun x _ y _ hxy => Nat.add_left_cancel hxy
  refine (h.trans hinj (Set.subset_univ _) (Set.subset_univ _) ?_ h').congr ?_
  · refine Set.disjoint_left.mpr fun e he he' => ?_
    have := he.2
    have := he'.1
    omega
  · ext e
    simp only [Set.mem_union, Set.mem_ofPred_eq]
    omega

/-- Items cut into ranges, and the ranges run in any order. -/
theorem partition (hinj : Set.InjOn addr U) {n : ℕ} (key : P → ℕ) {l : List (ℕ × ℕ)}
    {f : ℕ × ℕ → Tallied β → Tallied β} (hl : IsPartition n l)
    (hf : ∀ s ∈ l, ∀ r, WroteOnce addr v {p | s.1 ≤ key p ∧ key p < s.2 ∧ p ∈ U} r (f s r))
    (r : Tallied β) :
    WroteOnce addr v {p | key p < n ∧ p ∈ U} r (l.foldl (fun r s => f s r) r) := by
  -- Induction over the ranges done so far.
  have hdone : ∀ done rest, done ++ rest = l →
      WroteOnce addr v {p | (∃ s ∈ done, s.1 ≤ key p ∧ key p < s.2) ∧ p ∈ U} r
        (done.foldl (fun r s => f s r) r) := by
    intro done
    induction done using List.reverseRecOn with
    | nil =>
      intro rest _
      refine refl_of_empty r ?_
      rintro p ⟨⟨s, hs, -⟩, -⟩
      exact absurd hs List.not_mem_nil
    | append_singleton done s ih =>
      intro rest heq
      have heq' : l = done ++ s :: rest := by rw [← heq, List.append_assoc]; rfl
      rw [List.foldl_concat]
      refine ((ih (s :: rest) heq'.symm).trans hinj (fun p hp => hp.2) (fun p hp => hp.2.2) ?_
        (hf s (by simp [heq']) _)).congr ?_
      · refine Set.disjoint_left.mpr ?_
        rintro p ⟨⟨q, hq, hp⟩, -⟩ ⟨h1, h2, -⟩
        exact hl.not_mem_done heq' h1 h2 q hq hp
      · ext p
        simp only [Set.mem_union, Set.mem_ofPred_eq, List.mem_append, List.mem_singleton]
        constructor
        · rintro (⟨⟨q, hq, hp⟩, hU⟩ | ⟨h1, h2, hU⟩)
          · exact ⟨⟨q, .inl hq, hp⟩, hU⟩
          · exact ⟨⟨s, .inr rfl, h1, h2⟩, hU⟩
        · rintro ⟨⟨q, hq | rfl, hp⟩, hU⟩
          · exact .inl ⟨⟨q, hq, hp⟩, hU⟩
          · exact .inr ⟨hp.1, hp.2, hU⟩
  refine (hdone l [] (List.append_nil l)).congr ?_
  ext p
  constructor
  · rintro ⟨⟨s, hs, h1, h2⟩, hU⟩
    exact ⟨h2.trans_le (hl.bounds s hs).2, hU⟩
  · rintro ⟨hp, hU⟩
    obtain ⟨s, hs, h⟩ := hl.cover _ hp
    exact ⟨⟨s, hs, h⟩, hU⟩

end WroteOnce
