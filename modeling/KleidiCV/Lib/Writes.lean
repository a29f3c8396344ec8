/-
What a piece of code writes, and that it writes nothing else.

Positions `p` (pixels, say) live at addresses `addr p`.  `Wrote addr v S m m'`
says that the memory `m'` holds `v p` at every position of `S`, and is `m` at
every other address.  The values are fixed beforehand, so pieces compose
whether or not they overlap.

* `Wrote.refl`, `Wrote.trans`, `Wrote.forRange` — nothing, one piece after
  another, a loop of pieces;
* `Wrote.foldl` — pieces in the order of a list;
* `Wrote.reindex` — the same bytes under other positions;
* `Wrote.eq_of` — positions and values determine the result;
* `UnchangedOutside` — the frame alone, where the values do not matter.
-/
import KleidiCV.Lib.Loop

open Loop

/-- From `m` to `m'`, exactly the positions of `S` were written, with `v`. -/
structure Wrote {P A β : Type*} (addr : P → A) (v : P → β) (S : Set P) (m m' : A → β) :
    Prop where
  value : ∀ p ∈ S, m' (addr p) = v p
  frame : ∀ a, (∀ p ∈ S, addr p ≠ a) → m' a = m a

namespace Wrote

variable {P A β : Type*} {addr : P → A} {v : P → β} {S T U : Set P} {m m' m'' : A → β}

theorem refl (m : A → β) : Wrote addr v ∅ m m :=
  ⟨fun _ hp => hp.elim, fun _ _ => rfl⟩

theorem congr (h : Wrote addr v S m m') (hST : S = T) : Wrote addr v T m m' := hST ▸ h

/-- No position, nothing written. -/
theorem refl_of_empty (m : A → β) (hS : ∀ p, p ∉ S) : Wrote addr v S m m :=
  ⟨fun p hp => absurd hp (hS p), fun _ _ => rfl⟩

/-- Values may be named differently on the positions written. -/
theorem congr_value {w : P → β} (h : Wrote addr v S m m') (hvw : ∀ p ∈ S, v p = w p) :
    Wrote addr w S m m' :=
  ⟨fun p hp => (h.value p hp).trans (hvw p hp), h.frame⟩

/-- A single position. -/
theorem update [DecidableEq A] (m : A → β) {p : P} {a : A} (ha : addr p = a) :
    Wrote addr v {p} m (Function.update m a (v p)) := by
  subst ha
  refine ⟨fun q hq => ?_, fun a ha => ?_⟩
  · rw [Set.mem_singleton_iff.mp hq, Function.update_self]
  · exact Function.update_of_ne (ha p rfl).symm _ _

/-- A piece that replaces part of what an earlier one wrote. -/
theorem overwritten (hinj : Set.InjOn addr U) (hS : S ⊆ U) (hT : T ⊆ U) {w : P → β}
    (h : Wrote addr w S m m') (h' : Wrote addr v T m' m'') (hvw : ∀ p ∈ S, p ∉ T → w p = v p) :
    Wrote addr v (S ∪ T) m m'' := by
  refine ⟨fun p hp => ?_, fun a ha => ?_⟩
  · by_cases hpT : p ∈ T
    · exact h'.value p hpT
    · have hpS : p ∈ S := hp.resolve_right hpT
      rw [h'.frame (addr p) fun q hq heq => hpT (hinj (hT hq) (hS hpS) heq ▸ hq)]
      exact (h.value p hpS).trans (hvw p hpS hpT)
  · rw [h'.frame a fun p hp => ha p (.inr hp), h.frame a fun p hp => ha p (.inl hp)]

/-- One piece after another, at addresses that name their positions. -/
theorem trans (hinj : Set.InjOn addr U) (hS : S ⊆ U) (hT : T ⊆ U) (h : Wrote addr v S m m')
    (h' : Wrote addr v T m' m'') : Wrote addr v (S ∪ T) m m'' :=
  h.overwritten hinj hS hT h' fun _ _ _ => rfl

/-- A loop of pieces; each may assume what the ones before it did. -/
theorem forRange (hinj : Set.InjOn addr U) {n : ℕ} {f : ℕ → (A → β) → A → β}
    (S : ℕ → Set P) (hS : ∀ i < n, S i ⊆ U) (m : A → β)
    (hbody : ∀ i < n, ∀ m', Wrote addr v (⋃ j < i, S j) m m' →
      Wrote addr v (S i) m' (f i m')) :
    Wrote addr v (⋃ j < n, S j) m (Loop.forRange n f m) := by
  refine forRange_invariant (fun i => Wrote addr v (⋃ j < i, S j) m) ?_ fun i hi m' h => ?_
  · exact (refl m).congr (by simp)
  · have hstep := h.trans hinj (Set.iUnion₂_subset fun j hj => hS j (hj.trans hi)) (hS i hi)
      (hbody i hi m' h)
    refine hstep.congr ?_
    ext p
    simp only [Set.mem_union, Set.mem_iUnion, exists_prop, Nat.lt_succ_iff_lt_or_eq]
    constructor
    · rintro (⟨j, hj, hp⟩ | hp)
      · exact ⟨j, .inl hj, hp⟩
      · exact ⟨i, .inr rfl, hp⟩
    · rintro ⟨j, hj | rfl, hp⟩
      · exact .inl ⟨j, hj, hp⟩
      · exact .inr hp

/-- Pieces in the order of a list; each may assume what the ones before it
did. -/
theorem foldl (hinj : Set.InjOn addr U) {ι : Type*} {body : (A → β) → ι → A → β} {S : ι → Set P}
    {l : List ι} (hS : ∀ i ∈ l, S i ⊆ U) (m : A → β)
    (hbody : ∀ done i rest, l = done ++ i :: rest → ∀ m',
      Wrote addr v (⋃ j ∈ done, S j) m m' → Wrote addr v (S i) m' (body m' i)) :
    Wrote addr v (⋃ j ∈ l, S j) m (l.foldl body m) := by
  induction l using List.reverseRecOn with
  | nil => exact (refl m).congr (by simp)
  | append_singleton l i ih =>
    have hl : ∀ j ∈ l, S j ⊆ U := fun j hj => hS j (List.mem_append_left _ hj)
    have h := ih hl fun done j rest heq m' hm =>
      hbody done j (rest ++ [i]) (by simp [heq]) m' hm
    rw [List.foldl_concat]
    refine (h.trans hinj (Set.iUnion₂_subset hl) (hS i (by simp)) (hbody l i [] rfl _ h)).congr ?_
    ext p
    simp only [Set.mem_union, Set.mem_iUnion, List.mem_append, List.mem_singleton, exists_prop]
    constructor
    · rintro (⟨j, hj, hp⟩ | hp)
      · exact ⟨j, .inl hj, hp⟩
      · exact ⟨i, .inr rfl, hp⟩
    · rintro ⟨j, hj | rfl, hp⟩
      · exact .inl ⟨j, hj, hp⟩
      · exact .inr hp

/-- The same bytes under other positions. -/
theorem reindex {Q : Type*} {addr' : Q → A} {v' : Q → β} {T : Set Q} (e : P → Q)
    (h : Wrote addr' v' T m m') (he : ∀ p ∈ S, e p ∈ T ∧ addr' (e p) = addr p ∧ v' (e p) = v p)
    (hsurj : ∀ q ∈ T, ∃ p ∈ S, e p = q) : Wrote addr v S m m' := by
  refine ⟨fun p hp => ?_, fun a ha => h.frame a fun q hq => ?_⟩
  · obtain ⟨hT, haddr, hv⟩ := he p hp
    rw [← haddr, h.value _ hT, hv]
  · obtain ⟨p, hp, rfl⟩ := hsurj q hq
    rw [(he p hp).2.1]
    exact ha p hp

/-- A piece that is written on a condition only. -/
theorem ite {c : Prop} [Decidable c] (h : c → Wrote addr v S m m') :
    Wrote addr v {p | c ∧ p ∈ S} m (if c then m' else m) := by
  split
  · rename_i hc
    exact (h hc).congr (Set.ext fun p => ⟨fun hp => ⟨hc, hp⟩, fun hp => hp.2⟩)
  · rename_i hc
    exact refl_of_empty m fun p hp => hc hp.1

/-- Memory read at an address outside the positions written. -/
theorem read (h : Wrote addr v S m m') {a : A} (ha : ∀ p ∈ S, addr p ≠ a) : m' a = m a :=
  h.frame a ha

/-- Positions and values determine the result. -/
theorem eq_of (h : Wrote addr v S m m') (h' : Wrote addr v S m m'') : m' = m'' := by
  funext a
  by_cases ha : ∃ p ∈ S, addr p = a
  · obtain ⟨p, hp, rfl⟩ := ha
    rw [h.value p hp, h'.value p hp]
  · push Not at ha
    rw [h.frame a ha, h'.frame a ha]

end Wrote

/-- No address outside `R` changes. -/
def UnchangedOutside {A β : Type*} (R : Set A) (m m' : A → β) : Prop := ∀ a, a ∉ R → m' a = m a

namespace UnchangedOutside

variable {A β : Type*} {R : Set A} {m m' m'' : A → β}

theorem refl (m : A → β) : UnchangedOutside R m m := fun _ _ => rfl

theorem trans (h : UnchangedOutside R m m') (h' : UnchangedOutside R m' m'') :
    UnchangedOutside R m m'' := fun a ha => (h' a ha).trans (h a ha)

theorem ite {c : Prop} [Decidable c] (h : c → UnchangedOutside R m m') :
    UnchangedOutside R m (if c then m' else m) := by
  split
  · exact h ‹c›
  · exact refl m

/-- A loop whose iterations keep to `R`. -/
theorem forRange {n : ℕ} {f : ℕ → (A → β) → A → β}
    (hf : ∀ i < n, ∀ m, UnchangedOutside R m (f i m)) (m : A → β) :
    UnchangedOutside R m (Loop.forRange n f m) :=
  forRange_invariant (fun _ m' => UnchangedOutside R m m') (refl m) fun i hi m' h =>
    h.trans (hf i hi m')

theorem forFrom {start n : ℕ} {f : ℕ → (A → β) → A → β}
    (hf : ∀ i, start ≤ i → i < start + n → ∀ m, UnchangedOutside R m (f i m)) (m : A → β) :
    UnchangedOutside R m (Loop.forFrom start n f m) :=
  forRange (fun i hi => hf (start + i) (by omega) (by omega)) m

theorem of_wrote {P : Type*} {addr : P → A} {v : P → β} {S : Set P} (h : Wrote addr v S m m')
    (hS : ∀ p ∈ S, addr p ∈ R) : UnchangedOutside R m m' := fun a ha =>
  h.frame a fun p hp heq => ha (heq ▸ hS p hp)

end UnchangedOutside
