/-
The first place where a function on a set is smallest.

`FirstMin f S p` says that `p` is the least element of `S` among those where
`f` is minimal on `S`.  A search that keeps the earlier of two equal values
computes it piece by piece:

* `FirstMin.union` — more elements that do not beat `p`;
* `FirstMin.unique` — it is determined by `f` and `S`.
-/
import Mathlib.Tactic

/-- `p` is the first point of `S` at which `f` is smallest. -/
structure FirstMin {ι α : Type*} [LinearOrder ι] [LinearOrder α] (f : ι → α) (S : Set ι) (p : ι) :
    Prop where
  mem : p ∈ S
  le : ∀ k ∈ S, f p ≤ f k
  first : ∀ k ∈ S, f k = f p → p ≤ k

namespace FirstMin

variable {ι α : Type*} [LinearOrder ι] [LinearOrder α] {f : ι → α} {S T : Set ι} {p q : ι}

/-- Elements that are worse, or equal and later, change nothing. -/
theorem union (h : FirstMin f S p) (hT : ∀ k ∈ T, f p < f k ∨ f p = f k ∧ p ≤ k) :
    FirstMin f (S ∪ T) p := by
  refine ⟨.inl h.mem, fun k hk => ?_, fun k hk heq => ?_⟩
  · rcases hk with hk | hk
    · exact h.le k hk
    · rcases hT k hk with hlt | ⟨heq, -⟩
      · exact hlt.le
      · exact heq.le
  · rcases hk with hk | hk
    · exact h.first k hk heq
    · rcases hT k hk with hlt | ⟨-, hle⟩
      · exact absurd heq hlt.ne'
      · exact hle

/-- Of the first minima of two sets, the better or earlier one is that of the
union. -/
theorem union_of_firstMin (h : FirstMin f S p) (hT : FirstMin f T q)
    (hpq : f p < f q ∨ f p = f q ∧ p ≤ q) : FirstMin f (S ∪ T) p := by
  refine h.union fun k hk => ?_
  rcases hpq with hlt | ⟨heq, hle⟩
  · exact .inl (hlt.trans_le (hT.le k hk))
  · rcases (hT.le k hk).lt_or_eq with hlt | hk'
    · exact .inl (heq ▸ hlt)
    · exact .inr ⟨heq.trans hk', hle.trans (hT.first k hk hk'.symm)⟩

/-- Comparing through a strictly monotone function changes nothing. -/
theorem of_strictMono {β : Type*} [LinearOrder β] {φ : α → β} (hφ : StrictMono φ)
    (h : FirstMin (fun k => φ (f k)) S p) : FirstMin f S p :=
  ⟨h.mem, fun k hk => hφ.le_iff_le.mp (h.le k hk), fun k hk heq => h.first k hk (congrArg φ heq)⟩

/-- The points may be renamed along an order-preserving enumeration. -/
theorem map {κ : Type*} [LinearOrder κ] {g : κ → ι} {R : Set κ} {r : κ} (hg : StrictMono g)
    (hS : g '' R = S) (h : FirstMin (fun k => f (g k)) R r) : FirstMin f S (g r) := by
  subst hS
  refine ⟨⟨r, h.mem, rfl⟩, ?_, ?_⟩
  · rintro _ ⟨k, hk, rfl⟩
    exact h.le k hk
  · rintro _ ⟨k, hk, rfl⟩ heq
    exact hg.monotone (h.first k hk heq)

theorem congr (h : FirstMin f S p) (hST : S = T) : FirstMin f T p := hST ▸ h

theorem unique (h : FirstMin f S p) (h' : FirstMin f S q) : p = q := by
  have heq : f p = f q := le_antisymm (h.le q h'.mem) (h'.le p h.mem)
  exact le_antisymm (h.first q h'.mem heq.symm) (h'.first p h.mem heq)

/-- A point before the first minimum is worse. -/
theorem lt_of_lt (h : FirstMin f S p) {k : ι} (hk : k ∈ S) (hkp : k < p) : f p < f k :=
  lt_of_le_of_ne (h.le k hk) fun heq => (h.first k hk heq.symm).not_gt hkp

/-- A finite non-empty set has a first minimum. -/
theorem exists_of_finite (hS : S.Finite) (hne : S.Nonempty) : ∃ p, FirstMin f S p := by
  obtain ⟨a, ha, hmin⟩ := Set.exists_min_image S f hS hne
  obtain ⟨p, hp, hfirst⟩ := Set.exists_min_image {k ∈ S | f k = f a} id
    (hS.subset fun _ h => h.1) ⟨a, ha, rfl⟩
  refine ⟨p, hp.1, fun k hk => ?_, fun k hk heq => hfirst k ⟨hk, heq.trans hp.2⟩⟩
  rw [hp.2]
  exact hmin k hk

end FirstMin
