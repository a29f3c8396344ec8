/-
Flood fills driven by a stack of cells to look at.

The cells to fill are the `passable` ones that a path of neighbours leads to
from a seed.  A fill takes a cell off the end of its work list and looks at the
neighbours of that cell one after the other; a neighbour that is passable and
not filled yet is filled and put on the list.

* `Filling` — what holds while the neighbours in `rest` of the cell `x` are
  still to be looked at;
* `Filling.start`, `Filling.take`, `Filling.fill`, `Filling.skip` — the
  steps of a fill keep it;
* `Filling.filled_iff` — once the list is empty, exactly the reached cells are
  filled, whatever order they were looked at in.
-/
import Mathlib.Tactic

namespace FloodFill

open Relation

variable {α : Type*} {neighbours : α → List α} {passable seeds filled : Set α}
  {work rest : List α} {x d : α}

/-- A path of neighbours through passable cells leads from a seed to `c`. -/
def Reached (neighbours : α → List α) (passable seeds : Set α) (c : α) : Prop :=
  ∃ s ∈ seeds, ReflTransGen (fun a b => b ∈ neighbours a ∧ b ∈ passable) s c

/-- The state of a fill that has the neighbours in `rest` of `x` still to look at. -/
structure Filling (neighbours : α → List α) (passable seeds filled : Set α) (work : List α)
    (x : α) (rest : List α) : Prop where
  seeded : seeds ⊆ filled
  reached : ∀ c ∈ filled, Reached neighbours passable seeds c
  listed : ∀ c ∈ work, c ∈ filled
  current : rest ≠ [] → x ∈ filled ∧ ∀ d ∈ rest, d ∈ neighbours x
  closed : ∀ c ∈ filled, c ∉ work → ∀ d ∈ neighbours c, d ∈ passable →
    d ∈ filled ∨ c = x ∧ d ∈ rest

namespace Filling

theorem start (hwork : ∀ c, c ∈ work ↔ c ∈ seeds) :
    Filling neighbours passable seeds seeds work x [] where
  seeded := Set.Subset.rfl
  reached := fun c hc => ⟨c, hc, .refl⟩
  listed := fun c hc => (hwork c).mp hc
  current := fun h => absurd rfl h
  closed := fun c hc hout => absurd ((hwork c).mpr hc) hout

/-- Taking `y` off the list makes its neighbours the ones to look at. -/
theorem take {y : α} (h : Filling neighbours passable seeds filled (work ++ [y]) x []) :
    Filling neighbours passable seeds filled work y (neighbours y) where
  seeded := h.seeded
  reached := h.reached
  listed := fun c hc => h.listed c (List.mem_append_left _ hc)
  current := fun _ => ⟨h.listed y (by simp), fun _ hd => hd⟩
  closed := by
    intro c hc hout d hd hp
    by_cases hcy : c = y
    · exact .inr ⟨hcy, hcy ▸ hd⟩
    · obtain hin | ⟨-, hnil⟩ := h.closed c hc (by simp [hout, hcy]) d hd hp
      · exact .inl hin
      · cases hnil

/-- The next neighbour is passable and not filled. -/
theorem fill (h : Filling neighbours passable seeds filled work x (d :: rest))
    (hp : d ∈ passable) :
    Filling neighbours passable seeds (insert d filled) (work ++ [d]) x rest where
  seeded := fun c hc => Set.mem_insert_of_mem _ (h.seeded hc)
  reached := by
    rintro c (rfl | hc)
    · obtain ⟨hx, hrest⟩ := h.current (by simp)
      obtain ⟨s, hs, hpath⟩ := h.reached x hx
      exact ⟨s, hs, hpath.tail ⟨hrest _ (by simp), hp⟩⟩
    · exact h.reached c hc
  listed := by
    intro c hc
    obtain hc | hc := List.mem_append.mp hc
    · exact Set.mem_insert_of_mem _ (h.listed c hc)
    · exact .inl (List.mem_singleton.mp hc)
  current := fun _ => by
    obtain ⟨hx, hrest⟩ := h.current (by simp)
    exact ⟨Set.mem_insert_of_mem _ hx, fun e he => hrest e (List.mem_cons_of_mem _ he)⟩
  closed := by
    intro c hc hout e he hpe
    obtain ⟨hwork, hcd⟩ : c ∉ work ∧ c ≠ d := by simpa using hout
    obtain hin | ⟨hcx, hrest⟩ := h.closed c (hc.resolve_left hcd) hwork e he hpe
    · exact .inl (Set.mem_insert_of_mem _ hin)
    · obtain rfl | hrest := List.mem_cons.mp hrest
      · exact .inl (Set.mem_insert _ _)
      · exact .inr ⟨hcx, hrest⟩

/-- The next neighbour is filled already, or not passable. -/
theorem skip (h : Filling neighbours passable seeds filled work x (d :: rest))
    (hskip : d ∈ passable → d ∈ filled) :
    Filling neighbours passable seeds filled work x rest where
  seeded := h.seeded
  reached := h.reached
  listed := h.listed
  current := fun _ => by
    obtain ⟨hx, hrest⟩ := h.current (by simp)
    exact ⟨hx, fun e he => hrest e (List.mem_cons_of_mem _ he)⟩
  closed := by
    intro c hc hout e he hpe
    obtain hin | ⟨hcx, hrest⟩ := h.closed c hc hout e he hpe
    · exact .inl hin
    · obtain rfl | hrest := List.mem_cons.mp hrest
      · exact .inl (hskip hpe)
      · exact .inr ⟨hcx, hrest⟩

/-- With an empty list, a cell is filled just when it is reached from a seed. -/
theorem filled_iff (h : Filling neighbours passable seeds filled [] x []) (c : α) :
    c ∈ filled ↔ Reached neighbours passable seeds c := by
  refine ⟨h.reached c, ?_⟩
  rintro ⟨s, hs, hpath⟩
  induction hpath with
  | refl => exact h.seeded hs
  | tail _ hstep ih =>
      obtain hin | ⟨-, hnil⟩ := h.closed _ ih (by simp) _ hstep.1 hstep.2
      · exact hin
      · cases hnil

end Filling

end FloodFill
