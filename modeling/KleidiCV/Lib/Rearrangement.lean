/-
Functions that move entries without looking at them.

A function from families of rows to families of rows is natural if it treats all types of
entries alike; then what it does to any family shows from what it does to the labels of the
places, which can be computed.

* `Natural.eq_of_label` — an entry of the result is the one whose label is found there.
-/
import Mathlib.Tactic

variable {ι κ : Type}

/-- A function on families of rows, for entries of any type; the entry it is given goes to the
places that no other entry goes to. -/
abbrev RowMap (ι κ : Type) := (α : Type) → α → (ι → κ → α) → ι → κ → α

/-- Functions that commute with maps of the entries. -/
def Natural (f : RowMap ι κ) : Prop :=
  ∀ (α β : Type) (g : α → β) (z : α) (v : ι → κ → α),
    f β (g z) (fun i k => g (v i k)) = fun i k => g (f α z v i k)

/-- The labels of the places. -/
def labels (i : ι) (k : κ) : Option (ι × κ) := some (i, k)

/-- The labels of a natural function decide where entries go. -/
theorem Natural.eq_of_label {f : RowMap ι κ} (hf : Natural f) {i i' : ι} {k k' : κ}
    (hlabel : f (Option (ι × κ)) none labels i k = labels i' k') (α : Type) (z : α)
    (v : ι → κ → α) : f α z v i k = v i' k' := by
  let g : Option (ι × κ) → α := fun label => label.elim z fun place => v place.1 place.2
  calc f α z v i k
      = g (f (Option (ι × κ)) none labels i k) :=
        congrFun (congrFun (hf (Option (ι × κ)) α g none labels) i) k
    _ = g (labels i' k') := by rw [hlabel]
    _ = v i' k' := rfl
