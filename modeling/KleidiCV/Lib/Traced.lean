/-
Exact computations that also note events.

A `Traced` value comes with the events noted on the way to it, and, like a `Tracked`
one, with a proposition that says that no step lost anything.

* `Traced.Ensures` — exact, with these events, and a property of the value;
* `Traced.Ensures.bind`, `Traced.Ensures.lift_bind` — one step after another.
-/
import KleidiCV.Lib.Tracked

/-- A value, that the computation of it was exact, and the events noted. -/
structure Traced (ε α : Type) where
  value : α
  exact : Prop
  trace : List ε

namespace Traced

variable {ε α β : Type} {S T : Set ε} {P : α → Prop} {Q : β → Prop}

instance : Monad (Traced ε) where
  pure a := ⟨a, True, []⟩
  bind x f := ⟨(f x.value).value, x.exact ∧ (f x.value).exact, x.trace ++ (f x.value).trace⟩

/-- A computation that notes nothing. -/
def lift (x : Tracked α) : Traced ε α := ⟨x.value, x.exact, []⟩

instance : MonadLift Tracked (Traced ε) := ⟨lift⟩

/-- A value, and events that come with it. -/
def note (events : List ε) (a : α) : Traced ε α := ⟨a, True, events⟩

/-- The computation is exact, its events are those of `T`, and the value has property
`P`. -/
def Ensures (x : Traced ε α) (T : Set ε) (P : α → Prop) : Prop :=
  x.exact ∧ (∀ e, e ∈ x.trace ↔ e ∈ T) ∧ P x.value

theorem Ensures.pure {a : α} (h : P a) : (Pure.pure a : Traced ε α).Ensures ∅ P :=
  ⟨trivial, fun _ => iff_of_false List.not_mem_nil (Set.notMem_empty _), h⟩

/-- One step after another. -/
theorem Ensures.bind {x : Traced ε α} {f : α → Traced ε β} (hx : x.Ensures S P)
    (hf : ∀ a, P a → (f a).Ensures T Q) : (x >>= f).Ensures (S ∪ T) Q := by
  obtain ⟨hexact, htrace, hvalue⟩ := hf _ hx.2.2
  refine ⟨⟨hx.1, hexact⟩, fun e => ?_, hvalue⟩
  show e ∈ x.trace ++ (f x.value).trace ↔ e ∈ S ∪ T
  rw [List.mem_append, Set.mem_union, hx.2.1, htrace]

/-- A step that notes nothing. -/
theorem Ensures.lift_bind {x : Tracked α} {f : α → Traced ε β} (hx : x.Ensures P)
    (hf : ∀ a, P a → (f a).Ensures T Q) : ((lift x : Traced ε α) >>= f).Ensures T Q := by
  obtain ⟨hexact, htrace, hvalue⟩ := hf _ hx.2
  exact ⟨⟨hx.1, hexact⟩, htrace, hvalue⟩

theorem Ensures.lift {x : Tracked α} (hx : x.Ensures P) : (Traced.lift x : Traced ε α).Ensures ∅ P :=
  ⟨hx.1, fun _ => iff_of_false List.not_mem_nil (Set.notMem_empty _), hx.2⟩

/-- The last step of a computation whose events are known. -/
theorem Ensures.bind_pure {x : Traced ε α} {f : α → β} (hx : x.Ensures T P)
    (hf : ∀ a, P a → Q (f a)) : (x >>= fun a => Pure.pure (f a)).Ensures T Q := by
  have h := hx.bind fun a ha => Ensures.pure (hf a ha)
  rwa [Set.union_empty] at h

theorem Ensures.congr {x : Traced ε α} (hx : x.Ensures S P) (h : S = T) : x.Ensures T P := h ▸ hx

theorem Ensures.imp {x : Traced ε α} {Q : α → Prop} (hx : x.Ensures T P) (h : ∀ a, P a → Q a) :
    x.Ensures T Q :=
  ⟨hx.1, hx.2.1, h _ hx.2.2⟩

end Traced
