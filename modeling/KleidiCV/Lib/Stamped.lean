/-
Memory that remembers who filled it.

Every element of a `Stamped` memory carries the stamp of the last store to it, and none
if it is as allocated.  A load is exact if all elements it reads carry the stamp it asks
for, and a store if it stays within the allocation.

* `Stamped.Holds` — an element with a stamp and a property;
* `Stamped.load_ensures`, `Stamped.get_ensures` — loads of such elements;
* `Stamped.store_ensures`, `Stamped.set_ensures` — stores.
-/
import KleidiCV.Lib.Tracked

/-- Memory, and the stamp of each element. -/
structure Stamped (κ α : Type) where
  value : ℕ → α
  stamp : ℕ → Option κ

namespace Stamped

variable {κ α : Type} {n capacity ptr : ℕ} {k : κ} {b : Stamped κ α}

/-- Memory as allocated. -/
def fresh (m : ℕ → α) : Stamped κ α := ⟨m, fun _ => none⟩

/-- A load of `n` elements. -/
def load (b : Stamped κ α) (n : ℕ) (k : κ) (ptr : ℕ) : Tracked (Fin n → α) :=
  ⟨fun lane => b.value (ptr + lane), ∀ lane : Fin n, b.stamp (ptr + lane) = some k⟩

/-- A load of one element. -/
def get (b : Stamped κ α) (k : κ) (ptr : ℕ) : Tracked α := ⟨b.value ptr, b.stamp ptr = some k⟩

/-- A store of `n` elements. -/
def store (b : Stamped κ α) (capacity : ℕ) (k : κ) (ptr : ℕ) (v : Fin n → α) :
    Tracked (Stamped κ α) :=
  ⟨⟨fun a => if h : ptr ≤ a ∧ a < ptr + n then v ⟨a - ptr, by omega⟩ else b.value a,
    fun a => if ptr ≤ a ∧ a < ptr + n then some k else b.stamp a⟩, ptr + n ≤ capacity⟩

/-- A store of one element. -/
def set (b : Stamped κ α) (capacity : ℕ) (k : κ) (ptr : ℕ) (v : α) : Tracked (Stamped κ α) :=
  ⟨⟨Function.update b.value ptr v, Function.update b.stamp ptr (some k)⟩, ptr < capacity⟩

/-- An element with stamp `k` and property `P`. -/
def Holds (b : Stamped κ α) (k : κ) (a : ℕ) (P : α → Prop) : Prop :=
  b.stamp a = some k ∧ P (b.value a)

theorem Holds.imp {a : ℕ} {P Q : α → Prop} (h : b.Holds k a P) (hPQ : ∀ v, P v → Q v) :
    b.Holds k a Q :=
  ⟨h.1, hPQ _ h.2⟩

theorem load_ensures {P : Fin n → α → Prop} (h : ∀ lane : Fin n, b.Holds k (ptr + lane) (P lane)) :
    (b.load n k ptr).Ensures fun v => ∀ lane, P lane (v lane) :=
  ⟨fun lane => (h lane).1, fun lane => (h lane).2⟩

theorem get_ensures {P : α → Prop} (h : b.Holds k ptr P) : (b.get k ptr).Ensures P := h

/-- A store leaves the elements outside of it as they were. -/
theorem store_ensures {v : Fin n → α} {P : Fin n → α → Prop} (hcapacity : ptr + n ≤ capacity)
    (hv : ∀ lane, P lane (v lane)) :
    (b.store capacity k ptr v).Ensures fun b' =>
      (∀ lane : Fin n, b'.Holds k (ptr + lane) (P lane)) ∧
      ∀ a, ¬(ptr ≤ a ∧ a < ptr + n) → ∀ j Q, b.Holds j a Q → b'.Holds j a Q := by
  refine ⟨hcapacity, fun lane => ?_, fun a ha j Q h => ?_⟩
  · have hin : ptr ≤ ptr + lane.val ∧ ptr + lane.val < ptr + n := ⟨by omega, by omega⟩
    have hlane : (⟨ptr + lane.val - ptr, by omega⟩ : Fin n) = lane := Fin.ext (by simp)
    refine ⟨if_pos hin, ?_⟩
    show P lane (dite _ _ _)
    rw [dif_pos hin, hlane]
    exact hv lane
  · refine ⟨(if_neg ha).trans h.1, ?_⟩
    show Q (dite _ _ _)
    rw [dif_neg ha]
    exact h.2

theorem set_ensures {v : α} {P : α → Prop} (hcapacity : ptr < capacity) (hv : P v) :
    (b.set capacity k ptr v).Ensures fun b' =>
      b'.Holds k ptr P ∧ ∀ a, a ≠ ptr → ∀ j Q, b.Holds j a Q → b'.Holds j a Q := by
  refine ⟨hcapacity, ⟨Function.update_self .., ?_⟩, fun a ha j Q h => ⟨?_, ?_⟩⟩
  · show P (Function.update b.value ptr v ptr)
    rwa [Function.update_self]
  · exact (Function.update_of_ne ha _ _).trans h.1
  · show Q (Function.update b.value ptr v a)
    rw [Function.update_of_ne ha]
    exact h.2

end Stamped
