/-
Computations that keep track of whether they were exact.

A `Tracked` value comes with a proposition that says that no step on the way to
it lost anything.  Steps are written with `do`; `Tracked.Ensures` is proved step
by step.

* `Tracked.Ensures.bind` — one step after another;
* `Tracked.word_ensures`, `Tracked.lanes_ensures` — numbers that fit their words;
* `Tracked.sword_ensures`, `Tracked.slanes_ensures` — the same for signed numbers;
* `Tracked.foldl_ensures` — steps in the order of a list.
-/
import Mathlib.Tactic

/-- A value, and that the computation of it was exact. -/
structure Tracked (α : Type) where
  value : α
  exact : Prop

namespace Tracked

variable {α β : Type} {n w : ℕ}

instance : Monad Tracked where
  pure a := ⟨a, True⟩
  bind x f := ⟨(f x.value).value, x.exact ∧ (f x.value).exact⟩

/-- A number in a word of `w` bits, whose upper bits may be lost. -/
def word (w x : ℕ) : Tracked (BitVec w) := ⟨BitVec.ofNat w x, x < 2 ^ w⟩

/-- A number in a word for each lane. -/
def lanes (w : ℕ) (x : Fin n → ℕ) : Tracked (Fin n → BitVec w) :=
  ⟨fun lane => BitVec.ofNat w (x lane), ∀ lane, x lane < 2 ^ w⟩

/-- A signed number in a word of `w` bits. -/
def sword (w : ℕ) (x : ℤ) : Tracked (BitVec w) :=
  ⟨BitVec.ofInt w x, -2 ^ (w - 1) ≤ x ∧ x < 2 ^ (w - 1)⟩

/-- A signed number in a word for each lane. -/
def slanes (w : ℕ) (x : Fin n → ℤ) : Tracked (Fin n → BitVec w) :=
  ⟨fun lane => BitVec.ofInt w (x lane), ∀ lane, -2 ^ (w - 1) ≤ x lane ∧ x lane < 2 ^ (w - 1)⟩

/-- The computation is exact and the value has property `P`. -/
def Ensures (x : Tracked α) (P : α → Prop) : Prop := x.exact ∧ P x.value

theorem Ensures.pure {P : α → Prop} {a : α} (h : P a) : (Pure.pure a : Tracked α).Ensures P :=
  ⟨trivial, h⟩

/-- One step after another. -/
theorem Ensures.bind {x : Tracked α} {f : α → Tracked β} {P : α → Prop} {Q : β → Prop}
    (hx : x.Ensures P) (hf : ∀ a, P a → (f a).Ensures Q) : (x >>= f).Ensures Q :=
  ⟨⟨hx.1, (hf _ hx.2).1⟩, (hf _ hx.2).2⟩

theorem Ensures.imp {x : Tracked α} {P Q : α → Prop} (hx : x.Ensures P) (h : ∀ a, P a → Q a) :
    x.Ensures Q :=
  ⟨hx.1, h _ hx.2⟩

theorem word_ensures {x : ℕ} (h : x < 2 ^ w) : (word w x).Ensures fun v => v.toNat = x :=
  ⟨h, (BitVec.toNat_ofNat _ _).trans (Nat.mod_eq_of_lt h)⟩

theorem lanes_ensures {x : Fin n → ℕ} (h : ∀ lane, x lane < 2 ^ w) :
    (lanes w x).Ensures fun v => ∀ lane, (v lane).toNat = x lane :=
  ⟨h, fun lane => (BitVec.toNat_ofNat _ _).trans (Nat.mod_eq_of_lt (h lane))⟩

theorem sword_ensures {x : ℤ} (hw : 0 < w) (hlow : -2 ^ (w - 1) ≤ x) (hhigh : x < 2 ^ (w - 1)) :
    (sword w x).Ensures fun v => v.toInt = x :=
  ⟨⟨hlow, hhigh⟩, BitVec.toInt_ofInt_eq_self hw hlow hhigh⟩

theorem slanes_ensures {x : Fin n → ℤ} (hw : 0 < w)
    (h : ∀ lane, -2 ^ (w - 1) ≤ x lane ∧ x lane < 2 ^ (w - 1)) :
    (slanes w x).Ensures fun v => ∀ lane, (v lane).toInt = x lane :=
  ⟨h, fun lane => BitVec.toInt_ofInt_eq_self hw (h lane).1 (h lane).2⟩

/-- A computation that is exact is its value. -/
theorem Ensures.eq_pure {x : Tracked α} {a : α} (hx : x.Ensures (· = a)) : x = Pure.pure a := by
  obtain ⟨value, exact⟩ := x
  obtain ⟨hexact, rfl⟩ := hx
  rw [show exact = True from eq_true hexact]
  rfl

/-- Steps in the order of a list, each exact on what is. -/
theorem foldl_ensures {ι : Type} {f : Tracked α → ι → Tracked α} {l : List ι}
    (hf : ∀ i ∈ l, ∀ a, (f (Pure.pure a) i).exact) (a : α) :
    (l.foldl f (Pure.pure a)).Ensures (· = l.foldl (fun a i => (f (Pure.pure a) i).value) a) := by
  induction l generalizing a with
  | nil => exact .pure rfl
  | cons i l ih =>
    have hstep : f (Pure.pure a) i = Pure.pure (f (Pure.pure a) i).value :=
      Ensures.eq_pure ⟨hf i List.mem_cons_self a, rfl⟩
    rw [List.foldl_cons, hstep]
    exact ih (fun j hj => hf j (List.mem_cons_of_mem i hj)) _

end Tracked
