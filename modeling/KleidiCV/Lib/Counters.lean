/-
Arrays of counters that count the elements of multisets.

One array holds the histograms of a family of multisets: counter `idx q b` is
the number of elements of `col q` whose key is `b`.  Incrementing and
decrementing one counter adds and removes one element.  Counters have a width;
the operations fail where a counter would leave it.

* `Counts idx Q B key a col` — the array `a` counts the multisets `col q`, for
  `q` in `Q`, by the keys in `B`;
* `Counts.increment_ends`, `Counts.decrement_ends` — an element comes, an element goes;
* `Lanes p v s` — a vector of counters, lane `l` for the elements with `p l`;
* `Lanes.vadd_ends`, `Lanes.vsub_ends` — sums and differences of multisets.
-/
import KleidiCV.Lib.Ends

/-- `a[i]++` on counters below `limit`. -/
def increment (limit : ℕ) (a : ℕ → ℕ) (i : ℕ) : Option (ℕ → ℕ) :=
  if a i + 1 < limit then some (Function.update a i (a i + 1)) else none

/-- `a[i]--`. -/
def decrement (a : ℕ → ℕ) (i : ℕ) : Option (ℕ → ℕ) :=
  if 0 < a i then some (Function.update a i (a i - 1)) else none

/-- The sum of two vectors of `n` lanes below `limit`. -/
def vadd (limit n : ℕ) (v w : ℕ → ℕ) : Option (ℕ → ℕ) :=
  if ∀ l < n, v l + w l < limit then some fun l => v l + w l else none

/-- The difference of two vectors of `n` lanes. -/
def vsub (n : ℕ) (v w : ℕ → ℕ) : Option (ℕ → ℕ) :=
  if ∀ l < n, w l ≤ v l then some fun l => v l - w l else none

section

variable {κ β α : Type*} [DecidableEq β]

/-- The counters of `a` at `idx q b` count the elements of `col q` with key `b`. -/
def Counts (idx : κ → β → ℕ) (Q : Set κ) (B : Set β) (key : α → β) (a : ℕ → ℕ)
    (col : κ → Multiset α) : Prop :=
  ∀ q ∈ Q, ∀ b ∈ B, a (idx q b) = (col q).countP fun x => key x = b

namespace Counts

variable {idx : κ → β → ℕ} {Q : Set κ} {B : Set β} {key : α → β} {a : ℕ → ℕ}
  {col col' : κ → Multiset α} {limit : ℕ} {q : κ} {x : α}

theorem congr (h : Counts idx Q B key a col) (hcol : ∀ q ∈ Q, col q = col' q) :
    Counts idx Q B key a col' := fun q hq b hb => hcol q hq ▸ h q hq b hb

/-- No two counters are the same. -/
def Distinct (idx : κ → β → ℕ) (Q : Set κ) (B : Set β) : Prop :=
  ∀ q ∈ Q, ∀ b ∈ B, ∀ q' ∈ Q, ∀ b' ∈ B, idx q b = idx q' b' → q = q' ∧ b = b'

/-- Counters in blocks of `n`: a position names its block and its place there. -/
theorem eq_of_mul_add_eq {n i j i' j' : ℕ} (hj : j < n) (hj' : j' < n)
    (h : n * i + j = n * i' + j') : i = i' ∧ j = j' := by
  have hpos : 0 < n := Nat.zero_lt_of_lt hj
  have hdiv := congrArg (· / n) h
  simp only [Nat.mul_add_div hpos, Nat.div_eq_of_lt hj, Nat.div_eq_of_lt hj', Nat.add_zero] at hdiv
  subst hdiv
  exact ⟨rfl, Nat.add_left_cancel h⟩

theorem countP_add_singleton (s : Multiset α) (x : α) (b : β) :
    ((s + {x}).countP fun y => key y = b) =
      (s.countP fun y => key y = b) + if key x = b then 1 else 0 := by
  rw [Multiset.countP_add, ← Multiset.cons_zero, Multiset.countP_cons, Multiset.countP_zero,
    Nat.zero_add]

variable [DecidableEq κ]

/-- One counter changes by the count of `x` alone. -/
theorem update (hidx : Distinct idx Q B) (h : Counts idx Q B key a col) (hq : q ∈ Q)
    (hx : key x ∈ B) {t : Multiset α} {n : ℕ}
    (hsame : ∀ b, b ≠ key x → (t.countP fun y => key y = b) = (col q).countP fun y => key y = b)
    (hn : (t.countP fun y => key y = key x) = n) :
    Counts idx Q B key (Function.update a (idx q (key x)) n) (Function.update col q t) := by
  intro q' hq' b hb
  by_cases hsame' : q' = q
  · subst hsame'
    rw [Function.update_self]
    by_cases hkey : b = key x
    · rw [hkey, Function.update_self, hn]
    · rw [Function.update_of_ne fun heq => hkey (hidx q' hq' b hb q' hq (key x) hx heq).2,
        hsame b hkey]
      exact h q' hq' b hb
  · rw [Function.update_of_ne hsame',
      Function.update_of_ne fun heq => hsame' (hidx q' hq' b hb q hq (key x) hx heq).1]
    exact h q' hq' b hb

/-- An element comes. -/
theorem increment_ends (hidx : Distinct idx Q B) (h : Counts idx Q B key a col) (hq : q ∈ Q)
    (hx : key x ∈ B) (hlimit : Multiset.card (col q) + 1 < limit) :
    Ends (increment limit a (idx q (key x)))
      fun a' => Counts idx Q B key a' (Function.update col q (col q + {x})) := by
  have hcount := h q hq (key x) hx
  have hle := Multiset.countP_le_card (fun y => key y = key x) (col q)
  rw [increment, if_pos (by omega)]
  refine Ends.some (h.update hidx hq hx (fun b hb => ?_) ?_)
  · rw [countP_add_singleton, if_neg (Ne.symm hb), Nat.add_zero]
  · rw [countP_add_singleton, if_pos rfl, hcount]

/-- An element goes. -/
theorem decrement_ends (hidx : Distinct idx Q B) (h : Counts idx Q B key a col) (hq : q ∈ Q)
    (hx : key x ∈ B) {t : Multiset α} (ht : col q = t + {x}) :
    Ends (decrement a (idx q (key x)))
      fun a' => Counts idx Q B key a' (Function.update col q t) := by
  have hcount := h q hq (key x) hx
  rw [ht, countP_add_singleton, if_pos rfl] at hcount
  rw [decrement, if_pos (by omega)]
  refine Ends.some (h.update hidx hq hx (fun b hb => ?_) (by omega))
  rw [ht, countP_add_singleton, if_neg (Ne.symm hb), Nat.add_zero]

end Counts

end

section

variable {α : Type*} {p : ℕ → α → Prop} [∀ l, DecidablePred (p l)] {v w : ℕ → ℕ}
  {s t : Multiset α} {limit n : ℕ}

/-- Lane `l` of a vector of `n` lanes counts the elements with `p l`. -/
def Lanes (n : ℕ) (p : ℕ → α → Prop) [∀ l, DecidablePred (p l)] (v : ℕ → ℕ) (s : Multiset α) :
    Prop :=
  ∀ l < n, v l = s.countP (p l)

/-- The sum of two vectors, lane by lane. -/
theorem vadd_ends_lanewise {u : ℕ → ℕ} (h : ∀ l < n, v l + w l = u l) (hlimit : ∀ l < n, u l < limit) :
    Ends (vadd limit n v w) fun x => ∀ l < n, x l = u l := by
  rw [vadd, if_pos fun l hl => (h l hl).trans_lt (hlimit l hl)]
  exact Ends.some h

theorem Lanes.vadd_ends (hv : Lanes n p v s) (hw : Lanes n p w t)
    (hlimit : Multiset.card s + Multiset.card t < limit) :
    Ends (vadd limit n v w) fun u => Lanes n p u (s + t) := by
  refine vadd_ends_lanewise (fun l hl => ?_) fun l _ => ?_
  · rw [hv l hl, hw l hl, Multiset.countP_add]
  · have hle := Multiset.countP_le_card (p l) (s + t)
    rw [Multiset.card_add] at hle
    omega

theorem Lanes.vsub_ends (hv : Lanes n p v (s + t)) (hw : Lanes n p w t) :
    Ends (vsub n v w) fun u => Lanes n p u s := by
  have hcount : ∀ l < n, v l = s.countP (p l) + w l := fun l hl => by
    rw [hv l hl, hw l hl, Multiset.countP_add]
  rw [vsub, if_pos fun l hl => by rw [hcount l hl]; exact Nat.le_add_left _ _]
  refine Ends.some fun l hl => ?_
  rw [hcount l hl, Nat.add_sub_cancel]

theorem Lanes.zero : Lanes n p (fun _ => 0) (0 : Multiset α) := fun l _ =>
  (Multiset.countP_zero (p l)).symm

end
