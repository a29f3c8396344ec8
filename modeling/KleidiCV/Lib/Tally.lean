/-
Memory that counts its accesses.

A `Tallied` memory knows how often each address has been loaded and stored, so that a
statement about a run can say where it reads and that it writes every place once.  The
counts depend on the addresses only, never on what is stored.

* `loadRange`, `storeRange` — an access to consecutive addresses;
* `Touched` — loads from one set only, each address of another stored once, no other changed;
* `Touched.partition` — items with sets of their own, in any partition and order.
-/
import KleidiCV.Lib.Overwrite
import KleidiCV.Lib.Partition

open Loop

/-- Memory, with the number of loads and stores of each address. -/
structure Tallied (β : Type*) where
  mem : ℕ → β
  loads : ℕ → ℕ
  stores : ℕ → ℕ

namespace Tallied

variable {β : Type*} {r : Tallied β} {a n k : ℕ} {g h : ℕ → β}

/-- The addresses of `R` are loaded. -/
def load (r : Tallied β) (R : ℕ → Bool) : Tallied β :=
  { r with loads := fun a => r.loads a + (R a).toNat }

/-- The addresses of `R` are stored. -/
def store (r : Tallied β) (R : ℕ → Bool) (g : ℕ → β) : Tallied β :=
  { r with
    mem := fun a => if R a then g a else r.mem a
    stores := fun a => r.stores a + (R a).toNat }

/-- An address is one of `n` from `a` on. -/
def inRange (a n x : ℕ) : Bool := decide (a ≤ x ∧ x < a + n)

/-- `n` addresses from `a` on are loaded. -/
def loadRange (r : Tallied β) (a n : ℕ) : Tallied β := r.load (inRange a n)

/-- `g 0`, ..., `g (n - 1)` are stored from `a` on. -/
def storeRange (r : Tallied β) (a n : ℕ) (g : ℕ → β) : Tallied β :=
  r.store (inRange a n) fun x => g (x - a)

theorem inRange_of_mem {x : ℕ} (h : a ≤ x ∧ x < a + n) : inRange a n x = true := decide_eq_true h

theorem inRange_of_not_mem {x : ℕ} (h : ¬(a ≤ x ∧ x < a + n)) : inRange a n x = false :=
  decide_eq_false h

theorem inRange_append (a n k x : ℕ) :
    (inRange a n x).toNat + (inRange (a + n) k x).toNat = (inRange a (n + k) x).toNat := by
  by_cases h1 : a ≤ x ∧ x < a + n
  · rw [inRange_of_mem h1, inRange_of_mem (show a ≤ x ∧ x < a + (n + k) by omega),
      inRange_of_not_mem (show ¬(a + n ≤ x ∧ x < a + n + k) by omega)]
    rfl
  · by_cases h2 : a + n ≤ x ∧ x < a + n + k
    · rw [inRange_of_not_mem h1, inRange_of_mem h2,
        inRange_of_mem (show a ≤ x ∧ x < a + (n + k) by omega)]
      rfl
    · rw [inRange_of_not_mem h1, inRange_of_not_mem h2,
        inRange_of_not_mem (show ¬(a ≤ x ∧ x < a + (n + k)) by omega)]
      rfl

@[simp] theorem loadRange_mem : (r.loadRange a n).mem = r.mem := rfl

@[simp] theorem storeRange_mem : (r.storeRange a n g).mem = overwrite r.mem a n g := by
  funext x
  simp only [storeRange, store, overwrite, inRange, decide_eq_true_eq]

theorem ext_fields {r' : Tallied β} (hmem : r.mem = r'.mem) (hloads : r.loads = r'.loads)
    (hstores : r.stores = r'.stores) : r = r' := by
  obtain ⟨mem, loads, stores⟩ := r
  obtain ⟨mem', loads', stores'⟩ := r'
  obtain rfl : mem = mem' := hmem
  obtain rfl : loads = loads' := hloads
  obtain rfl : stores = stores' := hstores
  rfl

/-- Two ranges loaded, one after the other. -/
theorem loadRange_append : (r.loadRange a n).loadRange (a + n) k = r.loadRange a (n + k) := by
  refine ext_fields rfl (funext fun x => ?_) rfl
  show r.loads x + (inRange a n x).toNat + (inRange (a + n) k x).toNat = _
  rw [Nat.add_assoc, inRange_append]
  rfl

/-- Two ranges stored, one after the other. -/
theorem storeRange_append :
    (r.storeRange a n g).storeRange (a + n) k h =
      r.storeRange a (n + k) fun j => if j < n then g j else h (j - n) := by
  refine ext_fields ?_ rfl (funext fun x => ?_)
  · rw [storeRange_mem, storeRange_mem, storeRange_mem, overwrite_append]
  · show r.stores x + (inRange a n x).toNat + (inRange (a + n) k x).toNat = _
    rw [Nat.add_assoc, inRange_append]
    rfl

theorem storeRange_congr (hgh : ∀ j < n, g j = h j) : r.storeRange a n g = r.storeRange a n h := by
  refine ext_fields ?_ rfl rfl
  rw [storeRange_mem, storeRange_mem, overwrite_congr hgh]

/-- Loads come before or after a store, as long as their values do not matter. -/
theorem storeRange_loadRange {b : ℕ} :
    (r.storeRange a n g).loadRange b k = (r.loadRange b k).storeRange a n g := rfl

end Tallied

/-- From `r` to `r'`, loads were from `L` only, and each address of `S` was stored once, no
other. -/
structure Touched {β : Type*} (L S : Set ℕ) (r r' : Tallied β) : Prop where
  loads : ∀ a, a ∉ L → r'.loads a = r.loads a
  once : ∀ a ∈ S, r'.stores a = r.stores a + 1
  stores : ∀ a, a ∉ S → r'.stores a = r.stores a
  frame : ∀ a, a ∉ S → r'.mem a = r.mem a

namespace Touched

variable {β : Type*} {L L' S S' : Set ℕ} {r r' r'' : Tallied β}

theorem refl (r : Tallied β) : Touched ∅ ∅ r r :=
  ⟨fun _ _ => rfl, fun _ ha => ha.elim, fun _ _ => rfl, fun _ _ => rfl⟩

theorem congr (h : Touched L S r r') (hL : L ⊆ L') (hS : S = S') : Touched L' S' r r' := by
  subst hS
  exact ⟨fun a ha => h.loads a fun hmem => ha (hL hmem), h.once, h.stores, h.frame⟩

theorem trans (h : Touched L S r r') (h' : Touched L' S' r' r'') (hS : Disjoint S S') :
    Touched (L ∪ L') (S ∪ S') r r'' := by
  refine ⟨fun a ha => ?_, fun a ha => ?_, fun a ha => ?_, fun a ha => ?_⟩
  · rw [h'.loads a fun hmem => ha (.inr hmem), h.loads a fun hmem => ha (.inl hmem)]
  · rcases ha with ha | ha
    · rw [h'.stores a (Set.disjoint_left.mp hS ha), h.once a ha]
    · rw [h'.once a ha, h.stores a (Set.disjoint_right.mp hS ha)]
  · rw [h'.stores a fun hmem => ha (.inr hmem), h.stores a fun hmem => ha (.inl hmem)]
  · rw [h'.frame a fun hmem => ha (.inr hmem), h.frame a fun hmem => ha (.inl hmem)]

/-- Without a store, memory stays as it is. -/
theorem mem_eq (h : Touched L ∅ r r') : r'.mem = r.mem := funext fun a => h.frame a id

theorem loadRange (r : Tallied β) (a n : ℕ) :
    Touched (Set.Ico a (a + n)) ∅ r (r.loadRange a n) := by
  refine ⟨fun x hx => ?_, fun _ hx => hx.elim, fun _ _ => rfl, fun _ _ => rfl⟩
  show r.loads x + (Tallied.inRange a n x).toNat = r.loads x
  rw [Tallied.inRange_of_not_mem hx]
  rfl

theorem storeRange (r : Tallied β) (a n : ℕ) (g : ℕ → β) :
    Touched ∅ (Set.Ico a (a + n)) r (r.storeRange a n g) := by
  refine ⟨fun _ _ => rfl, fun x hx => ?_, fun x hx => ?_, fun x hx => ?_⟩
  · show r.stores x + (Tallied.inRange a n x).toNat = r.stores x + 1
    rw [Tallied.inRange_of_mem hx]
    rfl
  · show r.stores x + (Tallied.inRange a n x).toNat = r.stores x
    rw [Tallied.inRange_of_not_mem hx]
    rfl
  · rw [Tallied.storeRange_mem]
    exact overwrite_of_not_mem hx

/-- Consecutive items, whose stores do not meet. -/
theorem forFrom (lo : ℕ) {k : ℕ} {f : ℕ → Tallied β → Tallied β} {L S : ℕ → Set ℕ}
    (hitem : ∀ t, lo ≤ t → t < lo + k → ∀ r, Touched (L t) (S t) r (f t r))
    (hdisjoint : ∀ t, lo ≤ t → t < lo + k → ∀ u, lo ≤ u → u < lo + k → t ≠ u →
      Disjoint (S t) (S u)) (r : Tallied β) :
    Touched {a | ∃ t, (lo ≤ t ∧ t < lo + k) ∧ a ∈ L t} {a | ∃ t, (lo ≤ t ∧ t < lo + k) ∧ a ∈ S t} r
      (Loop.forFrom lo k f r) := by
  refine forFrom_invariant (fun i r' => Touched {a | ∃ t, (lo ≤ t ∧ t < i) ∧ a ∈ L t}
    {a | ∃ t, (lo ≤ t ∧ t < i) ∧ a ∈ S t} r r') ?_ ?_
  · refine (refl r).congr (Set.empty_subset _) (Set.ext fun a => ⟨fun h => h.elim, ?_⟩)
    rintro ⟨t, ht, -⟩
    omega
  · intro i h1 h2 r' h
    refine (h.trans (hitem i h1 h2 r') ?_).congr ?_ ?_
    · refine Set.disjoint_left.mpr ?_
      rintro a ⟨t, ht, ha⟩ hi
      exact Set.disjoint_left.mp (hdisjoint t ht.1 (by omega) i h1 h2 (by omega)) ha hi
    · rintro a (⟨t, ht, ha⟩ | ha)
      · exact ⟨t, ⟨ht.1, by omega⟩, ha⟩
      · exact ⟨i, ⟨h1, by omega⟩, ha⟩
    · ext a
      constructor
      · rintro (⟨t, ht, ha⟩ | ha)
        · exact ⟨t, ⟨ht.1, by omega⟩, ha⟩
        · exact ⟨i, ⟨h1, by omega⟩, ha⟩
      · rintro ⟨t, ht, ha⟩
        rcases Nat.lt_succ_iff_lt_or_eq.mp ht.2 with hlt | rfl
        · exact .inl ⟨t, ⟨ht.1, hlt⟩, ha⟩
        · exact .inr ha

/-- Items in any partition and order. -/
theorem partition {n : ℕ} {f : ℕ → Tallied β → Tallied β} {L S : ℕ → Set ℕ}
    {l : List (ℕ × ℕ)} (hl : IsPartition n l)
    (hitem : ∀ t < n, ∀ r, Touched (L t) (S t) r (f t r))
    (hdisjoint : ∀ t < n, ∀ u < n, t ≠ u → Disjoint (S t) (S u)) (r : Tallied β) :
    Touched {a | ∃ t < n, a ∈ L t} {a | ∃ t < n, a ∈ S t} r
      (l.foldl (fun r p => Loop.forFrom p.1 (p.2 - p.1) f r) r) := by
  -- Induction over the ranges done so far.
  have key : ∀ done rest, done ++ rest = l →
      Touched {a | ∃ p ∈ done, ∃ t, (p.1 ≤ t ∧ t < p.2) ∧ a ∈ L t}
        {a | ∃ p ∈ done, ∃ t, (p.1 ≤ t ∧ t < p.2) ∧ a ∈ S t} r
        (done.foldl (fun r p => Loop.forFrom p.1 (p.2 - p.1) f r) r) := by
    intro done
    induction done using List.reverseRecOn with
    | nil =>
      intro rest _
      refine (refl r).congr (Set.empty_subset _) (Set.ext fun a => ⟨fun h => h.elim, ?_⟩)
      rintro ⟨p, hp, -⟩
      exact absurd hp List.not_mem_nil
    | append_singleton done p ih =>
      intro rest heq
      have heq' : l = done ++ p :: rest := by rw [← heq, List.append_assoc]; rfl
      have hb : ∀ q ∈ done ++ [p], q.1 ≤ q.2 ∧ q.2 ≤ n := fun q hq =>
        hl.bounds q (heq ▸ List.mem_append_left _ hq)
      have hp := hb p (by simp)
      have hend : p.1 + (p.2 - p.1) = p.2 := Nat.add_sub_cancel' hp.1
      rw [List.foldl_concat]
      have hrange := Touched.forFrom p.1 (k := p.2 - p.1)
        (fun t _ h2 => hitem t (by omega))
        (fun t _ h2 u _ hu => hdisjoint t (by omega) u (by omega))
        (done.foldl (fun r p => Loop.forFrom p.1 (p.2 - p.1) f r) r)
      rw [hend] at hrange
      refine ((ih (p :: rest) heq'.symm).trans hrange ?_).congr ?_ ?_
      · refine Set.disjoint_left.mpr ?_
        rintro a ⟨q, hq, t, ht, ha⟩ ⟨u, hu, ha'⟩
        have hne : t ≠ u := by
          rintro rfl
          exact hl.not_mem_done heq' hu.1 hu.2 q hq ht
        have hq2 := (hb q (by simp [hq])).2
        exact Set.disjoint_left.mp (hdisjoint t (by omega) u (by omega) hne) ha ha'
      · rintro a (⟨q, hq, t, ht, ha⟩ | ⟨t, ht, ha⟩)
        · exact ⟨q, by simp [hq], t, ht, ha⟩
        · exact ⟨p, by simp, t, ht, ha⟩
      · ext a
        constructor
        · rintro (⟨q, hq, t, ht, ha⟩ | ⟨t, ht, ha⟩)
          · exact ⟨q, by simp [hq], t, ht, ha⟩
          · exact ⟨p, by simp, t, ht, ha⟩
        · rintro ⟨q, hq, t, ht, ha⟩
          rcases List.mem_append.mp hq with hq | hq
          · exact .inl ⟨q, hq, t, ht, ha⟩
          · rw [List.mem_singleton.mp hq] at ht
            exact .inr ⟨t, ht, ha⟩
  refine (key l [] (List.append_nil l)).congr ?_ (Set.ext fun a => ⟨?_, ?_⟩)
  · rintro a ⟨p, hp, t, ht, ha⟩
    exact ⟨t, ht.2.trans_le (hl.bounds p hp).2, ha⟩
  · rintro ⟨p, hp, t, ht, ha⟩
    exact ⟨t, ht.2.trans_le (hl.bounds p hp).2, ha⟩
  · rintro ⟨t, ht, ha⟩
    obtain ⟨p, hp, hin⟩ := hl.cover t ht
    exact ⟨p, hp, t, hin, ha⟩

end Touched
