/-
Truth tables as numbers.

The table of a Boolean function on a list has one bit for each entry of the list.  Conjunction
and disjunction of functions are `&&&` and `|||` of their tables, so a formula is evaluated on
all entries at once.

* `testBit_tableOf`, `eq_of_tableOf_eq` — the table determines the function on the list;
* `tableOf_append`, `joinTables_eq` — tables of lists that are put together;
* `staircases` — the decreasing sequences, with the tables of their thresholds and sums.
-/
import Mathlib.Tactic

namespace TruthTable

variable {β γ : Type*}

/-- Bit `s` is the value at entry `s` of the list. -/
def tableOf (f : β → Bool) : List β → ℕ
  | [] => 0
  | b :: l => Nat.bit (f b) (tableOf f l)

theorem testBit_tableOf (f : β → Bool) (l : List β) (s : ℕ) :
    (tableOf f l).testBit s = (l[s]?.map f).getD false := by
  induction l generalizing s with
  | nil => simp [tableOf]
  | cons b l ih =>
    cases s with
    | zero => simp [tableOf]
    | succ s =>
      rw [tableOf, Nat.testBit_bit_succ, ih, List.getElem?_cons_succ]

theorem tableOf_congr {f g : β → Bool} {l : List β} (h : ∀ b ∈ l, f b = g b) :
    tableOf f l = tableOf g l := by
  induction l with
  | nil => rfl
  | cons b l ih =>
    rw [tableOf, tableOf, h b List.mem_cons_self, ih fun c hc => h c (List.mem_cons_of_mem b hc)]

/-- Functions with the same table agree on the list. -/
theorem eq_of_tableOf_eq {f g : β → Bool} {l : List β} (h : tableOf f l = tableOf g l) :
    ∀ b ∈ l, f b = g b := by
  intro b hb
  obtain ⟨s, hs, rfl⟩ := List.getElem_of_mem hb
  have hbit := congrArg (fun n => n.testBit s) h
  simpa only [testBit_tableOf, List.getElem?_eq_getElem hs, Option.map_some, Option.getD_some]
    using hbit

theorem tableOf_map (f : γ → Bool) (g : β → γ) (l : List β) :
    tableOf f (l.map g) = tableOf (fun b => f (g b)) l := by
  induction l with
  | nil => rfl
  | cons b l ih => rw [List.map_cons, tableOf, tableOf, ih]

theorem tableOf_append (f : β → Bool) (l l' : List β) :
    tableOf f (l ++ l') = tableOf f l + 2 ^ l.length * tableOf f l' := by
  induction l with
  | nil => simp [tableOf]
  | cons b l ih =>
    rw [List.cons_append, tableOf, tableOf, ih, List.length_cons, Nat.bit_val, Nat.bit_val]
    ring

theorem tableOf_false (l : List β) : tableOf (fun _ => false) l = 0 := by
  induction l with
  | nil => rfl
  | cons b l ih => rw [tableOf, ih, Nat.bit_val]; rfl

theorem tableOf_true (l : List β) : tableOf (fun _ => true) l = 2 ^ l.length - 1 := by
  induction l with
  | nil => rfl
  | cons b l ih =>
    rw [tableOf, ih, List.length_cons, Nat.bit_val, Nat.pow_succ, Bool.toNat_true]
    have := Nat.one_le_two_pow (n := l.length)
    omega

theorem tableOf_and (f g : β → Bool) (l : List β) :
    tableOf f l &&& tableOf g l = tableOf (fun b => f b && g b) l := by
  refine Nat.eq_of_testBit_eq fun s => ?_
  simp only [Nat.testBit_and, testBit_tableOf]
  cases l[s]? <;> rfl

theorem tableOf_or (f g : β → Bool) (l : List β) :
    tableOf f l ||| tableOf g l = tableOf (fun b => f b || g b) l := by
  refine Nat.eq_of_testBit_eq fun s => ?_
  simp only [Nat.testBit_or, testBit_tableOf]
  cases l[s]? <;> rfl

/-! ### Tables of lists that are put together -/

/-- The length and the table of blocks `0` to `m`, one after the other. -/
def joinTables (length block : ℕ → ℕ) : ℕ → ℕ × ℕ
  | 0 => (length 0, block 0)
  | m + 1 =>
    match joinTables length block m with
    | (n, table) => (n + length (m + 1), table + 2 ^ n * block (m + 1))

theorem joinTables_eq (f : β → Bool) (l : ℕ → List β) (m : ℕ) :
    joinTables (fun r => (l r).length) (fun r => tableOf f (l r)) m =
      (((List.range (m + 1)).flatMap l).length, tableOf f ((List.range (m + 1)).flatMap l)) := by
  induction m with
  | zero => simp [joinTables]
  | succ m ih =>
    rw [joinTables, ih, List.range_succ (n := m + 1), List.flatMap_append, List.flatMap_singleton,
      List.length_append, tableOf_append]

/-! ### Bits -/

/-- All lists of `n` bits. -/
def bits : ℕ → List (List Bool)
  | 0 => [[]]
  | n + 1 => (bits n).map (false :: ·) ++ (bits n).map (true :: ·)

theorem mem_bits {v : List Bool} {n : ℕ} (h : v.length = n) : v ∈ bits n := by
  induction v generalizing n with
  | nil =>
    obtain rfl : n = 0 := h.symm
    exact List.mem_singleton.mpr rfl
  | cons b v ih =>
    obtain rfl : n = v.length + 1 := h.symm
    rw [bits, List.mem_append, List.mem_map, List.mem_map]
    cases b with
    | false => exact .inl ⟨v, ih rfl, rfl⟩
    | true => exact .inr ⟨v, ih rfl, rfl⟩

/-! ### Staircases -/

/-- The decreasing sequences of `k` numbers up to `m`. -/
def staircases : ℕ → ℕ → List (List ℕ)
  | 0, _ => [[]]
  | k + 1, m => (List.range (m + 1)).flatMap fun r => (staircases k r).map (r :: ·)

theorem mem_staircases {d : List ℕ} {k m : ℕ} (hk : d.length = k)
    (hd : d.Pairwise (· ≥ ·)) (hm : ∀ r ∈ d, r ≤ m) : d ∈ staircases k m := by
  induction d generalizing k m with
  | nil =>
    obtain rfl : k = 0 := hk.symm
    exact List.mem_singleton.mpr rfl
  | cons r d ih =>
    obtain rfl : k = d.length + 1 := hk.symm
    obtain ⟨hfirst, hrest⟩ := List.pairwise_cons.mp hd
    rw [staircases, List.mem_flatMap]
    refine ⟨r, List.mem_range.mpr (Nat.lt_succ_of_le (hm r List.mem_cons_self)), ?_⟩
    exact List.mem_map.mpr ⟨d, ih rfl hrest hfirst, rfl⟩

/-- How many there are. -/
def staircaseCount : ℕ → ℕ → ℕ
  | 0, _ => 1
  | k + 1, m => ((List.range (m + 1)).map (staircaseCount k)).sum

theorem staircaseCount_eq (k m : ℕ) : staircaseCount k m = (staircases k m).length := by
  induction k generalizing m with
  | zero => rfl
  | succ k ih =>
    rw [staircaseCount, staircases, List.length_flatMap]
    congr 1
    refine List.map_congr_left fun r _ => ?_
    rw [ih, List.length_map]

/-- A table of the staircases, by their first entry. -/
theorem joinTables_staircases {f : List ℕ → Bool} {k : ℕ} {block : ℕ → ℕ}
    (hblock : ∀ r, block r = tableOf (fun d => f (r :: d)) (staircases k r)) (m : ℕ) :
    (joinTables (staircaseCount k) block m).2 = tableOf f (staircases (k + 1) m) := by
  have hjoined := joinTables_eq f (fun r => (staircases k r).map (r :: ·)) m
  simp only [List.length_map, ← staircaseCount_eq, tableOf_map, ← hblock] at hjoined
  rw [show joinTables (staircaseCount k) block m = _ from hjoined]
  rfl

/-- The table of those whose entry `i` exceeds `t`. -/
def thresholdTable (t : ℕ) : ℕ → ℕ → ℕ → ℕ
  | 0, _, _ => 0
  | k + 1, 0, m =>
    (joinTables (staircaseCount k) (fun r => if Nat.blt t r then 2 ^ staircaseCount k r - 1 else 0)
      m).2
  | k + 1, i + 1, m => (joinTables (staircaseCount k) (thresholdTable t k i) m).2

theorem thresholdTable_eq (t k i m : ℕ) :
    thresholdTable t k i m = tableOf (fun d => decide (t < d.getD i 0)) (staircases k m) := by
  induction k generalizing i m with
  | zero => simp [thresholdTable, staircases, tableOf]
  | succ k ih =>
    cases i with
    | zero =>
      refine joinTables_staircases (fun r => ?_) m
      simp only [List.getD_cons_zero]
      by_cases hr : t < r
      · rw [if_pos (by rw [Nat.blt_eq]; exact hr), decide_eq_true hr, tableOf_true,
          staircaseCount_eq]
      · rw [if_neg (by rw [Nat.blt_eq]; exact hr), decide_eq_false hr, tableOf_false]
    | succ i =>
      refine joinTables_staircases (fun r => ?_) m
      simp only [List.getD_cons_succ]
      exact ih i r

/-- The table of those whose sum, added to `s`, exceeds `half`. -/
def sumTable (half : ℕ) : ℕ → ℕ → ℕ → ℕ
  | 0, s, _ => (Nat.blt half s).toNat
  | k + 1, s, m => (joinTables (staircaseCount k) (fun r => sumTable half k (s + r) r) m).2

theorem sumTable_eq (half k s m : ℕ) :
    sumTable half k s m = tableOf (fun d => decide (half < s + d.sum)) (staircases k m) := by
  induction k generalizing s m with
  | zero =>
    have hsum : decide (half < s + ([] : List ℕ).sum) = Nat.blt half s := by
      rw [Bool.eq_iff_iff, decide_eq_true_eq, Nat.blt_eq, List.sum_nil, Nat.add_zero]
    rw [sumTable, staircases, tableOf, tableOf, hsum, Nat.bit_val, Nat.mul_zero, Nat.zero_add]
  | succ k ih =>
    refine joinTables_staircases (fun r => ?_) m
    simp only [List.sum_cons, ← Nat.add_assoc]
    exact ih (s + r) r

end TruthTable
