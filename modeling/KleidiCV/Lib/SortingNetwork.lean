/-
Networks of comparators, some of which keep only one of the two values.

A network runs over any two operations `lo` and `hi`: minimum and maximum of an order, `&&` and
`||`, or `&&&` and `|||` of truth tables.  It commutes with every map that respects them.

* `run_map` — maps between the operations;
* `le_run_iff` — a network on an order, from its thresholds (the 0-1 principle);
* `run_tableOf` — a network on all 0-1 inputs of a list at once;
* `run_filter`, `run_congr` — the parts of a network that do not meet;
* `median_of_phases` — columns, then rows, then what is left of a square.
-/
import KleidiCV.Lib.Rank
import KleidiCV.Lib.TruthTable

namespace SortingNetwork

/-- A comparator on the cells `left` and `right`. -/
inductive Comparator (ι : Type*) where
  /-- The smaller value goes to the left, the larger one to the right. -/
  | compareAndSwap (left right : ι)
  /-- The smaller value goes to the left; the right is kept. -/
  | min (left right : ι)
  /-- The larger value goes to the right; the left is kept. -/
  | max (left right : ι)
  deriving DecidableEq

namespace Comparator

variable {ι : Type*}

def left : Comparator ι → ι
  | .compareAndSwap l _ => l
  | .min l _ => l
  | .max l _ => l

def right : Comparator ι → ι
  | .compareAndSwap _ r => r
  | .min _ r => r
  | .max _ r => r

end Comparator

variable {ι κ α β : Type*} [DecidableEq ι]

/-- One comparator. -/
def step (lo hi : α → α → α) (w : ι → α) : Comparator ι → ι → α
  | .compareAndSwap l r => Function.update (Function.update w l (lo (w l) (w r))) r (hi (w l) (w r))
  | .min l r => Function.update w l (lo (w l) (w r))
  | .max l r => Function.update w r (hi (w l) (w r))

/-- Comparators, one after the other. -/
def run (lo hi : α → α → α) (network : List (Comparator ι)) (w : ι → α) : ι → α :=
  network.foldl (step lo hi) w

section

variable {lo hi : α → α → α} {lo' hi' : β → β → β} {network : List (Comparator ι)} {w w' : ι → α}

theorem run_append (network network' : List (Comparator ι)) (w : ι → α) :
    run lo hi (network ++ network') w = run lo hi network' (run lo hi network w) :=
  List.foldl_append

/-! ### Maps -/

theorem step_map (f : α → β) (hlo : ∀ a b, f (lo a b) = lo' (f a) (f b))
    (hhi : ∀ a b, f (hi a b) = hi' (f a) (f b)) (c : Comparator ι) (w : ι → α) :
    (fun i => f (step lo hi w c i)) = step lo' hi' (fun i => f (w i)) c := by
  cases c with
  | compareAndSwap l r =>
    funext i
    simp only [step, Function.update_apply]
    split_ifs
    · exact hhi _ _
    · exact hlo _ _
    · rfl
  | min l r =>
    funext i
    simp only [step, Function.update_apply]
    split_ifs
    · exact hlo _ _
    · rfl
  | max l r =>
    funext i
    simp only [step, Function.update_apply]
    split_ifs
    · exact hhi _ _
    · rfl

/-- A map that respects the operations can be applied before or after the network. -/
theorem run_map (f : α → β) (hlo : ∀ a b, f (lo a b) = lo' (f a) (f b))
    (hhi : ∀ a b, f (hi a b) = hi' (f a) (f b)) (network : List (Comparator ι)) (w : ι → α) :
    (fun i => f (run lo hi network w i)) = run lo' hi' network fun i => f (w i) := by
  induction network generalizing w with
  | nil => rfl
  | cons c network ih =>
    have hrest := ih (step lo hi w c)
    rw [step_map f hlo hhi c w] at hrest
    exact hrest

/-- On an order, a network is determined by what it does to thresholds. -/
theorem le_run_iff {α : Type*} [LinearOrder α] (network : List (Comparator ι)) (w : ι → α) (t : α)
    (i : ι) :
    t ≤ run Min.min Max.max network w i ↔
      run and or network (fun c => decide (t ≤ w c)) i = true := by
  have hmap : (fun i => decide (t ≤ run Min.min Max.max network w i)) =
      run and or network fun i => decide (t ≤ w i) := by
    refine run_map (fun a => decide (t ≤ a)) (fun a b => ?_) (fun a b => ?_) network w
    · simp only [le_min_iff, Bool.decide_and]
    · simp only [le_max_iff, Bool.decide_or]
  rw [← hmap, decide_eq_true_eq]

/-- A network runs on the tables as it does on each entry. -/
theorem run_tableOf (f : ι → β → Bool) (l : List β) (network : List (Comparator ι)) (i : ι) :
    run (· &&& ·) (· ||| ·) network (fun c => TruthTable.tableOf (f c) l) i =
      TruthTable.tableOf (fun b => run and or network (fun c => f c b) i) l := by
  have hmap : (fun i => TruthTable.tableOf
        (run (fun f g b => f b && g b) (fun f g b => f b || g b) network f i) l) =
      run (· &&& ·) (· ||| ·) network fun i => TruthTable.tableOf (f i) l :=
    run_map (fun g : β → Bool => TruthTable.tableOf g l)
      (fun f g => (TruthTable.tableOf_and f g l).symm)
      (fun f g => (TruthTable.tableOf_or f g l).symm) network f
  rw [← hmap]
  refine TruthTable.tableOf_congr fun b _ => ?_
  -- The value at an entry is a map as well.
  have hvalue : (fun i => run (fun f g b => f b && g b) (fun f g b => f b || g b) network f i b) =
      run and or network fun i => f i b :=
    run_map (fun g : β → Bool => g b) (fun _ _ => rfl) (fun _ _ => rfl) network f
  exact congrFun hvalue i

/-! ### Parts that do not meet -/

theorem step_of_ne {c : Comparator ι} {i : ι} (hl : c.left ≠ i) (hr : c.right ≠ i) (w : ι → α) :
    step lo hi w c i = w i := by
  cases c with
  | compareAndSwap l r =>
    simp only [Comparator.left, Comparator.right] at hl hr
    rw [step, Function.update_of_ne hr.symm, Function.update_of_ne hl.symm]
  | min l r => exact Function.update_of_ne hl.symm _ _
  | max l r => exact Function.update_of_ne hr.symm _ _

/-- On cells that include its own, a comparator depends on no others. -/
theorem step_congr {S : Set ι} {c : Comparator ι} (hl : c.left ∈ S) (hr : c.right ∈ S)
    (h : ∀ i ∈ S, w i = w' i) : ∀ i ∈ S, step lo hi w c i = step lo hi w' c i := by
  intro i hi
  cases c with
  | compareAndSwap l r =>
    simp only [Comparator.left, Comparator.right] at hl hr
    simp only [step, Function.update_apply, h l hl, h r hr, h i hi]
  | min l r =>
    simp only [Comparator.left, Comparator.right] at hl hr
    simp only [step, Function.update_apply, h l hl, h r hr, h i hi]
  | max l r =>
    simp only [Comparator.left, Comparator.right] at hl hr
    simp only [step, Function.update_apply, h l hl, h r hr, h i hi]

theorem run_congr {S : Set ι} (hS : ∀ c ∈ network, c.left ∈ S ∧ c.right ∈ S)
    (h : ∀ i ∈ S, w i = w' i) : ∀ i ∈ S, run lo hi network w i = run lo hi network w' i := by
  induction network generalizing w w' with
  | nil => exact h
  | cons c network ih =>
    obtain ⟨hl, hr⟩ := hS c List.mem_cons_self
    exact ih (fun c hc => hS c (List.mem_cons_of_mem _ hc)) (step_congr hl hr h)

/-- Comparators that stay within the classes of `part`: on one class, only its own count. -/
theorem run_filter [DecidableEq κ] (part : ι → κ) (hpart : ∀ c ∈ network, part c.left = part c.right)
    (i : ι) :
    run lo hi network w i = run lo hi (network.filter fun c => part c.left = part i) w i := by
  suffices hclass : ∀ (k : κ) (w w' : ι → α), (∀ i, part i = k → w i = w' i) → ∀ i, part i = k →
      run lo hi network w i = run lo hi (network.filter fun c => part c.left = k) w' i from
    hclass (part i) w w (fun _ _ => rfl) i rfl
  intro k
  induction network with
  | nil => exact fun w w' h => h
  | cons c network ih =>
    intro w w' h
    have hrest := ih fun c hc => hpart c (List.mem_cons_of_mem _ hc)
    have hc := hpart c List.mem_cons_self
    rw [List.filter_cons]
    by_cases hk : part c.left = k
    · rw [if_pos (by simpa using hk)]
      refine hrest _ _ ?_
      exact step_congr (S := {i | part i = k}) hk (hc.symm.trans hk) h
    · rw [if_neg (by simpa using hk)]
      -- A comparator of another class leaves this one alone.
      refine hrest _ _ fun i hi => ?_
      rw [step_of_ne (fun heq => hk (heq ▸ hi)) (fun heq => hk (hc ▸ heq ▸ hi))]
      exact h i hi

end

/-! ### A square -/

section

variable {n : ℕ}

/-- How many of `n` bits are set. -/
def countTrue (v : Fin n → Bool) : ℕ := (Finset.univ.filter fun i => v i = true).card

/-- A network that sorts the columns of a square, then the cells `live` of its rows, and finds
the median among them; `turn` is where a cell stands when ones come first.  All inputs of each
phase are checked at once, on tables. -/
structure MedianPhases (turn : Fin n → Fin n) (columns rows last : List (Comparator (Fin n × Fin n)))
    (live : List (Fin n × Fin n)) (out : Fin n × Fin n) (half : ℕ) : Prop where
  size : n * n = 2 * half + 1
  columnsWithin : ∀ c ∈ columns, c.left.2 = c.right.2
  columnsSort : ∀ i j, run (· &&& ·) (· ||| ·) (columns.filter fun c => c.left.2 = j)
      (fun c => TruthTable.tableOf (fun v => v.getD c.1 false) (TruthTable.bits n)) (i, j) =
    TruthTable.tableOf (fun v => decide ((turn i).val < v.count true)) (TruthTable.bits n)
  rowsWithin : ∀ c ∈ rows, c.left.1 = c.right.1
  rowsSort : ∀ c ∈ live, run (· &&& ·) (· ||| ·) (rows.filter fun d => d.left.1 = c.1)
      (fun d => TruthTable.tableOf (fun v => v.getD d.2 false) (TruthTable.bits n)) c =
    TruthTable.tableOf (fun v => decide ((turn c.2).val < v.count true)) (TruthTable.bits n)
  lastWithin : ∀ c ∈ last, c.left ∈ live ∧ c.right ∈ live
  out_mem : out ∈ live
  lastMedian : run (· &&& ·) (· ||| ·) last
      (fun c => TruthTable.thresholdTable (turn c.2) n (turn c.1) n) out =
    TruthTable.sumTable half n 0 n

theorem count_ofFn (v : Fin n → Bool) : (List.ofFn v).count true = countTrue v := by
  rw [List.ofFn_eq_map, List.count_eq_countP, List.countP_map, List.countP_eq_length_filter]
  have hbits : ((· == true) ∘ v) = fun i => decide (v i = true) := by
    funext i
    cases h : v i <;> simp [h]
  rw [hbits]
  rfl

theorem getD_ofFn {γ : Type*} (v : Fin n → γ) (i : Fin n) (d : γ) : (List.ofFn v).getD i d = v i := by
  simp [List.getD]

/-- A line of the square is sorted as its tables say. -/
theorem run_line {network : List (Comparator (Fin n × Fin n))} {coord : Fin n × Fin n → Fin n}
    {c : Fin n × Fin n} {k : ℕ}
    (htable : run (· &&& ·) (· ||| ·) network
        (fun d => TruthTable.tableOf (fun v => v.getD (coord d) false) (TruthTable.bits n)) c =
      TruthTable.tableOf (fun v => decide (k < v.count true)) (TruthTable.bits n))
    (v : Fin n → Bool) :
    run and or network (fun d => v (coord d)) c = decide (k < countTrue v) := by
  rw [run_tableOf] at htable
  have h := TruthTable.eq_of_tableOf_eq htable (List.ofFn v) (TruthTable.mem_bits (by simp))
  simpa only [getD_ofFn, count_ofFn] using h

variable {turn : Fin n → Fin n} {columns rows last : List (Comparator (Fin n × Fin n))}
  {live : List (Fin n × Fin n)} {out : Fin n × Fin n} {half : ℕ}

/-- After the columns, a cell is set if its column has enough ones. -/
theorem MedianPhases.columns_run (h : MedianPhases turn columns rows last live out half)
    (w : Fin n × Fin n → Bool) (c : Fin n × Fin n) :
    run and or columns w c = decide ((turn c.1).val < countTrue fun i => w (i, c.2)) := by
  rw [run_filter Prod.snd h.columnsWithin, ← run_line (h.columnsSort c.1 c.2)]
  refine run_congr (S := {d : Fin n × Fin n | d.2 = c.2}) (fun d hd => ?_) ?_ c rfl
  · obtain ⟨hmem, hcol⟩ := List.mem_filter.mp hd
    have hleft : d.left.2 = c.2 := of_decide_eq_true hcol
    exact ⟨hleft, (h.columnsWithin d hmem).symm.trans hleft⟩
  · rintro ⟨i, j⟩ rfl
    rfl

/-- After the rows, so is a cell that the rest of the network reads. -/
theorem MedianPhases.rows_run (h : MedianPhases turn columns rows last live out half)
    (w : Fin n × Fin n → Bool) {c : Fin n × Fin n} (hc : c ∈ live) :
    run and or rows w c = decide ((turn c.2).val < countTrue fun j => w (c.1, j)) := by
  rw [run_filter Prod.fst h.rowsWithin, ← run_line (h.rowsSort c hc)]
  refine run_congr (S := {d : Fin n × Fin n | d.1 = c.1}) (fun d hd => ?_) ?_ c rfl
  · obtain ⟨hmem, hrow⟩ := List.mem_filter.mp hd
    have hleft : d.left.1 = c.1 := of_decide_eq_true hrow
    exact ⟨hleft, (h.rowsWithin d hmem).symm.trans hleft⟩
  · rintro ⟨i, j⟩ rfl
    rfl

/-- On a staircase, the last phase tells whether more than half of the cells are set. -/
theorem MedianPhases.last_run (h : MedianPhases turn columns rows last live out half)
    {R : Fin n → ℕ} (hR : Antitone R) (hn : ∀ i, R i ≤ n) :
    run and or last (fun c => decide ((turn c.2).val < R (turn c.1))) out =
      decide (half < ∑ i, R i) := by
  have htable := h.lastMedian
  simp only [TruthTable.thresholdTable_eq, TruthTable.sumTable_eq] at htable
  rw [run_tableOf] at htable
  have hmem : List.ofFn R ∈ TruthTable.staircases n n := by
    refine TruthTable.mem_staircases (by simp) (List.pairwise_ofFn.mpr fun i j hij => ?_) ?_
    · exact hR hij.le
    · intro r hr
      obtain ⟨i, rfl⟩ := List.mem_ofFn.mp hr
      exact hn i
  have hvalue := TruthTable.eq_of_tableOf_eq htable _ hmem
  simpa only [getD_ofFn, List.sum_ofFn, Nat.zero_add] using hvalue

theorem countTrue_eq_sum (v : Fin n → Bool) : countTrue v = ∑ i, (v i).toNat := by
  rw [countTrue, Finset.card_filter]
  refine Finset.sum_congr rfl fun i _ => ?_
  cases v i <;> rfl

theorem countTrue_le (v : Fin n → Bool) : countTrue v ≤ n :=
  (Finset.card_filter_le _ _).trans (by simp)

/-- As many thresholds lie below a number as it says. -/
theorem countTrue_lt {m : ℕ} (hm : m ≤ n) : countTrue (fun k : Fin n => decide (k.val < m)) = m := by
  simp only [countTrue, decide_eq_true_eq]
  rw [Fin.card_filter_val_lt, Nat.min_eq_right hm]

/-- On bits, the network finds the majority. -/
theorem MedianPhases.majority (h : MedianPhases turn columns rows last live out half)
    (w : Fin n × Fin n → Bool) :
    run and or (columns ++ rows ++ last) w out =
      decide (half < (Finset.univ.filter fun c => w c = true).card) := by
  -- Row `k` of the staircase counts the columns with more than `k` ones.
  let R : Fin n → ℕ := fun k => countTrue fun j => decide (k.val < countTrue fun i => w (i, j))
  have hR : Antitone R := by
    intro k k' hk
    refine Finset.card_le_card fun j hj => ?_
    simp only [Finset.mem_filter, Finset.mem_univ, true_and, decide_eq_true_eq] at hj ⊢
    exact lt_of_le_of_lt hk hj
  have hsum : ∑ k, R k = (Finset.univ.filter fun c => w c = true).card := by
    calc ∑ k, R k
        = ∑ k : Fin n, ∑ j, (decide (k.val < countTrue fun i => w (i, j))).toNat :=
          Finset.sum_congr rfl fun k _ => countTrue_eq_sum _
      _ = ∑ j, ∑ k : Fin n, (decide (k.val < countTrue fun i => w (i, j))).toNat :=
          Finset.sum_comm
      _ = ∑ j, countTrue fun i => w (i, j) := by
          refine Finset.sum_congr rfl fun j _ => ?_
          rw [← countTrue_eq_sum fun k : Fin n => decide (k.val < countTrue fun i => w (i, j)),
            countTrue_lt (countTrue_le _)]
      _ = ∑ j, ∑ i, (w (i, j)).toNat := Finset.sum_congr rfl fun j _ => countTrue_eq_sum _
      _ = (Finset.univ.filter fun c => w c = true).card := by
          rw [Finset.card_filter, Fintype.sum_prod_type_right]
          refine Finset.sum_congr rfl fun j _ => Finset.sum_congr rfl fun i _ => ?_
          cases w (i, j) <;> rfl
  rw [run_append, run_append, ← hsum, ← h.last_run hR fun k => countTrue_le _]
  refine run_congr (S := {c | c ∈ live}) h.lastWithin (fun c hc => ?_) out h.out_mem
  rw [h.rows_run _ hc]
  simp only [h.columns_run]
  rfl

/-- **The network finds the median**, whatever it drops on the way. -/
theorem median_of_phases (h : MedianPhases turn columns rows last live out half) {α : Type*}
    [LinearOrder α] (w : Fin n × Fin n → α) :
    (Finset.univ.val.map w).sort[half]? =
      some (run Min.min Max.max (columns ++ rows ++ last) w out) := by
  refine sort_getElem?_of_thresholds ?_ fun t => ?_
  · rw [Multiset.card_map, ← h.size]
    simp
  · rw [le_run_iff, h.majority, decide_eq_true_eq, Multiset.countP_map]
    simp only [decide_eq_true_eq]
    exact Iff.rfl

end

end SortingNetwork
