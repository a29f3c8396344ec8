/-
Splitting an operation into batches for a caller-supplied scheduler.

`parallel_batches` turns `count` rows into `task_count` tasks of
`min_batch_size` rows and hands them to the scheduler; the scheduler calls
`kleidicv_thread_batch_callback` with ranges of task indices, and each call
becomes one range of rows.

* `TaskRanges taskCount` — the ranges a scheduler may ask for under the
  contract of `kleidicv_thread.h`: ordered, inside `[0, taskCount]`, empty
  ranges included, every task covered exactly once;
* `batchCallback_eq` — the rows of one call, without wrapping arithmetic;
* `batches_exact_iff` — the row ranges tile `[0, count)` exactly when the
  scheduler never asks for the empty range at the very end, or `count` is a
  non-zero multiple of `min_batch_size`.
-/
import KleidiCV.Utils

namespace KleidiCV

/-- `BatchContext`, without the callback pointer. -/
structure BatchContext where
  count : ℕ
  minBatchSize : ℕ
  taskCount : ℕ

/-- `kleidicv_thread_batch_callback`: the item range `[begin, end)` passed to
the operation for the task range `[taskBegin, taskEnd)`. -/
def kleidicvThreadBatchCallback (context : BatchContext) (task : ℕ × ℕ) : ℕ × ℕ :=
  let begin_ := task.1 * context.minBatchSize % sizeMod
  let end_ := task.2 * context.minBatchSize % sizeMod
  (begin_, if task.2 = context.taskCount then context.count else end_)

/-- The `task_count` of `parallel_batches`. -/
def taskCount (count minBatchSize : ℕ) : ℕ := max 1 (count / minBatchSize)

/-- The context `parallel_batches` builds. -/
def parallelBatchesContext (count minBatchSize : ℕ) : BatchContext where
  count := count
  minBatchSize := minBatchSize
  taskCount := taskCount count minBatchSize

/-- The task ranges of one `kleidicv_thread_parallel` invocation, in the order
the calls are made, under the documented contract. -/
structure TaskRanges (taskCount : ℕ) where
  ranges : List (ℕ × ℕ)
  ordered : ∀ r ∈ ranges, r.1 ≤ r.2
  bounded : ∀ r ∈ ranges, r.2 ≤ taskCount
  covered : ∀ t < taskCount, ranges.countP (fun r => r.1 ≤ t ∧ t < r.2) = 1

/-- The item ranges `parallel_batches` passes to the operation, one for each
call of the scheduler. -/
def parallelBatches (count minBatchSize : ℕ)
    (tasks : TaskRanges (taskCount count minBatchSize)) :
    List (ℕ × ℕ) :=
  tasks.ranges.map (kleidicvThreadBatchCallback (parallelBatchesContext count minBatchSize))

/-- What threaded operations rely on: the item ranges are ordered, inside
`[0, count]`, pairwise disjoint and cover `[0, count)`, and a non-empty task
range gives at least `min (min_batch_size, count)` items. -/
structure BatchesExact (count minBatchSize : ℕ) (tasks : List (ℕ × ℕ))
    (batch : ℕ × ℕ → ℕ × ℕ) : Prop where
  bounds : ∀ t ∈ tasks, (batch t).1 ≤ (batch t).2 ∧ (batch t).2 ≤ count
  disjoint : (tasks.map batch).Pairwise fun a b => ∀ i, ¬((a.1 ≤ i ∧ i < a.2) ∧ b.1 ≤ i ∧ i < b.2)
  cover : ∀ i < count, ∃ r ∈ tasks.map batch, r.1 ≤ i ∧ i < r.2
  size : ∀ t ∈ tasks, t.1 < t.2 → min minBatchSize count ≤ (batch t).2 - (batch t).1

section

variable {count minBatchSize : ℕ}

theorem taskCount_mul_le (hs : minBatchSize ≤ count) :
    taskCount count minBatchSize * minBatchSize ≤ count := by
  rcases Nat.eq_zero_or_pos minBatchSize with h0 | h0
  · simp [h0]
  · have h1 : 1 ≤ count / minBatchSize := (Nat.one_le_div_iff h0).mpr hs
    simp only [taskCount, max_eq_right h1]
    exact Nat.div_mul_le_self count minBatchSize

theorem taskCount_eq_one (hs : count < minBatchSize) :
    taskCount count minBatchSize = 1 := by
  simp [taskCount, Nat.div_eq_of_lt hs]

/-- A task index that a range may name times the batch size never wraps. -/
theorem task_mul_lt (hc : count < sizeMod) (hm : minBatchSize < sizeMod) {t : ℕ}
    (ht : t ≤ taskCount count minBatchSize) :
    t * minBatchSize < sizeMod := by
  rcases Nat.lt_or_ge count minBatchSize with h | h
  · rw [taskCount_eq_one h] at ht
    calc t * minBatchSize ≤ 1 * minBatchSize := Nat.mul_le_mul_right _ ht
      _ < sizeMod := by omega
  · calc t * minBatchSize
        ≤ taskCount count minBatchSize * minBatchSize :=
          Nat.mul_le_mul_right _ ht
      _ ≤ count := taskCount_mul_le h
      _ < sizeMod := hc

/-- The callback without its wrapping arithmetic, on the ranges a scheduler
may pass. -/
theorem batchCallback_eq (hc : count < sizeMod) (hm : minBatchSize < sizeMod) {r : ℕ × ℕ}
    (hr : r.1 ≤ r.2) (hr' : r.2 ≤ taskCount count minBatchSize) :
    kleidicvThreadBatchCallback (parallelBatchesContext count minBatchSize) r =
      (r.1 * minBatchSize,
        if r.2 = taskCount count minBatchSize then count
        else r.2 * minBatchSize) := by
  have h1 := task_mul_lt hc hm (hr.trans hr')
  have h2 := task_mul_lt hc hm hr'
  rw [← Nat.mod_eq_of_lt h1, ← Nat.mod_eq_of_lt h2]
  rfl

/-- The first item of task `t`; the end of the items for `t = task_count`. -/
def itemOf (count minBatchSize t : ℕ) : ℕ :=
  if t = taskCount count minBatchSize then count
  else t * minBatchSize

/-- The task whose items contain item `i`. -/
def taskOf (count minBatchSize i : ℕ) : ℕ :=
  min (i / minBatchSize) (taskCount count minBatchSize - 1)

theorem one_le_taskCount : 1 ≤ taskCount count minBatchSize :=
  le_max_left _ _

theorem taskOf_lt {i : ℕ} :
    taskOf count minBatchSize i < taskCount count minBatchSize := by
  have h : 1 ≤ taskCount count minBatchSize := one_le_taskCount
  unfold taskOf
  omega

/-- `itemOf` and `taskOf` are adjoint on the items that exist. -/
theorem itemOf_le_iff (h0 : 0 < minBatchSize) {i t : ℕ} (hi : i < count)
    (ht : t ≤ taskCount count minBatchSize) :
    itemOf count minBatchSize t ≤ i ↔ t ≤ taskOf count minBatchSize i := by
  unfold itemOf
  split
  · rename_i h
    have : taskOf count minBatchSize i < taskCount count minBatchSize := taskOf_lt
    omega
  · rename_i h
    rw [← Nat.le_div_iff_mul_le h0, taskOf]
    omega

theorem itemOf_le {t : ℕ}
    (ht : t ≤ taskCount count minBatchSize) :
    itemOf count minBatchSize t ≤ count := by
  unfold itemOf
  split
  · exact le_rfl
  · rename_i h
    rcases Nat.lt_or_ge count minBatchSize with hs | hs
    · rw [taskCount_eq_one hs] at ht h
      have ht0 : t = 0 := by omega
      simp [ht0]
    · exact (Nat.mul_le_mul_right _ ht).trans (taskCount_mul_le hs)

/-- The items of a non-empty run of tasks: at least one whole batch, or all
there is. -/
theorem le_itemOf_sub {t u : ℕ} (htu : t < u)
    (hu : u ≤ taskCount count minBatchSize) :
    itemOf count minBatchSize t + min minBatchSize count ≤ itemOf count minBatchSize u := by
  have ht : itemOf count minBatchSize t = t * minBatchSize := if_neg (by omega)
  rcases Nat.lt_or_ge count minBatchSize with hs | hs
  · rw [taskCount_eq_one hs] at hu
    have hu1 : u = 1 := by omega
    have ht0 : t = 0 := by omega
    simp [itemOf, taskCount_eq_one hs, hu1, ht0]
  · have hstep : t * minBatchSize + minBatchSize ≤ u * minBatchSize := by
      calc t * minBatchSize + minBatchSize = (t + 1) * minBatchSize := by ring
        _ ≤ u * minBatchSize := Nat.mul_le_mul_right _ htu
    have hu' : u * minBatchSize ≤ itemOf count minBatchSize u := by
      unfold itemOf
      split
      · rename_i h
        rw [h]
        exact taskCount_mul_le hs
      · exact le_rfl
    rw [ht, min_eq_left hs]
    omega

/-- Away from the empty range at the end, or when there is nothing to stretch,
the callback maps both ends of a task range through `itemOf`. -/
theorem batchCallback_eq_itemOf (hc : count < sizeMod) (hm : minBatchSize < sizeMod) {r : ℕ × ℕ}
    (hr : r.1 ≤ r.2) (hr' : r.2 ≤ taskCount count minBatchSize)
    (h : r.1 < taskCount count minBatchSize ∨
      minBatchSize ∣ count ∧ minBatchSize ≤ count) :
    kleidicvThreadBatchCallback (parallelBatchesContext count minBatchSize) r =
      (itemOf count minBatchSize r.1, itemOf count minBatchSize r.2) := by
  rw [batchCallback_eq hc hm hr hr']
  refine Prod.ext ?_ rfl
  simp only [itemOf]
  split
  · rename_i hlast
    rcases h with h | ⟨⟨q, rfl⟩, hs⟩
    · omega
    · rcases Nat.eq_zero_or_pos minBatchSize with h0 | h0
      · simp [h0]
      · have hq : 1 ≤ q := by
          by_contra hq
          have : q = 0 := by omega
          subst this
          omega
        rw [hlast]
        simp only [taskCount, Nat.mul_div_cancel_left q h0, max_eq_right hq]
        exact Nat.mul_comm _ _
  · rfl

/-- A predicate met once in a list is not met at two places of it. -/
theorem pairwise_of_countP_le_one {α : Type*} (p : α → Bool) :
    ∀ {l : List α}, l.countP p ≤ 1 → l.Pairwise fun a b => ¬(p a ∧ p b)
  | [], _ => List.Pairwise.nil
  | a :: l, h => by
    rw [List.countP_cons] at h
    refine List.Pairwise.cons (fun b hb => ?_) (pairwise_of_countP_le_one p (by omega))
    rintro ⟨ha, hpb⟩
    have hpos : 0 < l.countP p := List.countP_pos_iff.mpr ⟨b, hb, hpb⟩
    simp only [ha, if_true] at h
    omega

variable (tasks : TaskRanges (taskCount count minBatchSize))

/-- With no stretched empty range the batches tile the items. -/
theorem batchesExact_of_no_stretch (hc : count < sizeMod) (hm : minBatchSize < sizeMod)
    (h0 : 0 < minBatchSize)
    (h : (∀ r ∈ tasks.ranges, r.1 < taskCount count minBatchSize) ∨
      minBatchSize ∣ count ∧ minBatchSize ≤ count) :
    BatchesExact count minBatchSize tasks.ranges
      (kleidicvThreadBatchCallback (parallelBatchesContext count minBatchSize)) := by
  have hcb : ∀ r ∈ tasks.ranges,
      kleidicvThreadBatchCallback (parallelBatchesContext count minBatchSize) r =
        (itemOf count minBatchSize r.1, itemOf count minBatchSize r.2) := fun r hr =>
    batchCallback_eq_itemOf hc hm (tasks.ordered r hr) (tasks.bounded r hr)
      (h.imp_left fun h => h r hr)
  -- An item lies in a batch exactly when its task lies in the task range.
  have hmem : ∀ r ∈ tasks.ranges, ∀ i < count,
      (itemOf count minBatchSize r.1 ≤ i ∧ i < itemOf count minBatchSize r.2) ↔
        (r.1 ≤ taskOf count minBatchSize i ∧ taskOf count minBatchSize i < r.2) := by
    intro r hr i hi
    have h1 := itemOf_le_iff h0 hi ((tasks.ordered r hr).trans (tasks.bounded r hr))
    have h2 := itemOf_le_iff h0 hi (tasks.bounded r hr)
    omega
  refine ⟨fun r hr => ?_, ?_, fun i hi => ?_, fun r hr hlt => ?_⟩
  · rw [hcb r hr]
    refine ⟨?_, itemOf_le (tasks.bounded r hr)⟩
    rcases Nat.eq_or_lt_of_le (tasks.ordered r hr) with he | hlt
    · rw [he]
    · have := le_itemOf_sub hlt (tasks.bounded r hr)
      exact le_trans (Nat.le_add_right _ _) this
  · rw [List.pairwise_map, List.pairwise_iff_forall_sublist]
    intro a b hab i hi
    have ha : a ∈ tasks.ranges := hab.subset (by simp)
    have hb : b ∈ tasks.ranges := hab.subset (by simp)
    rw [hcb a ha, hcb b hb] at hi
    have hic : i < count := lt_of_lt_of_le hi.1.2 (itemOf_le (tasks.bounded a ha))
    rw [hmem a ha i hic, hmem b hb i hic] at hi
    have hone := tasks.covered (taskOf count minBatchSize i) taskOf_lt
    have hpw := pairwise_of_countP_le_one _ hone.le
    exact List.pairwise_iff_forall_sublist.mp hpw hab (by simpa using hi)
  · have hone := tasks.covered (taskOf count minBatchSize i) taskOf_lt
    obtain ⟨r, hr, hp⟩ := List.countP_pos_iff.mp (hone ▸ Nat.one_pos)
    refine ⟨_, List.mem_map_of_mem hr, ?_⟩
    rw [hcb r hr]
    exact (hmem r hr i hi).mpr (by simpa using hp)
  · rw [hcb r hr]
    have := le_itemOf_sub hlt (tasks.bounded r hr)
    exact Nat.le_sub_of_add_le (by rw [Nat.add_comm]; exact this)

/-- A stretched empty range starts behind `count`, or repeats the items of the
task before it. -/
theorem no_stretch_of_batchesExact (hc : count < sizeMod) (hm : minBatchSize < sizeMod)
    (h0 : 0 < minBatchSize)
    (h : BatchesExact count minBatchSize tasks.ranges
      (kleidicvThreadBatchCallback (parallelBatchesContext count minBatchSize))) :
    (∀ r ∈ tasks.ranges, r.1 < taskCount count minBatchSize) ∨
      minBatchSize ∣ count ∧ minBatchSize ≤ count := by
  by_contra hcon
  push Not at hcon
  obtain ⟨⟨r, hr, hrT⟩, hdiv⟩ := hcon
  have hr1 : r.1 = taskCount count minBatchSize := le_antisymm ((tasks.ordered r hr).trans (tasks.bounded r hr)) hrT
  have hr2 : r.2 = taskCount count minBatchSize := le_antisymm (tasks.bounded r hr) (hr1 ▸ tasks.ordered r hr)
  have hcb := batchCallback_eq hc hm (tasks.ordered r hr) (tasks.bounded r hr)
  rw [if_pos hr2] at hcb
  rcases Nat.lt_or_ge count minBatchSize with hs | hs
  · have hb := (h.bounds r hr).1
    rw [hcb, hr1, taskCount_eq_one hs] at hb
    simp only [one_mul] at hb
    omega
  · -- The last task is also covered by a proper range, which ends at `count`.
    have hlt : taskCount count minBatchSize * minBatchSize < count := by
      refine lt_of_le_of_ne (taskCount_mul_le hs) fun he => ?_
      exact (hdiv (Dvd.intro_left _ he)).not_ge hs
    have h1T : 1 ≤ taskCount count minBatchSize := one_le_taskCount
    have hone := tasks.covered (taskCount count minBatchSize - 1) (by omega)
    obtain ⟨q, hq, hp⟩ := List.countP_pos_iff.mp (hone ▸ Nat.one_pos)
    have hq' : q.1 ≤ taskCount count minBatchSize - 1 ∧ taskCount count minBatchSize - 1 < q.2 := by simpa using hp
    have hq2 : q.2 = taskCount count minBatchSize := le_antisymm (tasks.bounded q hq) (by omega)
    have hcq := batchCallback_eq hc hm (tasks.ordered q hq) (tasks.bounded q hq)
    rw [if_pos hq2] at hcq
    have hqT : q.1 * minBatchSize < taskCount count minBatchSize * minBatchSize :=
      Nat.mul_lt_mul_of_pos_right (by omega) h0
    have hne : kleidicvThreadBatchCallback (parallelBatchesContext count minBatchSize) q ≠
        kleidicvThreadBatchCallback (parallelBatchesContext count minBatchSize) r := by
      rw [hcb, hcq, hr1]
      intro he
      exact hqT.ne (Prod.ext_iff.mp he).1
    have : Std.Symm fun a b : ℕ × ℕ =>
        ∀ i, ¬((a.1 ≤ i ∧ i < a.2) ∧ b.1 ≤ i ∧ i < b.2) := ⟨fun _ _ hab i hi => hab i hi.symm⟩
    have hdis := h.disjoint.forall (List.mem_map_of_mem hq) (List.mem_map_of_mem hr) hne
    refine hdis (count - 1) ?_
    rw [hcb, hcq, hr1]
    omega

/-- **The batches of a threaded operation.**  Under the scheduler contract the
item ranges tile `[0, count)` exactly when no call names the empty range at
the very end, or `count` is a non-zero multiple of `min_batch_size`. -/
theorem batches_exact_iff (hc : count < sizeMod) (hm : minBatchSize < sizeMod)
    (h0 : 1 ≤ minBatchSize) :
    BatchesExact count minBatchSize tasks.ranges
        (kleidicvThreadBatchCallback (parallelBatchesContext count minBatchSize)) ↔
      (∀ r ∈ tasks.ranges, r.1 < taskCount count minBatchSize) ∨
        minBatchSize ∣ count ∧ minBatchSize ≤ count :=
  ⟨no_stretch_of_batchesExact tasks hc hm h0, batchesExact_of_no_stretch tasks hc hm h0⟩

end

section

variable {count minBatchSize : ℕ}

/-- Batches end within the items; a batch starts after its end only when there
are fewer items than a batch should have. -/
theorem parallelBatches_bounds (hc : count < sizeMod) (hm : minBatchSize < sizeMod)
    (tasks : TaskRanges (taskCount count minBatchSize)) :
    ∀ r ∈ parallelBatches count minBatchSize tasks,
      r.2 ≤ count ∧ (r.1 ≤ r.2 ∨ r.1 = minBatchSize ∧ count < minBatchSize) := by
  intro r hr
  obtain ⟨t, ht, rfl⟩ := List.mem_map.mp hr
  have hordered := tasks.ordered t ht
  have hbounded := tasks.bounded t ht
  have hend : (if t.2 = taskCount count minBatchSize then count else t.2 * minBatchSize) ≤ count :=
    itemOf_le hbounded
  rw [batchCallback_eq hc hm hordered hbounded]
  refine ⟨hend, ?_⟩
  simp only
  split
  · rename_i hlast
    rcases Nat.lt_or_ge count minBatchSize with hs | hs
    · rw [taskCount_eq_one hs] at hlast
      have ht1 : t.1 = 0 ∨ t.1 = 1 := by omega
      rcases ht1 with h0 | h1
      · rw [h0, Nat.zero_mul]
        exact .inl (Nat.zero_le _)
      · rw [h1, Nat.one_mul]
        exact .inr ⟨rfl, hs⟩
    · rw [← hlast] at hbounded
      exact .inl ((Nat.mul_le_mul_right _ (hlast ▸ hordered)).trans (taskCount_mul_le hs))
  · exact .inl (Nat.mul_le_mul_right _ hordered)

/-- Every item is in some batch. -/
theorem parallelBatches_cover (hc : count < sizeMod) (hm : minBatchSize < sizeMod)
    (h0 : 0 < minBatchSize) (tasks : TaskRanges (taskCount count minBatchSize)) {i : ℕ}
    (hi : i < count) : ∃ r ∈ parallelBatches count minBatchSize tasks, r.1 ≤ i ∧ i < r.2 := by
  have hone := tasks.covered (taskOf count minBatchSize i) taskOf_lt
  obtain ⟨q, hq, hp⟩ := List.countP_pos_iff.mp (hone ▸ Nat.one_pos)
  obtain ⟨h1, h2⟩ : q.1 ≤ taskOf count minBatchSize i ∧ taskOf count minBatchSize i < q.2 := by
    simpa using hp
  refine ⟨_, List.mem_map_of_mem hq, ?_⟩
  rw [batchCallback_eq_itemOf hc hm (tasks.ordered q hq) (tasks.bounded q hq)
    (.inl (h1.trans_lt taskOf_lt))]
  refine ⟨(itemOf_le_iff h0 hi ((tasks.ordered q hq).trans (tasks.bounded q hq))).mpr h1, ?_⟩
  have hnot := (itemOf_le_iff h0 hi (tasks.bounded q hq)).not.mpr (not_le.mpr h2)
  exact not_le.mp hnot

end

/-- Two rows in one batch, then the empty range `[1, 1)` that the contract
allows. -/
def trailingEmptyRange : TaskRanges (taskCount 3 2) where
  ranges := [(0, 1), (1, 1)]
  ordered := by decide
  bounded := by decide
  covered := by decide

theorem batches_exact_iff_trailingEmptyRange :
    BatchesExact 3 2 trailingEmptyRange.ranges
        (kleidicvThreadBatchCallback (parallelBatchesContext 3 2)) ↔
      (∀ r ∈ trailingEmptyRange.ranges, r.1 < taskCount 3 2) ∨
        2 ∣ 3 ∧ 2 ≤ 3 :=
  batches_exact_iff trailingEmptyRange (by decide) (by decide) (by decide)

/-- With three rows in batches of two, the calls `[0, 1)` and `[1, 1)` both
process row 2. -/
theorem trailing_empty_range_repeats_items :
    ¬ ∀ (count minBatchSize : ℕ) (_ : count < sizeMod) (_ : minBatchSize < sizeMod)
      (_ : 1 ≤ minBatchSize)
      (tasks : TaskRanges (taskCount count minBatchSize)),
      BatchesExact count minBatchSize tasks.ranges
        (kleidicvThreadBatchCallback (parallelBatchesContext count minBatchSize)) := by
  intro h
  have hpw := (h 3 2 (by decide) (by decide) (by decide) trailingEmptyRange).disjoint
  have : kleidicvThreadBatchCallback (parallelBatchesContext 3 2) (0, 1) = (0, 3) := by decide
  have : kleidicvThreadBatchCallback (parallelBatchesContext 3 2) (1, 1) = (2, 3) := by decide
  simp only [trailingEmptyRange, List.map_cons, List.map_nil, List.pairwise_cons] at hpw
  exact hpw.1 (2, 3) (by simp_all) 2 (by simp_all)

end KleidiCV
