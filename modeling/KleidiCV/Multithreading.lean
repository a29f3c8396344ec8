/-
Running an operation in batches under a caller-supplied scheduler.

`kleidicv_thread_multithreading` is modelled by what one invocation of its
`parallel` function does: the task ranges it calls the callback with, in the
order the calls take effect, and the code it returns.
-/
import KleidiCV.Lib.Partition
import KleidiCV.ParallelBatches

namespace KleidiCV

/-- A scheduler under its contract, for one invocation with `taskCount` tasks.
It reports an error exactly when some callback did. -/
structure Multithreading (taskCount : ℕ) where
  tasks : TaskRanges taskCount
  result : List KleidicvError → KleidicvError
  result_ok : ∀ errors, (∀ e ∈ errors, e = .ok) → result errors = .ok
  result_error : ∀ errors, (∃ e ∈ errors, e ≠ .ok) → result errors ≠ .ok

/-- The scheduler that makes one call for all tasks. -/
def Multithreading.serial (taskCount : ℕ) : Multithreading taskCount where
  tasks :=
    { ranges := [(0, taskCount)]
      ordered := by simp
      bounded := by simp
      covered := fun t ht => by simp [ht] }
  result := fun errors => (errors.find? (fun error => error ≠ .ok)).getD .ok
  result_ok := fun errors h => by
    rw [List.find?_eq_none.mpr fun e he => by simp [h e he], Option.getD_none]
  result_error := fun errors ⟨e, he, hne⟩ => by
    cases hfind : errors.find? (fun error => error ≠ .ok) with
    | none => exact absurd (List.find?_eq_none.mp hfind e he) (by simpa using hne)
    | some x => simpa using List.find?_some hfind

/-- The scheduler that makes a call for each task. -/
def Multithreading.perTask (taskCount : ℕ) : Multithreading taskCount :=
  { serial taskCount with
    tasks :=
      { ranges := (List.range taskCount).map fun t => (t, t + 1)
        ordered := List.forall_mem_map.mpr fun t _ => Nat.le_succ t
        bounded := List.forall_mem_map.mpr fun _ ht => List.mem_range.mp ht
        covered := fun t ht => by
          rw [List.countP_map]
          refine (List.countP_congr fun u _ => ?_).trans
            (List.count_eq_one_of_mem List.nodup_range (List.mem_range.mpr ht))
          simp only [Function.comp_apply, decide_eq_true_eq, beq_iff_eq]
          omega } }

/-- A scheduler that answers with a code of a callback. -/
def Multithreading.HandsOn {taskCount : ℕ} (mt : Multithreading taskCount) : Prop :=
  ∀ errors, mt.result errors = .ok ∨ mt.result errors ∈ errors

theorem Multithreading.serial_handsOn (taskCount : ℕ) : (serial taskCount).HandsOn := by
  intro errors
  change (errors.find? (fun error => error ≠ .ok)).getD .ok = .ok ∨
    (errors.find? (fun error => error ≠ .ok)).getD .ok ∈ errors
  cases hfind : errors.find? (fun error => error ≠ .ok) with
  | none => exact .inl rfl
  | some x => exact .inr (List.mem_of_find?_eq_some hfind)

/-- The scheduler that makes one call for all tasks and has a code of its own for
errors. -/
def Multithreading.answering (taskCount : ℕ) (code : KleidicvError) (hcode : code ≠ .ok) :
    Multithreading taskCount where
  tasks := (serial taskCount).tasks
  result := fun errors => if ∀ e ∈ errors, e = .ok then .ok else code
  result_ok := fun _ h => if_pos h
  result_error := fun errors ⟨e, he, hne⟩ => by
    rwa [if_neg fun h => hne (h e he)]

/-- One call of the callback; the codes returned so far are kept. -/
def batchStep {σ : Type*} (callback : ℕ → ℕ → σ → KleidicvError × σ)
    (acc : List KleidicvError × σ) (batch : ℕ × ℕ) : List KleidicvError × σ :=
  let (error, s) := callback batch.1 batch.2 acc.2
  (acc.1 ++ [error], s)

/-- `parallel_batches`: the callback is run for each batch, and the scheduler
turns the codes of the callbacks into one. -/
def runParallelBatches {σ : Type*} (callback : ℕ → ℕ → σ → KleidicvError × σ)
    (count minBatchSize : ℕ) (mt : Multithreading (taskCount count minBatchSize)) (s : σ) :
    KleidicvError × σ :=
  let run := (parallelBatches count minBatchSize mt.tasks).foldl (batchStep callback) ([], s)
  (mt.result run.1, run.2)

/-- Batches of single items cover the items without overlap. -/
theorem parallelBatches_isPartition {count : ℕ} (hc : count < sizeMod) (h0 : 0 < count)
    (tasks : TaskRanges (taskCount count 1)) :
    IsPartition count (parallelBatches count 1 tasks) := by
  have h := batchesExact_of_no_stretch tasks hc (by norm_num [sizeMod]) Nat.one_pos
    (.inr ⟨one_dvd _, h0⟩)
  refine ⟨fun r hr => ?_, h.disjoint, h.cover⟩
  obtain ⟨t, ht, rfl⟩ := List.mem_map.mp hr
  exact h.bounds t ht

variable {σ : Type*} {callback : ℕ → ℕ → σ → KleidicvError × σ}

variable (callback) in
/-- What every call carries on, from the batches done before it and the codes
they returned. -/
theorem foldl_batchStep_invariant (inv : List (ℕ × ℕ) → List KleidicvError → σ → Prop)
    {l : List (ℕ × ℕ)} {s : σ} (h0 : inv [] [] s)
    (hs : ∀ done r errors s, done ++ [r] <+: l → inv done errors s →
      inv (done ++ [r]) (errors ++ [(callback r.1 r.2 s).1]) (callback r.1 r.2 s).2) :
    inv l (l.foldl (batchStep callback) ([], s)).1 (l.foldl (batchStep callback) ([], s)).2 := by
  have key : ∀ rest done errors s, done ++ rest = l → inv done errors s →
      inv l (rest.foldl (batchStep callback) (errors, s)).1
        (rest.foldl (batchStep callback) (errors, s)).2 := by
    intro rest
    induction rest with
    | nil =>
      rintro done errors s rfl h
      simpa only [List.append_nil, List.foldl_nil] using h
    | cons r rest ih =>
      intro done errors s hl h
      have hl' : (done ++ [r]) ++ rest = l := by simpa using hl
      exact ih _ _ _ hl' (hs done r errors s ⟨rest, hl'⟩ h)
  exact key l [] [] s rfl h0

variable (callback) in
/-- The state after all batches, whatever codes they return. -/
theorem runParallelBatches_state {count minBatchSize : ℕ}
    (mt : Multithreading (taskCount count minBatchSize)) (s : σ) :
    (runParallelBatches callback count minBatchSize mt s).2 =
      (parallelBatches count minBatchSize mt.tasks).foldl (fun s r => (callback r.1 r.2 s).2) s :=
  foldl_batchStep_invariant callback
    (fun done _ t => t = done.foldl (fun s r => (callback r.1 r.2 s).2) s) rfl
    (by
      rintro done r errors _ - rfl
      rw [List.foldl_append]
      rfl)

variable (callback) in
/-- The batches of a callback that always succeeds. -/
theorem runParallelBatches_of_ok {count minBatchSize : ℕ} {f : ℕ → ℕ → σ → σ}
    (mt : Multithreading (taskCount count minBatchSize)) (s : σ)
    (hf : ∀ b e s, callback b e s = (.ok, f b e s)) :
    runParallelBatches callback count minBatchSize mt s =
      (.ok, (parallelBatches count minBatchSize mt.tasks).foldl (fun s r => f r.1 r.2 s) s) := by
  obtain ⟨herrors, hstate⟩ := foldl_batchStep_invariant callback
    (fun done errors t => (∀ e ∈ errors, e = .ok) ∧ t = done.foldl (fun s r => f r.1 r.2 s) s)
    (l := parallelBatches count minBatchSize mt.tasks) (s := s) ⟨by simp, rfl⟩ (by
      rintro done r errors _ - ⟨herrors, rfl⟩
      simp only [hf, List.foldl_append, List.foldl_cons, List.foldl_nil, and_true]
      intro e he
      exact (List.mem_append.mp he).elim (herrors e) List.mem_singleton.mp)
  exact Prod.ext (mt.result_ok _ herrors) hstate

variable (callback) in
/-- Every callback returns the same code, and there is a callback. -/
theorem runParallelBatches_error {count minBatchSize : ℕ} {error : KleidicvError}
    (mt : Multithreading (taskCount count minBatchSize)) (s : σ)
    (hcode : ∀ b e s, (callback b e s).1 = error) :
    ∃ errors, errors ≠ [] ∧ (∀ e ∈ errors, e = error) ∧
      (runParallelBatches callback count minBatchSize mt s).1 = mt.result errors := by
  obtain ⟨hlength, herrors⟩ := foldl_batchStep_invariant callback
    (fun done errors _ => errors.length = done.length ∧ ∀ e ∈ errors, e = error)
    (l := parallelBatches count minBatchSize mt.tasks) (s := s) ⟨rfl, by simp⟩ (by
      rintro done r errors s - ⟨hlength, herrors⟩
      refine ⟨by simp [hlength], fun e he => ?_⟩
      rcases List.mem_append.mp he with he | he
      · exact herrors e he
      · rw [List.mem_singleton.mp he]
        exact hcode r.1 r.2 s)
  refine ⟨_, fun hnil => ?_, herrors, rfl⟩
  -- Task 0 is in one of the ranges.
  have hfirst := mt.tasks.covered 0 (Nat.lt_of_lt_of_le Nat.one_pos (le_max_left _ _))
  rw [hnil, parallelBatches, List.length_map, List.length_nil] at hlength
  rw [List.eq_nil_of_length_eq_zero hlength.symm, List.countP_nil] at hfirst
  exact absurd hfirst (by decide)

variable (callback) in
/-- A code that every callback returns is the code of the run, where it is `.ok` or
the scheduler hands codes on. -/
theorem runParallelBatches_error_eq {count minBatchSize : ℕ} {error : KleidicvError}
    (mt : Multithreading (taskCount count minBatchSize)) (s : σ)
    (hcode : ∀ b e s, (callback b e s).1 = error) (h : error = .ok ∨ mt.HandsOn) :
    (runParallelBatches callback count minBatchSize mt s).1 = error := by
  obtain ⟨errors, hne, herrors, hrun⟩ := runParallelBatches_error callback mt s hcode
  rw [hrun]
  by_cases hok : error = .ok
  · rw [hok]
    exact mt.result_ok errors fun e he => (herrors e he).trans hok
  · obtain ⟨e, he⟩ := List.exists_mem_of_ne_nil errors hne
    have hfail := mt.result_error errors ⟨e, he, by rwa [herrors e he]⟩
    rcases (h.resolve_left hok) errors with hres | hres
    · exact absurd hres hfail
    · exact herrors _ hres

variable (callback) in
/-- A scheduler may have a code of its own. -/
theorem runParallelBatches_answering {count minBatchSize : ℕ} {error code : KleidicvError}
    (hne : code ≠ .ok) (s : σ) (hcode : ∀ b e s, (callback b e s).1 = error) (h : error ≠ .ok) :
    (runParallelBatches callback count minBatchSize (.answering _ code hne) s).1 = code := by
  obtain ⟨errors, hnil, herrors, hrun⟩ :=
    runParallelBatches_error callback (.answering _ code hne) s hcode
  obtain ⟨e, he⟩ := List.exists_mem_of_ne_nil errors hnil
  rw [hrun]
  exact if_neg fun hall => h ((herrors e he).symm.trans (hall e he))

/-- A scheduler answers with `.ok` exactly if all codes are. -/
theorem Multithreading.result_eq_ok_iff {taskCount : ℕ} (mt : Multithreading taskCount)
    {errors : List KleidicvError} : mt.result errors = .ok ↔ ∀ e ∈ errors, e = .ok := by
  refine ⟨fun h => ?_, mt.result_ok errors⟩
  by_contra hcon
  push Not at hcon
  exact mt.result_error errors hcon h

end KleidiCV
