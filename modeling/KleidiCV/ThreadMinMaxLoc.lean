/-
`kleidicv_thread_min_max_loc_u8`: the locations of the extrema, in batches.

Every batch writes its offsets into the slot of its first row; the slots of the
other rows keep offset 0.  The reduction afterwards looks at every slot, in the
order of the rows, and keeps the first of equal values.

* `reduceOffset_eq` — the reduction finds the first extremum if the slot of its
  batch does and no slot before it names a later pixel;
* `runBatches_slots` — what the slots hold after the batches;
* `thread_min_max_loc_iff` — when the threaded call refines the single call.
-/
import KleidiCV.MinMaxLoc
import KleidiCV.Multithreading

open Loop

namespace KleidiCV

/-- `HeapArray<size_t>::allocate_and_fill`, as far as it can fail: `malloc` says
whether memory is there. -/
def allocateAndFill (malloc : Bool) (count : ℕ) : Bool :=
  if count = 0 then true
  else if (sizeMod - 1) / 8 < count then false
  else malloc

/-- What the batches share: `min_offsets`, `max_offsets`, and the source
addresses read so far. -/
structure MinMaxLocSlots where
  minOffsets : ℕ → ℕ
  maxOffsets : ℕ → ℕ
  reads : List ℕ

/-- Both arrays after `allocate_and_fill(value_count, 0)`. -/
def MinMaxLocSlots.initial : MinMaxLocSlots := ⟨fun _ => 0, fun _ => 0, []⟩

/-- The loop of `reduce_offset`: the result, and the addresses read. -/
def reduceLoop (e : Extremum) (m : Mem) (src srcStride : ℕ) (offsets : ℕ → ℕ) (count : ℕ)
    (reads : List ℕ) : ℕ × List ℕ :=
  forRange count
    (fun i (result, reads) =>
      let offset := offsets i + i * srcStride
      (if e.better (m (src + offset)) (m (src + result)) then offset else result,
        reads ++ [src + offset, src + result]))
    (0, reads)

/-- `reduce_offset`; a null `result` returns at once. -/
def reduceOffset (e : Extremum) (m : Mem) (src srcStride : ℕ) (offsets : ℕ → ℕ) (count : ℕ)
    (result : Option ℕ) (reads : List ℕ) : Option ℕ × List ℕ :=
  match result with
  | none => (none, reads)
  | some _ =>
    let (result, reads) := reduceLoop e m src srcStride offsets count reads
    (some result, reads)

section

variable (m : Mem) (src srcStride width : ℕ)

/-- The callback of `parallel_min_max_loc`; no state is left if a call did not
end. -/
def minMaxLocCallback (pMinOffset pMaxOffset : Option ℕ) (begin_ end_ : ℕ) :
    Option MinMaxLocSlots → KleidicvError × Option MinMaxLocSlots
  | none => (.ok, none)
  | some slots =>
    match kleidicvMinMaxLocU8 m (src + begin_ * srcStride) srcStride width (sizeSub end_ begin_)
        (pMinOffset.map fun _ => slots.minOffsets begin_)
        (pMaxOffset.map fun _ => slots.maxOffsets begin_) with
    | none => (.ok, none)
    | some r =>
      (r.error, some
        { minOffsets := r.minOffset.elim slots.minOffsets (Function.update slots.minOffsets begin_)
          maxOffsets := r.maxOffset.elim slots.maxOffsets (Function.update slots.maxOffsets begin_)
          reads := slots.reads ++ r.reads })

/-- `kleidicv_thread_min_max_loc_u8`; the two Booleans say whether memory is
there for `min_offsets` and `max_offsets`. -/
def kleidicvThreadMinMaxLocU8 (height : ℕ) (pMinOffset pMaxOffset : Option ℕ)
    (minMalloc maxMalloc : Bool) (mt : Multithreading (taskCount height 1)) :
    Option MinMaxLocResult :=
  let valueCount := max 1 height
  if (pMinOffset.isSome && !allocateAndFill minMalloc valueCount) ||
      (pMaxOffset.isSome && !allocateAndFill maxMalloc valueCount) then
    some ⟨.allocation, pMinOffset, pMaxOffset, []⟩
  else
    let (returnVal, slots) := runParallelBatches
      (minMaxLocCallback m src srcStride width pMinOffset pMaxOffset) height 1 mt
      (some MinMaxLocSlots.initial)
    slots.map fun slots =>
      let (minOffset, reads) :=
        reduceOffset .minimum m src srcStride slots.minOffsets height pMinOffset slots.reads
      let (maxOffset, reads) :=
        reduceOffset .maximum m src srcStride slots.maxOffsets height pMaxOffset reads
      ⟨returnVal, minOffset, maxOffset, reads⟩

end

/-! ### The reduction -/

section

variable {e : Extremum} {m : Mem} {src srcStride width : ℕ} {offsets : ℕ → ℕ}

/-- The offset of a pixel, counted from an earlier row. -/
theorem offsetForIndex_add (row k : ℕ) (hwidth : 0 < width) :
    offsetForIndex srcStride (row * width + k) width =
      row * srcStride + offsetForIndex srcStride k width := by
  rw [offsetForIndex, offsetForIndex, Nat.mul_comm row width, Nat.mul_add_div hwidth,
    Nat.mul_add_mod, Nat.add_mul, Nat.add_assoc]

/-- The candidates `c i` of the slots are pixels of the image; candidate `b` is
the first extremum `K` and those before it are earlier pixels.  A slot that is
not better than the result is passed over, so nothing behind `b` counts. -/
theorem reduceLoop_eq {count K b N : ℕ} {c : ℕ → ℕ} {reads : List ℕ}
    (hK : FirstMin (fun k => e.key (m (src + offsetForIndex srcStride k width))) {k | k < N} K)
    (hc : ∀ i < count, offsets i + i * srcStride = offsetForIndex srcStride (c i) width ∧ c i < N)
    (hb : b < count) (hcb : c b = K) (hbefore : ∀ i < b, c i < K) :
    (reduceLoop e m src srcStride offsets count reads).1 = offsetForIndex srcStride K width := by
  let f : ℕ → ℕ := fun k => e.key (m (src + offsetForIndex srcStride k width))
  obtain ⟨j, hj, -, hend⟩ := forRange_invariant (n := count)
    (fun i (s : ℕ × List ℕ) => ∃ j, s.1 = offsetForIndex srcStride j width ∧
      (j = K ∨ f K < f j) ∧ (b < i → j = K))
    (f := fun i (s : ℕ × List ℕ) =>
      (if e.better (m (src + (offsets i + i * srcStride))) (m (src + s.1)) then
        offsets i + i * srcStride else s.1,
        s.2 ++ [src + (offsets i + i * srcStride), src + s.1]))
    (s := (0, reads))
    (by
      refine ⟨0, by simp [offsetForIndex], ?_, fun h => absurd h (Nat.not_lt_zero b)⟩
      rcases Nat.eq_zero_or_pos K with h0 | hpos
      · exact .inl h0.symm
      · exact .inr (hK.lt_of_lt (hpos.trans hK.mem) hpos))
    (by
      rintro i hi ⟨r, reads⟩ ⟨j, hj, hbest, hfound⟩
      simp only at hj
      obtain ⟨hoffset, hmem⟩ := hc i hi
      simp only [hoffset, hj]
      have hiff := e.better_iff (m (src + offsetForIndex srcStride (c i) width))
        (m (src + offsetForIndex srcStride j width))
      split
      · rename_i hbetter
        have hlt : f (c i) < f j := hiff.mp hbetter
        refine ⟨c i, rfl, ?_, fun hbi => ?_⟩
        · rcases lt_trichotomy i b with h | rfl | h
          · exact .inr (hK.lt_of_lt hmem (hbefore i h))
          · exact .inl hcb
          · rw [hfound h] at hlt
            exact absurd hlt (hK.le _ hmem).not_gt
        · rcases Nat.lt_succ_iff_lt_or_eq.mp hbi with h | rfl
          · rw [hfound h] at hlt
            exact absurd hlt (hK.le _ hmem).not_gt
          · exact hcb
      · rename_i hbetter
        refine ⟨j, rfl, hbest, fun hbi => ?_⟩
        rcases Nat.lt_succ_iff_lt_or_eq.mp hbi with h | rfl
        · exact hfound h
        · refine hbest.resolve_right fun hlt => hbetter (hiff.mpr ?_)
          rw [hcb]
          exact hlt)
  rw [← hend hb, ← hj]
  rfl

end

/-! ### The batches -/

/-- The slot array of a direction. -/
def MinMaxLocSlots.offsets (s : MinMaxLocSlots) (e : Extremum) : ℕ → ℕ :=
  e.pick s.minOffsets s.maxOffsets

/-- `slot` is the offset, from the first row of the batch, of the first extremum
of the rows of a batch. -/
def BatchFirst (e : Extremum) (m : Mem) (src srcStride width : ℕ) (batch : ℕ × ℕ) (slot : ℕ) :
    Prop :=
  ∃ k, slot = offsetForIndex srcStride k width ∧
    FirstMin (fun k => e.key (m (src + batch.1 * srcStride + offsetForIndex srcStride k width)))
      {k | k < width * (batch.2 - batch.1)} k

section

variable {m : Mem} {src srcStride width height : ℕ} {pMinOffset pMaxOffset : Option ℕ}
  {slots : MinMaxLocSlots} {b e : ℕ}

variable (m pMinOffset pMaxOffset slots) in
/-- A batch that the operation rejects changes nothing. -/
theorem minMaxLocCallback_rejected
    (h : minMaxLocAccepts (src + b * srcStride) width (sizeSub e b) = false) :
    ∃ error ≠ .ok, minMaxLocCallback m src srcStride width pMinOffset pMaxOffset b e (some slots) =
      (error, some slots) := by
  obtain ⟨error, herror, hcall⟩ := kleidicvMinMaxLocU8_rejected m srcStride h
    (pMinOffset.map fun _ => slots.minOffsets b) (pMaxOffset.map fun _ => slots.maxOffsets b)
  refine ⟨error, herror, ?_⟩
  simp only [minMaxLocCallback, hcall, List.append_nil]
  cases pMinOffset <;> cases pMaxOffset <;> simp

variable (m pMinOffset pMaxOffset slots) in
/-- A batch that the operation accepts fills the slots of its first row. -/
theorem minMaxLocCallback_accepted
    (h : minMaxLocAccepts (src + b * srcStride) width (sizeSub e b) = true) :
    ∃ slots', minMaxLocCallback m src srcStride width pMinOffset pMaxOffset b e (some slots) =
        (.ok, some slots') ∧ slots.reads.length < slots'.reads.length ∧
      ∀ d : Extremum, (d.pick pMinOffset pMaxOffset).isSome = true →
        BatchFirst d m src srcStride width (b, b + sizeSub e b) (slots'.offsets d b) ∧
        ∀ i ≠ b, slots'.offsets d i = slots.offsets d i := by
  obtain ⟨kmin, kmax, reads, hcall, hreads, hmin, hmax⟩ := kleidicvMinMaxLocU8_spec m srcStride h
    (pMinOffset.map fun _ => slots.minOffsets b) (pMaxOffset.map fun _ => slots.maxOffsets b)
  obtain ⟨-, -, hwidth, hheight⟩ := minMaxLocAccepts_iff.mp h
  have hcallback := minMaxLocCallback.eq_2 m src srcStride width pMinOffset pMaxOffset b e slots
  rw [hcall] at hcallback
  refine ⟨_, hcallback, ?_, ?_⟩
  · have := Nat.mul_pos hwidth hheight
    simp only [List.length_append]
    omega
  · intro d hd
    rw [BatchFirst, Nat.add_sub_cancel_left]
    cases d with
    | minimum =>
      obtain ⟨x, rfl⟩ := Option.isSome_iff_exists.mp hd
      exact ⟨⟨kmin, by simp [MinMaxLocSlots.offsets, Extremum.pick], hmin⟩,
        fun i hi => by simp [MinMaxLocSlots.offsets, Extremum.pick, hi]⟩
    | maximum =>
      obtain ⟨x, rfl⟩ := Option.isSome_iff_exists.mp hd
      exact ⟨⟨kmax, by simp [MinMaxLocSlots.offsets, Extremum.pick], hmax⟩,
        fun i hi => by simp [MinMaxLocSlots.offsets, Extremum.pick, hi]⟩

/-- With at least one row, a task is a row. -/
theorem parallelBatches_rows (hheight : 0 < height) (hlt : height < sizeMod)
    (tasks : TaskRanges (taskCount height 1)) : parallelBatches height 1 tasks = tasks.ranges := by
  have htask : taskCount height 1 = height := by simp [taskCount, Nat.succ_le_of_lt hheight]
  refine (List.map_congr_left fun r hr => ?_).trans (List.map_id _)
  rw [batchCallback_eq hlt (by norm_num [sizeMod]) (tasks.ordered r hr) (tasks.bounded r hr)]
  refine Prod.ext (Nat.mul_one _) ?_
  simp only [Nat.mul_one, htask]
  split
  · rename_i h
    exact h.symm
  · rfl

variable (m src srcStride width pMinOffset pMaxOffset slots) in
/-- The state of the batches stays defined, and what was read stays read. -/
theorem runBatches_defined (mt : Multithreading (taskCount height 1)) :
    ∃ slots', (runParallelBatches (minMaxLocCallback m src srcStride width pMinOffset pMaxOffset)
        height 1 mt (some slots)).2 = some slots' ∧
      ((∃ r ∈ parallelBatches height 1 mt.tasks,
        minMaxLocAccepts (src + r.1 * srcStride) width (sizeSub r.2 r.1) = true) →
        slots'.reads ≠ []) := by
  obtain ⟨slots', hs, -, hreads⟩ := foldl_batchStep_invariant
    (minMaxLocCallback m src srcStride width pMinOffset pMaxOffset)
    (fun done _ s => ∃ slots', s = some slots' ∧ slots.reads.length ≤ slots'.reads.length ∧
      ∀ r ∈ done, minMaxLocAccepts (src + r.1 * srcStride) width (sizeSub r.2 r.1) = true →
        slots'.reads ≠ [])
    (l := parallelBatches height 1 mt.tasks) (s := some slots) ⟨slots, rfl, le_rfl, by simp⟩ (by
      rintro done r errors _ - ⟨t, rfl, hle, hdone⟩
      cases haccepts : minMaxLocAccepts (src + r.1 * srcStride) width (sizeSub r.2 r.1) with
      | false =>
        obtain ⟨error, -, hcall⟩ := minMaxLocCallback_rejected m pMinOffset pMaxOffset t
          haccepts
        refine ⟨t, by rw [hcall], hle, fun q hq => ?_⟩
        rcases List.mem_append.mp hq with hq | hq
        · exact hdone q hq
        · rw [List.mem_singleton.mp hq, haccepts]
          exact fun h => absurd h (by decide)
      | true =>
        obtain ⟨t', hcall, hlt, -⟩ := minMaxLocCallback_accepted m pMinOffset pMaxOffset t
          haccepts
        refine ⟨t', by rw [hcall], by omega, fun q _ _ => ?_⟩
        exact List.ne_nil_of_length_pos (by omega))
  exact ⟨slots', hs, fun ⟨r, hr, h⟩ => hreads r hr h⟩

/-- A call of the scheduler that the operation rejects makes the whole call
fail. -/
theorem runBatches_error (mt : Multithreading (taskCount height 1)) {r : ℕ × ℕ}
    (hr : r ∈ parallelBatches height 1 mt.tasks)
    (hrejected : minMaxLocAccepts (src + r.1 * srcStride) width (sizeSub r.2 r.1) = false) :
    (runParallelBatches (minMaxLocCallback m src srcStride width pMinOffset pMaxOffset) height 1 mt
      (some slots)).1 ≠ .ok := by
  obtain ⟨-, -, herror⟩ := foldl_batchStep_invariant
    (minMaxLocCallback m src srcStride width pMinOffset pMaxOffset)
    (fun done errors s => ∃ slots', s = some slots' ∧
      (r ∈ done → ∃ error ∈ errors, error ≠ .ok))
    (l := parallelBatches height 1 mt.tasks) (s := some slots) ⟨slots, rfl, by simp⟩ (by
      rintro done q errors _ - ⟨t, rfl, hdone⟩
      have hkeep : r ∈ done → ∀ error, ∃ x ∈ errors ++ [error], x ≠ .ok := by
        intro h error
        obtain ⟨x, hx, hne⟩ := hdone h
        exact ⟨x, List.mem_append_left _ hx, hne⟩
      cases haccepts : minMaxLocAccepts (src + q.1 * srcStride) width (sizeSub q.2 q.1) with
      | false =>
        obtain ⟨error, hne, hcall⟩ := minMaxLocCallback_rejected m pMinOffset pMaxOffset t
          haccepts
        rw [hcall]
        exact ⟨t, rfl, fun _ => ⟨error, by simp, hne⟩⟩
      | true =>
        obtain ⟨t', hcall, -⟩ := minMaxLocCallback_accepted m pMinOffset pMaxOffset t
          haccepts
        rw [hcall]
        refine ⟨t', rfl, fun hmem => ?_⟩
        rcases List.mem_append.mp hmem with h | h
        · exact hkeep h _
        · rw [List.mem_singleton.mp h, haccepts] at hrejected
          exact absurd hrejected (by decide))
  exact mt.result_error _ (herror hr)

variable (m srcStride pMinOffset pMaxOffset) in
/-- Batches of at least one row fill the slots of their first rows, and no
others. -/
theorem runBatches_slots (mt : Multithreading (taskCount height 1)) (hlt : height < sizeMod)
    (haccepts : minMaxLocAccepts src width height = true)
    (hnonempty : ∀ r ∈ mt.tasks.ranges, r.1 < r.2) :
    ∃ slots', runParallelBatches (minMaxLocCallback m src srcStride width pMinOffset pMaxOffset)
        height 1 mt (some MinMaxLocSlots.initial) = (.ok, some slots') ∧
      ∀ d : Extremum, (d.pick pMinOffset pMaxOffset).isSome = true →
        (∀ r ∈ mt.tasks.ranges, BatchFirst d m src srcStride width r (slots'.offsets d r.1)) ∧
        ∀ i, (∀ r ∈ mt.tasks.ranges, r.1 ≠ i) → slots'.offsets d i = 0 := by
  obtain ⟨hsrc, hpixels, hwidth, hheight⟩ := minMaxLocAccepts_iff.mp haccepts
  have hbatches := parallelBatches_rows hheight hlt mt.tasks
  have hexact := batchesExact_of_no_stretch mt.tasks hlt (by norm_num [sizeMod]) Nat.one_pos
    (.inr ⟨one_dvd _, hheight⟩)
  -- Batches of at least one row begin at different rows.
  have hdistinct : mt.tasks.ranges.Pairwise fun a b => a.1 ≠ b.1 := by
    have hdisjoint := hexact.disjoint
    change (parallelBatches height 1 mt.tasks).Pairwise _ at hdisjoint
    rw [hbatches] at hdisjoint
    refine hdisjoint.imp_of_mem fun {p q} hp hq hpq heq => hpq p.1 ?_
    have h1 := hnonempty p hp
    have h2 := hnonempty q hq
    omega
  have hbounds : ∀ r ∈ mt.tasks.ranges, r.2 ≤ height := by
    have htask : taskCount height 1 = height := by simp [taskCount, Nat.succ_le_of_lt hheight]
    exact fun r hr => (mt.tasks.bounded r hr).trans htask.le
  obtain ⟨herrors, slots', hs, hslots⟩ := foldl_batchStep_invariant
    (minMaxLocCallback m src srcStride width pMinOffset pMaxOffset)
    (fun done errors s => (∀ error ∈ errors, error = .ok) ∧ ∃ slots', s = some slots' ∧
      ∀ d : Extremum, (d.pick pMinOffset pMaxOffset).isSome = true →
        (∀ r ∈ done, BatchFirst d m src srcStride width r (slots'.offsets d r.1)) ∧
        ∀ i, (∀ r ∈ done, r.1 ≠ i) → slots'.offsets d i = 0)
    (l := parallelBatches height 1 mt.tasks) (s := some MinMaxLocSlots.initial)
    ⟨by simp, _, rfl, fun d _ => ⟨by simp, fun i _ => by cases d <;> rfl⟩⟩ (by
      rintro done r errors _ hsplit ⟨herrors, t, rfl, ht⟩
      rw [hbatches] at hsplit
      have hr : r ∈ mt.tasks.ranges := hsplit.subset (by simp)
      have hnew : ∀ q ∈ done, q.1 ≠ r.1 := fun q hq =>
        (List.pairwise_append.mp (hdistinct.sublist hsplit.sublist)).2.2 q hq r (by simp)
      have hlt' := hnonempty r hr
      have hle := hbounds r hr
      have hsub : sizeSub r.2 r.1 = r.2 - r.1 := sizeSub_eq hlt'.le (by omega)
      have hbatch : minMaxLocAccepts (src + r.1 * srcStride) width (sizeSub r.2 r.1) = true := by
        rw [minMaxLocAccepts_iff, hsub]
        exact ⟨by omega, (Nat.mul_le_mul_left width (by omega)).trans hpixels, hwidth, by omega⟩
      obtain ⟨t', hcall, -, ht'⟩ := minMaxLocCallback_accepted m pMinOffset pMaxOffset t
          hbatch
      rw [hcall]
      refine ⟨fun error herror => ?_, t', rfl, fun d hd => ⟨fun q hq => ?_, fun i hi => ?_⟩⟩
      · exact (List.mem_append.mp herror).elim (herrors error) List.mem_singleton.mp
      · rcases List.mem_append.mp hq with hq | hq
        · rw [(ht' d hd).2 q.1 (hnew q hq)]
          exact (ht d hd).1 q hq
        · rw [List.mem_singleton.mp hq]
          have := (ht' d hd).1
          rwa [hsub, Nat.add_sub_cancel' hlt'.le] at this
      · rw [(ht' d hd).2 i fun heq => hi r (by simp) heq.symm]
        exact (ht d hd).2 i fun q hq => hi q (List.mem_append_left _ hq))
  rw [hbatches] at hslots
  exact ⟨slots', Prod.ext (mt.result_ok _ herrors) hs, hslots⟩

/-- The reduction over the slots of batches that tile the image. -/
theorem reduceLoop_slots {d : Extremum} {offsets : ℕ → ℕ} {K : ℕ} {reads : List ℕ}
    (tasks : TaskRanges (taskCount height 1)) (hlt : height < sizeMod) (hwidth : 0 < width)
    (hheight : 0 < height) (hnonempty : ∀ r ∈ tasks.ranges, r.1 < r.2)
    (hfirst : ∀ r ∈ tasks.ranges, BatchFirst d m src srcStride width r (offsets r.1))
    (hzero : ∀ i, (∀ r ∈ tasks.ranges, r.1 ≠ i) → offsets i = 0)
    (hK : FirstMin (fun k => d.key (m (src + offsetForIndex srcStride k width)))
      {k | k < width * height} K) :
    (reduceLoop d m src srcStride offsets height reads).1 = offsetForIndex srcStride K width := by
  have hbatches := parallelBatches_rows hheight hlt tasks
  have hexact := batchesExact_of_no_stretch tasks hlt (by norm_num [sizeMod]) Nat.one_pos
    (.inr ⟨one_dvd _, hheight⟩)
  have htask : taskCount height 1 = height := by simp [taskCount, Nat.succ_le_of_lt hheight]
  have hbounds : ∀ r ∈ tasks.ranges, r.2 ≤ height := fun r hr => (tasks.bounded r hr).trans htask.le
  have hdisjoint := hexact.disjoint
  change (parallelBatches height 1 tasks).Pairwise _ at hdisjoint
  rw [hbatches] at hdisjoint
  -- The batch of the extremum.
  have hrow : K / width < height := Nat.div_lt_of_lt_mul hK.mem
  obtain ⟨r0, hr0, hcover⟩ := List.countP_pos_iff.mp
    ((tasks.covered (K / width) (htask.symm ▸ hrow)) ▸ Nat.one_pos)
  simp only [decide_eq_true_eq] at hcover
  have hr0K : r0.1 * width ≤ K := (Nat.le_div_iff_mul_le hwidth).mp hcover.1
  have hslot : ∀ r ∈ tasks.ranges, ∃ k < width * (r.2 - r.1),
      offsets r.1 + r.1 * srcStride = offsetForIndex srcStride (r.1 * width + k) width ∧
      (r = r0 → r.1 * width + k = K) := by
    intro r hr
    obtain ⟨k, hslot, hk⟩ := hfirst r hr
    have hval : ∀ k, m (src + r.1 * srcStride + offsetForIndex srcStride k width) =
        m (src + offsetForIndex srcStride (r.1 * width + k) width) := fun k => by
      rw [offsetForIndex_add r.1 k hwidth, Nat.add_assoc]
    refine ⟨k, hk.mem, by rw [hslot, offsetForIndex_add r.1 k hwidth, Nat.add_comm], ?_⟩
    rintro rfl
    have hinside : ∀ k < width * (r.2 - r.1), r.1 * width + k < width * height := by
      intro k hk
      have h1 : width * (r.1 + (r.2 - r.1)) ≤ width * height :=
        Nat.mul_le_mul_left width (by have := hbounds r hr; have := hnonempty r hr; omega)
      rw [Nat.mul_add, Nat.mul_comm width r.1] at h1
      omega
    have hKend : K < width * r.2 := Nat.lt_mul_of_div_lt hcover.2 hwidth |>.trans_eq (Nat.mul_comm _ _)
    -- The extremum of the image is that of its batch.
    have hsame := hk.unique (q := K - r.1 * width) (by
      refine ⟨?_, fun j hj => ?_, fun j hj heq => ?_⟩
      · have h1 : width * r.2 = r.1 * width + width * (r.2 - r.1) := by
          rw [Nat.mul_comm r.1, ← Nat.mul_add, Nat.add_sub_cancel' (hnonempty r hr).le]
        have : K - r.1 * width < width * (r.2 - r.1) := by omega
        exact this
      · simp only [hval, Nat.add_sub_cancel' hr0K]
        exact hK.le _ (hinside j hj)
      · simp only [hval, Nat.add_sub_cancel' hr0K] at heq
        have := hK.first _ (hinside j hj) heq
        omega)
    omega
  have hcandidate : ∀ i, ∃ c, i < height →
      offsets i + i * srcStride = offsetForIndex srcStride c width ∧ c < width * height ∧
      (i = r0.1 → c = K) ∧ (i < r0.1 → c < K) := by
    intro i
    by_cases hi : ∃ r ∈ tasks.ranges, r.1 = i
    · obtain ⟨r, hr, rfl⟩ := hi
      obtain ⟨k, hk, hoffset, hsame⟩ := hslot r hr
      have hne := hnonempty r hr
      have hend : r.1 * width + k < width * r.2 := by
        have : width * r.2 = r.1 * width + width * (r.2 - r.1) := by
          rw [Nat.mul_comm r.1, ← Nat.mul_add, Nat.add_sub_cancel' hne.le]
        omega
      refine ⟨r.1 * width + k, fun _ => ⟨hoffset,
        hend.trans_le (Nat.mul_le_mul_left _ (hbounds r hr)), fun heq => ?_, fun hbefore => ?_⟩⟩
      · refine hsame ?_
        by_contra hdiff
        have : Std.Symm fun a b : ℕ × ℕ =>
            ∀ i, ¬((a.1 ≤ i ∧ i < a.2) ∧ b.1 ≤ i ∧ i < b.2) := ⟨fun _ _ hab i hi => hab i hi.symm⟩
        have := hnonempty r0 hr0
        exact hdisjoint.forall hr hr0 hdiff r.1 (by omega)
      · -- A batch that begins before that of the extremum ends before it.
        have hdiff : r ≠ r0 := fun h => by rw [h] at hbefore; exact lt_irrefl _ hbefore
        have : Std.Symm fun a b : ℕ × ℕ =>
            ∀ i, ¬((a.1 ≤ i ∧ i < a.2) ∧ b.1 ≤ i ∧ i < b.2) := ⟨fun _ _ hab i hi => hab i hi.symm⟩
        have hend0 := hdisjoint.forall hr hr0 hdiff r0.1
        have hlen0 := hnonempty r0 hr0
        have hle : r.2 ≤ r0.1 := by omega
        calc r.1 * width + k < width * r.2 := hend
          _ ≤ width * r0.1 := Nat.mul_le_mul_left _ hle
          _ ≤ K := by rw [Nat.mul_comm]; exact hr0K
    · push Not at hi
      refine ⟨i * width, fun hlt => ⟨?_, ?_, fun h => absurd h.symm (hi r0 hr0), fun h => ?_⟩⟩
      · rw [hzero i hi, ← Nat.add_zero (i * width), offsetForIndex_add i 0 hwidth]
        simp [offsetForIndex]
      · rw [Nat.mul_comm]
        exact Nat.mul_lt_mul_of_pos_left hlt hwidth
      · exact (Nat.mul_lt_mul_of_pos_right h hwidth).trans_le hr0K
  choose c hc using hcandidate
  have hr0lt : r0.1 < height := lt_of_le_of_lt hcover.1 hrow
  exact reduceLoop_eq hK (fun i hi => ⟨(hc i hi).1, (hc i hi).2.1⟩) hr0lt ((hc _ hr0lt).2.2.1 rfl)
    fun i hi => (hc i (hi.trans hr0lt)).2.2.2 hi

end

/-! ### The threaded call and the single call -/

/-- The variable behind an output pointer: none behind a null pointer. -/
def outputBefore (pointer : Bool) (before : ℕ) : Option ℕ := if pointer then some before else none

/-- The arrays that the output pointers ask for can be had. -/
def minMaxLocAllocates (pMinOffset pMaxOffset minMalloc maxMalloc : Bool) (height : ℕ) : Bool :=
  (!pMinOffset || allocateAndFill minMalloc (max 1 height)) &&
    (!pMaxOffset || allocateAndFill maxMalloc (max 1 height))

section

variable {m : Mem} {src srcStride width height : ℕ} {pMinOffset pMaxOffset minMalloc maxMalloc : Bool}
  {mt : Multithreading (taskCount height 1)}

/-- The threaded call does what the single call does on the whole image, whatever
the output variables hold before: the same offsets, or an error with nothing
read and nothing written. -/
def MinMaxLocRefines (m : Mem) (src srcStride width height : ℕ)
    (pMinOffset pMaxOffset minMalloc maxMalloc : Bool) (mt : Multithreading (taskCount height 1)) :
    Prop :=
  ∀ minBefore maxBefore : ℕ, ∃ single threaded,
    kleidicvMinMaxLocU8 m src srcStride width height (outputBefore pMinOffset minBefore)
      (outputBefore pMaxOffset maxBefore) = some single ∧
    kleidicvThreadMinMaxLocU8 m src srcStride width height (outputBefore pMinOffset minBefore)
      (outputBefore pMaxOffset maxBefore) minMalloc maxMalloc mt = some threaded ∧
    if single.error = .ok then
      threaded.error = .ok ∧ threaded.minOffset = single.minOffset ∧
        threaded.maxOffset = single.maxOffset
    else
      threaded.error ≠ .ok ∧ threaded.reads = [] ∧
        threaded.minOffset = outputBefore pMinOffset minBefore ∧
        threaded.maxOffset = outputBefore pMaxOffset maxBefore

@[simp] theorem outputBefore_isSome (pointer : Bool) (before : ℕ) :
    (outputBefore pointer before).isSome = pointer := by
  cases pointer <;> rfl

theorem noMemory_eq (pMinOffset pMaxOffset minMalloc maxMalloc : Bool) (height : ℕ) :
    (pMinOffset && !allocateAndFill minMalloc (max 1 height) ||
      pMaxOffset && !allocateAndFill maxMalloc (max 1 height)) =
    !minMaxLocAllocates pMinOffset pMaxOffset minMalloc maxMalloc height := by
  simp only [minMaxLocAllocates, Bool.not_and, Bool.not_or, Bool.not_not]

theorem kleidicvThreadMinMaxLocU8_noMemory
    (h : minMaxLocAllocates pMinOffset pMaxOffset minMalloc maxMalloc height = false)
    (minBefore maxBefore : ℕ) :
    kleidicvThreadMinMaxLocU8 m src srcStride width height (outputBefore pMinOffset minBefore)
        (outputBefore pMaxOffset maxBefore) minMalloc maxMalloc mt =
      some ⟨.allocation, outputBefore pMinOffset minBefore, outputBefore pMaxOffset maxBefore,
        []⟩ := by
  simp only [kleidicvThreadMinMaxLocU8, outputBefore_isSome, noMemory_eq, h, Bool.not_false,
    if_true]

/-- With memory, the call is the batches followed by both reductions. -/
theorem kleidicvThreadMinMaxLocU8_eq
    (h : minMaxLocAllocates pMinOffset pMaxOffset minMalloc maxMalloc height = true)
    (minBefore maxBefore : ℕ) {returnVal : KleidicvError} {slots : MinMaxLocSlots}
    (hrun : runParallelBatches (minMaxLocCallback m src srcStride width
      (outputBefore pMinOffset minBefore) (outputBefore pMaxOffset maxBefore)) height 1 mt
      (some MinMaxLocSlots.initial) = (returnVal, some slots)) :
    ∃ reads, (pMinOffset = false → pMaxOffset = false → reads = slots.reads) ∧
      kleidicvThreadMinMaxLocU8 m src srcStride width height (outputBefore pMinOffset minBefore)
        (outputBefore pMaxOffset maxBefore) minMalloc maxMalloc mt =
      some ⟨returnVal,
        (outputBefore pMinOffset minBefore).map fun _ =>
          (reduceLoop .minimum m src srcStride slots.minOffsets height slots.reads).1,
        (outputBefore pMaxOffset maxBefore).map fun _ =>
          (reduceLoop .maximum m src srcStride slots.maxOffsets height []).1, reads⟩ := by
  -- The result of a reduction does not depend on what has been read before.
  have hreads : ∀ (e : Extremum) offsets count reads reads',
      (reduceLoop e m src srcStride offsets count reads).1 =
        (reduceLoop e m src srcStride offsets count reads').1 := by
    intro e offsets count reads reads'
    refine forRange_rel (fun _ (s t : ℕ × List ℕ) => s.1 = t.1) rfl fun i _ s t hst => ?_
    simp only [hst]
  let afterMin := reduceOffset .minimum m src srcStride slots.minOffsets height
    (outputBefore pMinOffset minBefore) slots.reads
  refine ⟨(reduceOffset .maximum m src srcStride slots.maxOffsets height
    (outputBefore pMaxOffset maxBefore) afterMin.2).2, ?_, ?_⟩
  · rintro rfl rfl
    rfl
  · simp only [kleidicvThreadMinMaxLocU8, outputBefore_isSome, noMemory_eq, h, Bool.not_true,
      Bool.false_eq_true, if_false, hrun, Option.map_some, Option.some.injEq,
      MinMaxLocResult.mk.injEq, true_and]
    refine ⟨?_, ?_, rfl⟩
    · cases pMinOffset <;> rfl
    · cases pMaxOffset
      · rfl
      · exact congrArg some (hreads _ _ _ _ _)

/-- The callback does not look at what the output variables hold. -/
theorem minMaxLocCallback_before (a b a' b' : ℕ) :
    minMaxLocCallback m src srcStride width (outputBefore pMinOffset a) (outputBefore pMaxOffset b) =
      minMaxLocCallback m src srcStride width (outputBefore pMinOffset a')
        (outputBefore pMaxOffset b') := by
  funext begin_ end_ s
  cases s with
  | none => rfl
  | some slots => cases pMinOffset <;> cases pMaxOffset <;> rfl

/-- On an accepted image, batches of at least one row give what the single call
gives. -/
theorem refines_of_accepts (hheight : height < sizeMod)
    (haccepts : minMaxLocAccepts src width height = true)
    (hmemory : minMaxLocAllocates pMinOffset pMaxOffset minMalloc maxMalloc height = true)
    (hnonempty : ∀ r ∈ mt.tasks.ranges, r.1 < r.2) :
    MinMaxLocRefines m src srcStride width height pMinOffset pMaxOffset minMalloc maxMalloc mt := by
  intro minBefore maxBefore
  obtain ⟨-, -, hwidth, hpos⟩ := minMaxLocAccepts_iff.mp haccepts
  obtain ⟨kmin, kmax, reads, hsingle, -, hmin, hmax⟩ := kleidicvMinMaxLocU8_spec m
    srcStride haccepts (outputBefore pMinOffset minBefore)
    (outputBefore pMaxOffset maxBefore)
  obtain ⟨slots, hrun, hslots⟩ := runBatches_slots m srcStride
    (outputBefore pMinOffset minBefore) (outputBefore pMaxOffset maxBefore) mt hheight haccepts hnonempty
  obtain ⟨reads', -, hthreaded⟩ := kleidicvThreadMinMaxLocU8_eq hmemory minBefore maxBefore hrun
  refine ⟨_, _, hsingle, hthreaded, ?_⟩
  rw [if_pos rfl]
  refine ⟨rfl, ?_, ?_⟩
  · cases pMinOffset with
    | false => rfl
    | true =>
      obtain ⟨hfirst, hzero⟩ := hslots .minimum rfl
      exact congrArg some
        (reduceLoop_slots mt.tasks hheight hwidth hpos hnonempty hfirst hzero hmin)
  · cases pMaxOffset with
    | false => rfl
    | true =>
      obtain ⟨hfirst, hzero⟩ := hslots .maximum rfl
      exact congrArg some
        (reduceLoop_slots mt.tasks hheight hwidth hpos hnonempty hfirst hzero hmax)

/-- On an accepted image, missing memory or an empty batch is an error. -/
theorem accepts_of_refines (hheight : height < sizeMod)
    (haccepts : minMaxLocAccepts src width height = true)
    (h : MinMaxLocRefines m src srcStride width height pMinOffset pMaxOffset minMalloc maxMalloc mt) :
    minMaxLocAllocates pMinOffset pMaxOffset minMalloc maxMalloc height = true ∧
      ∀ r ∈ mt.tasks.ranges, r.1 < r.2 := by
  obtain ⟨-, -, hwidth, hpos⟩ := minMaxLocAccepts_iff.mp haccepts
  obtain ⟨single, threaded, hsingle, hthreaded, hrel⟩ := h 0 0
  obtain ⟨kmin, kmax, reads, hcall, -⟩ := kleidicvMinMaxLocU8_spec m srcStride
    haccepts (outputBefore pMinOffset 0) (outputBefore pMaxOffset 0)
  obtain rfl := Option.some.inj (hsingle.symm.trans hcall)
  rw [if_pos rfl] at hrel
  have hmemory : minMaxLocAllocates pMinOffset pMaxOffset minMalloc maxMalloc height = true := by
    by_contra hno
    rw [Bool.not_eq_true] at hno
    obtain rfl := Option.some.inj
      (hthreaded.symm.trans (kleidicvThreadMinMaxLocU8_noMemory hno 0 0))
    exact KleidicvError.noConfusion hrel.1
  refine ⟨hmemory, fun r hr => ?_⟩
  by_contra hempty
  have hr' : r ∈ parallelBatches height 1 mt.tasks := by
    rwa [parallelBatches_rows hpos hheight]
  have hrejected : minMaxLocAccepts (src + r.1 * srcStride) width (sizeSub r.2 r.1) = false := by
    have heq : r.2 = r.1 := le_antisymm (not_lt.mp hempty) (mt.tasks.ordered r hr)
    have htask : taskCount height 1 = height := by simp [taskCount, Nat.succ_le_of_lt hpos]
    have hle := (mt.tasks.bounded r hr).trans htask.le
    rw [heq, sizeSub_eq le_rfl (by omega), Nat.sub_self]
    simp [minMaxLocAccepts]
  obtain ⟨slots, hslots, -⟩ := runBatches_defined m src srcStride width
    (outputBefore pMinOffset 0) (outputBefore pMaxOffset 0) .initial mt
  obtain ⟨reads', -, heq⟩ := kleidicvThreadMinMaxLocU8_eq hmemory 0 0 (Prod.ext rfl hslots)
  obtain rfl := Option.some.inj (hthreaded.symm.trans heq)
  exact runBatches_error mt hr' hrejected hrel.1

/-- On a rejected image, what goes wrong is the reduction, or a batch that is
accepted. -/
theorem rejected_of_refines (hrejected : minMaxLocAccepts src width height = false)
    (h : MinMaxLocRefines m src srcStride width height pMinOffset pMaxOffset minMalloc maxMalloc mt)
    (hmemory : minMaxLocAllocates pMinOffset pMaxOffset minMalloc maxMalloc height = true) :
    pMinOffset = false ∧ pMaxOffset = false ∧ ∀ r ∈ parallelBatches height 1 mt.tasks,
      minMaxLocAccepts (src + r.1 * srcStride) width (sizeSub r.2 r.1) = false := by
  obtain ⟨slots, hslots, haccepted⟩ := runBatches_defined m src srcStride width
    (outputBefore pMinOffset 0) (outputBefore pMaxOffset 0) .initial mt
  have houtcome : ∀ a b, ∃ reads,
      (pMinOffset = false → pMaxOffset = false → reads = slots.reads) ∧ reads = [] ∧
      ((outputBefore pMinOffset a).map fun _ =>
        (reduceLoop .minimum m src srcStride slots.minOffsets height slots.reads).1) =
          outputBefore pMinOffset a ∧
      ((outputBefore pMaxOffset b).map fun _ =>
        (reduceLoop .maximum m src srcStride slots.maxOffsets height []).1) =
          outputBefore pMaxOffset b := by
    intro a b
    obtain ⟨single, threaded, hsingle, hthreaded, hrel⟩ := h a b
    obtain ⟨error, herror, hcall⟩ := kleidicvMinMaxLocU8_rejected m srcStride
      hrejected (outputBefore pMinOffset a) (outputBefore pMaxOffset b)
    obtain rfl := Option.some.inj (hsingle.symm.trans hcall)
    rw [minMaxLocCallback_before 0 0 a b] at hslots
    obtain ⟨reads, hreads, heq⟩ := kleidicvThreadMinMaxLocU8_eq hmemory a b (Prod.ext rfl hslots)
    obtain rfl := Option.some.inj (hthreaded.symm.trans heq)
    rw [if_neg herror] at hrel
    exact ⟨reads, hreads, hrel.2.1, hrel.2.2⟩
  obtain ⟨reads, hreads, hnil, hmin0, hmax0⟩ := houtcome 0 0
  obtain ⟨-, -, -, hmin1, hmax1⟩ := houtcome 1 1
  -- A result that equals every former content of its variable does not exist.
  have hmin : pMinOffset = false := by
    cases pMinOffset with
    | false => rfl
    | true => exact absurd ((Option.some.inj hmin0).symm.trans (Option.some.inj hmin1)) (by decide)
  have hmax : pMaxOffset = false := by
    cases pMaxOffset with
    | false => rfl
    | true => exact absurd ((Option.some.inj hmax0).symm.trans (Option.some.inj hmax1)) (by decide)
  refine ⟨hmin, hmax, fun r hr => ?_⟩
  by_contra haccepts
  rw [Bool.not_eq_false] at haccepts
  exact haccepted ⟨r, hr, haccepts⟩ ((hreads hmin hmax).symm.trans hnil)

/-- On a rejected image, an error without any trace. -/
theorem refines_of_rejected
    (hrejected : minMaxLocAccepts src width height = false)
    (h : minMaxLocAllocates pMinOffset pMaxOffset minMalloc maxMalloc height = false ∨
      pMinOffset = false ∧ pMaxOffset = false ∧ ∀ r ∈ parallelBatches height 1 mt.tasks,
        minMaxLocAccepts (src + r.1 * srcStride) width (sizeSub r.2 r.1) = false) :
    MinMaxLocRefines m src srcStride width height pMinOffset pMaxOffset minMalloc maxMalloc mt := by
  intro a b
  obtain ⟨error, herror, hsingle⟩ := kleidicvMinMaxLocU8_rejected m srcStride
    hrejected (outputBefore pMinOffset a) (outputBefore pMaxOffset b)
  cases hmemory : minMaxLocAllocates pMinOffset pMaxOffset minMalloc maxMalloc height with
  | false =>
    refine ⟨_, _, hsingle, kleidicvThreadMinMaxLocU8_noMemory hmemory a b, ?_⟩
    rw [if_neg herror]
    exact ⟨fun h => KleidicvError.noConfusion h, rfl, rfl, rfl⟩
  | true =>
    obtain ⟨rfl, rfl, hbatches⟩ := h.resolve_left (by rw [hmemory]; decide)
    -- Every batch is rejected, so the slots and the reads stay as they began.
    have hslots := foldl_batchStep_invariant
      (minMaxLocCallback m src srcStride width (outputBefore false a) (outputBefore false b))
      (fun _ _ s => s = some MinMaxLocSlots.initial) (l := parallelBatches height 1 mt.tasks)
      (s := some .initial) rfl (by
        rintro done r errors _ hsplit rfl
        obtain ⟨error, -, hcall⟩ := minMaxLocCallback_rejected m
          (outputBefore false a) (outputBefore false b) .initial (hbatches r (hsplit.subset (by simp)))
        rw [hcall])
    obtain ⟨r, hr⟩ : ∃ r, r ∈ parallelBatches height 1 mt.tasks := by
      obtain ⟨t, ht, -⟩ := List.countP_pos_iff.mp
        ((mt.tasks.covered 0 (Nat.lt_of_lt_of_le Nat.one_pos one_le_taskCount)) ▸ Nat.one_pos)
      exact ⟨_, List.mem_map_of_mem ht⟩
    obtain ⟨reads, hreads, heq⟩ := kleidicvThreadMinMaxLocU8_eq hmemory a b (Prod.ext rfl hslots)
    refine ⟨_, _, hsingle, heq, ?_⟩
    rw [if_neg herror]
    exact ⟨runBatches_error mt hr (hbatches r hr), hreads rfl rfl, rfl, rfl⟩

/-- **The threaded search.**  On an accepted image the threaded call refines the
single call exactly when its arrays can be had and no scheduled range is empty.
On a rejected image it does so exactly when an array cannot be had, or nothing
is asked for and every batch is rejected by itself. -/
theorem thread_min_max_loc_iff (hheight : height < sizeMod) :
    MinMaxLocRefines m src srcStride width height pMinOffset pMaxOffset minMalloc maxMalloc mt ↔
      if minMaxLocAccepts src width height = true then
        minMaxLocAllocates pMinOffset pMaxOffset minMalloc maxMalloc height = true ∧
          ∀ r ∈ mt.tasks.ranges, r.1 < r.2
      else
        minMaxLocAllocates pMinOffset pMaxOffset minMalloc maxMalloc height = false ∨
          pMinOffset = false ∧ pMaxOffset = false ∧ ∀ r ∈ parallelBatches height 1 mt.tasks,
            minMaxLocAccepts (src + r.1 * srcStride) width (sizeSub r.2 r.1) = false := by
  split
  · rename_i haccepts
    exact ⟨accepts_of_refines hheight haccepts,
      fun h => refines_of_accepts hheight haccepts h.1 h.2⟩
  · rename_i hrejected
    rw [Bool.not_eq_true] at hrejected
    refine ⟨fun h => ?_, refines_of_rejected hrejected⟩
    cases hmemory : minMaxLocAllocates pMinOffset pMaxOffset minMalloc maxMalloc height with
    | false => exact .inl rfl
    | true => exact .inr (rejected_of_refines hrejected h hmemory)

end

theorem thread_min_max_loc_iff_twoRows :
    MinMaxLocRefines (fun _ => 0) 1 1 1 2 true false true true (.serial 2) ↔
      if minMaxLocAccepts 1 1 2 = true then
        minMaxLocAllocates true false true true 2 = true ∧
          ∀ r ∈ (Multithreading.serial 2).tasks.ranges, r.1 < r.2
      else
        minMaxLocAllocates true false true true 2 = false ∨
          true = false ∧ false = false ∧
            ∀ r ∈ parallelBatches 2 1 (Multithreading.serial 2).tasks,
              minMaxLocAccepts (1 + r.1 * 1) 1 (sizeSub r.2 r.1) = false :=
  thread_min_max_loc_iff (by decide)

/-- An image without rows is an error, but the output variables are set to 0. -/
theorem thread_min_max_loc_writes_on_error :
    ¬MinMaxLocRefines (fun _ => 0) 1 1 1 0 true true true true (.serial 1) := by
  intro h
  obtain ⟨single, threaded, hsingle, hthreaded, hrel⟩ := h 5 5
  obtain rfl := Option.some.inj (hsingle.symm.trans
    (show _ = some ⟨.range, some 5, some 5, []⟩ by decide))
  obtain rfl := Option.some.inj (hthreaded.symm.trans
    (show _ = some ⟨.range, some 0, some 0, []⟩ by decide))
  exact absurd hrel (by decide)

end KleidiCV
