/-
The ranges of columns that the loop objects of `utils.h` and `operations.h` give to their
callbacks, and that their loops end.

The loops are written as in the source, with fuel.  With enough of it they are the closed forms
that the operations of this development are made of, and the ranges that they run through cover
the data.

* `LoopUnroll2.runNTimes_eq`, `LoopUnroll.runNTimes_eq`, `RowOperation.runRow_eq` — the loops
  end, as the closed forms;
* `LoopUnroll2.chain_covered`, `LoopUnroll.chain_covered`, `RowOperation.runRow_covered` — what
  they run through;
* `loops_cover` — all columns are covered, once where no vector is moved back.
-/
import KleidiCV.Lib.Tiles
import KleidiCV.Lib.WhileLoop
import KleidiCV.LoopUnroll2
import KleidiCV.Operations

open Loop

namespace KleidiCV

/-- How a chain of calls ends, after those of `unroll_n_times`. -/
inductive LoopEnd
  | unrolled
  | tail
  | remaining

/-- A callback that notes the `count` columns it is for. -/
def noteColumns (count index : ℕ) (ranges : List (ℕ × ℕ)) : List (ℕ × ℕ) :=
  ranges ++ [(index, index + count)]

/-- What callbacks one after the other note. -/
theorem tiles_noteColumns {first index count : ℕ} {ranges : List (ℕ × ℕ)} (hcount : 0 < count)
    (h : Tiles first ranges index) (steps : ℕ) :
    Tiles first (forRange steps (fun i => noteColumns count (index + i * count)) ranges)
      (index + steps * count) := by
  refine forRange_invariant (fun i ranges => Tiles first ranges (index + i * count)) ?_
    fun i _ ranges hi => ?_
  · rw [Nat.zero_mul, Nat.add_zero]
    exact h
  · rw [Nat.succ_mul, ← Nat.add_assoc]
    exact hi.concat (Nat.lt_add_of_pos_right hcount)

/-- The ranges lead from `first` to `length`, except that the last of them may have been moved
back to be `step` columns long. -/
def Covering (first length step : ℕ) (avoidTail : Bool) (ranges : List (ℕ × ℕ)) : Prop :=
  Tiles first ranges length ∨
    (avoidTail = true ∧ step ≤ length ∧ ∃ front reached,
      ranges = front ++ [(length - step, length)] ∧ Tiles first front reached ∧
        length - step < reached ∧ reached < length)

/-- All columns are covered, and only the last range may overlap those before it. -/
structure Covered (first length step : ℕ) (avoidTail : Bool) (ranges : List (ℕ × ℕ)) : Prop where
  inside : ∀ r ∈ ranges, r.1 < r.2 ∧ r.2 ≤ length
  cover : ∀ i, first ≤ i → i < length → ∃ r ∈ ranges, r.1 ≤ i ∧ i < r.2
  once : avoidTail = false → (∀ r ∈ ranges, first ≤ r.1) ∧
    ranges.Pairwise fun r q => ∀ i, ¬((r.1 ≤ i ∧ i < r.2) ∧ q.1 ≤ i ∧ i < q.2)
  overlap : (ranges.Pairwise fun r q => ∀ i, ¬((r.1 ≤ i ∧ i < r.2) ∧ q.1 ≤ i ∧ i < q.2)) ∨
    step ≤ length ∧ ∃ front, ranges = front ++ [(length - step, length)] ∧
      (first = 0 → front ≠ []) ∧
      front.Pairwise fun r q => ∀ i, ¬((r.1 ≤ i ∧ i < r.2) ∧ q.1 ≤ i ∧ i < q.2)

theorem Covering.covered {first length step : ℕ} {avoidTail : Bool} {ranges : List (ℕ × ℕ)}
    (h : Covering first length step avoidTail ranges) :
    Covered first length step avoidTail ranges := by
  rcases h with h | ⟨havoid, hfull, front, reached, rfl, hfront, hlt, hle⟩
  · exact {
      inside := fun r hr => (h.bounds r hr).2
      cover := fun i h1 h2 => h.cover h1 h2
      once := fun _ => ⟨fun r hr => (h.bounds r hr).1, h.disjoint⟩
      overlap := Or.inl h.disjoint }
  · refine ⟨fun r hr => ?_, fun i h1 h2 => ?_, fun hnot => ?_, Or.inr ⟨hfull, front, rfl, ?_,
      hfront.disjoint⟩⟩
    · rcases List.mem_append.mp hr with hr | hr
      · have := hfront.bounds r hr
        omega
      · obtain rfl := List.mem_singleton.mp hr
        simp only
        omega
    · rcases Nat.lt_or_ge i reached with hi | hi
      · obtain ⟨r, hr, hmem⟩ := hfront.cover h1 hi
        exact ⟨r, List.mem_append_left _ hr, hmem⟩
      · exact ⟨(length - step, length), List.mem_append_right _ (List.mem_singleton_self _),
          by simp only; omega, h2⟩
    · rw [havoid] at hnot
      contradiction
    · rintro rfl rfl
      obtain rfl : 0 = reached := hfront
      omega

/-! ### The loops of `LoopUnroll2` -/

namespace LoopUnroll2

variable {σ : Type*}

/-- `while (index < maxIndex) { callback(index); index += nStep; }`. -/
def innerLoop (fuel nStep : ℕ) (callback : ℕ → σ → σ) (maxIndex : ℕ) : ℕ × σ → Option (ℕ × σ) :=
  whileLoop (fun t => decide (t.1 < maxIndex)) (fun t => some (t.1 + nStep, callback t.1 t.2)) fuel

/-- The body of the loop around it, which ends with a vector that is moved back.  `max_index` is
carried along. -/
def outerRound (fuel nStep : ℕ) (callback : ℕ → σ → σ) (length : ℕ) (t : ℕ × ℕ × σ) :
    Option (ℕ × ℕ × σ) := do
  let (index, s) ← innerLoop fuel nStep callback t.1 t.2
  if length - index ≠ 0 then some (length, length - nStep, s) else some (t.1, index, s)

/-- `while (index < length)`. -/
def outerLoop (fuel nStep : ℕ) (callback : ℕ → σ → σ) (length rounds : ℕ) :
    ℕ × ℕ × σ → Option (ℕ × ℕ × σ) :=
  whileLoop (fun t => decide (t.2.1 < length)) (outerRound fuel nStep callback length) rounds

/-- `unroll_n_times`, loop by loop. -/
def runNTimes (fuel unrollFactor : ℕ) (callback : ℕ → σ → σ) (p : LoopUnroll2 × σ) :
    Option (LoopUnroll2 × σ) :=
  let (loop, s) := p
  let nStep := unrollFactor * loop.step
  let maxIndex := loop.index + loop.remainingLength / nStep * nStep
  if loop.tryToAvoidTailLoop && unrollFactor == 1 then
    if nStep ≤ loop.length then
      (outerLoop fuel nStep callback loop.length fuel (maxIndex, loop.index, s)).map fun t =>
        ({ loop with index := t.2.1 }, t.2.2)
    else some (loop, s)
  else (innerLoop fuel nStep callback maxIndex (loop.index, s)).map fun t =>
    ({ loop with index := t.1 }, t.2)

/-- `tail`, as a loop. -/
def runTail (fuel : ℕ) (callback : ℕ → σ → σ) (p : LoopUnroll2 × σ) : Option (LoopUnroll2 × σ) :=
  (whileLoop (fun t : ℕ × σ => decide (t.1 < p.1.length))
    (fun t => some (t.1 + 1, callback t.1 t.2)) fuel (p.1.index, p.2)).map fun t =>
      ({ p.1 with index := t.1 }, t.2)

theorem innerLoop_eq {fuel nStep : ℕ} (hstep : 0 < nStep) (callback : ℕ → σ → σ) (index : ℕ)
    {rounds : ℕ} (hfuel : rounds ≤ fuel) (s : σ) :
    innerLoop fuel nStep callback (index + rounds * nStep) (index, s) =
      some (index + rounds * nStep, forRange rounds (fun i => callback (index + i * nStep)) s) := by
  have hstart : (index, s) =
      (index + 0 * nStep, forRange 0 (fun i => callback (index + i * nStep)) s) := by simp
  rw [innerLoop, hstart]
  refine whileLoop_counted _ _
    (fun i => (index + i * nStep, forRange i (fun i => callback (index + i * nStep)) s))
    (fun i hi => ?_) (fun i _ => ?_) ?_ hfuel
  · have := Nat.mul_lt_mul_of_pos_right hi hstep
    exact decide_eq_true (by omega)
  · rw [forRange_succ, Nat.succ_mul, Nat.add_assoc]
  · exact decide_eq_false (Nat.lt_irrefl _)

section

variable {fuel nStep : ℕ} (callback : ℕ → σ → σ) (length : ℕ)

theorem outerLoop_round {t t' : ℕ × ℕ × σ} (h : t.2.1 < length)
    (hround : outerRound fuel nStep callback length t = some t') (rounds : ℕ) :
    outerLoop fuel nStep callback length (rounds + 1) t =
      outerLoop fuel nStep callback length rounds t' := by
  exact whileLoop_round (fun t : ℕ × ℕ × σ => decide (t.2.1 < length)) (decide_eq_true h) hround
    rounds

theorem outerLoop_of_le {t : ℕ × ℕ × σ} (h : length ≤ t.2.1) (rounds : ℕ) :
    outerLoop fuel nStep callback length rounds t = some t := by
  exact whileLoop_of_not (fun t : ℕ × ℕ × σ => decide (t.2.1 < length))
    (decide_eq_false (Nat.not_lt.mpr h)) rounds

/-- One round, after which the vector at the end is left or nothing is. -/
theorem outerRound_eq (hstep : 0 < nStep) (index : ℕ) {count : ℕ} (hfuel : count ≤ fuel) (s : σ) :
    outerRound fuel nStep callback length (index + count * nStep, index, s) =
      if length - (index + count * nStep) ≠ 0 then
        some (length, length - nStep, forRange count (fun i => callback (index + i * nStep)) s)
      else some (index + count * nStep, index + count * nStep,
        forRange count (fun i => callback (index + i * nStep)) s) := by
  rw [outerRound, innerLoop_eq hstep callback index hfuel s]
  rfl

/-- The loop ends after two rounds. -/
theorem outerLoop_eq (hstep : 0 < nStep) (hfull : nStep ≤ length) {index count : ℕ}
    (hle : index + count * nStep ≤ length) (hfuel : count ≤ fuel) (hpos : 1 ≤ fuel) {rounds : ℕ}
    (hrounds : 2 ≤ rounds) (s : σ) :
    ∃ maxIndex, outerLoop fuel nStep callback length rounds (index + count * nStep, index, s) =
      some (maxIndex, length,
        if length - (index + count * nStep) ≠ 0 then
          callback (length - nStep) (forRange count (fun i => callback (index + i * nStep)) s)
        else forRange count (fun i => callback (index + i * nStep)) s) := by
  obtain ⟨rounds, rfl⟩ := Nat.exists_eq_add_of_le' hrounds
  by_cases hlast : length - (index + count * nStep) = 0
  · have hend : index + count * nStep = length := by omega
    rw [if_neg (not_not.mpr hlast)]
    rcases Nat.eq_zero_or_pos count with rfl | hcount
    · rw [Nat.zero_mul, Nat.add_zero] at hend ⊢
      subst hend
      exact ⟨_, outerLoop_of_le callback index le_rfl _⟩
    · have hlt : index < length := by
        have := Nat.mul_pos hcount hstep
        omega
      have hround := outerRound_eq callback length hstep index hfuel s
      rw [if_neg (not_not.mpr hlast)] at hround
      rw [outerLoop_round callback length hlt hround, outerLoop_of_le callback length hend.ge, hend]
      exact ⟨length, rfl⟩
  · -- The second round is for the vector that is moved back.
    have hround := outerRound_eq callback length hstep index hfuel s
    rw [if_pos hlast] at hround
    have hagain := outerRound_eq callback length hstep (length - nStep) hpos
      (forRange count (fun i => callback (index + i * nStep)) s)
    rw [Nat.one_mul, Nat.sub_add_cancel hfull, Nat.sub_self, if_neg (not_not.mpr rfl), forRange_succ,
      forRange_zero, Nat.zero_mul, Nat.add_zero] at hagain
    rw [outerLoop_round callback length (show index < length by omega) hround,
      outerLoop_round callback length (show length - nStep < length by omega) hagain,
      outerLoop_of_le callback length le_rfl, if_pos hlast]
    exact ⟨length, rfl⟩

end

/-- Both loops end, and do what the closed form does. -/
theorem runNTimes_eq {fuel unrollFactor : ℕ} {loop : LoopUnroll2}
    (hstep : 0 < unrollFactor * loop.step) (hle : loop.index ≤ loop.length)
    (hfuel : loop.length + 2 ≤ fuel) (callback : ℕ → σ → σ) (s : σ) :
    runNTimes fuel unrollFactor callback (loop, s) =
      some (unrollNTimes unrollFactor callback (loop, s)) := by
  have hmax := Nat.div_mul_le_self loop.remainingLength (unrollFactor * loop.step)
  have hcount : loop.remainingLength / (unrollFactor * loop.step) ≤ fuel :=
    (Nat.div_le_self _ _).trans ((Nat.sub_le _ _).trans (by omega))
  have hend : loop.index + loop.remainingLength / (unrollFactor * loop.step) *
      (unrollFactor * loop.step) ≤ loop.length := by
    rw [remainingLength] at hmax ⊢
    omega
  simp only [runNTimes, unrollNTimes]
  split
  next havoid =>
    split
    next hfull =>
      obtain ⟨maxIndex, hloop⟩ := outerLoop_eq callback loop.length hstep hfull hend hcount
        (show 1 ≤ fuel by omega) (show 2 ≤ fuel by omega) s
      rw [hloop, Option.map_some]
      split
      next => rfl
      next hlast =>
        have hindex := Nat.le_antisymm hend (Nat.le_of_sub_eq_zero (not_not.mp hlast))
        rw [hindex]
    next => rfl
  next =>
    rw [innerLoop_eq hstep callback loop.index hcount s]
    rfl

theorem runTail_eq {fuel : ℕ} {loop : LoopUnroll2} (hle : loop.index ≤ loop.length)
    (hfuel : loop.length ≤ fuel) (callback : ℕ → σ → σ) (s : σ) :
    runTail fuel callback (loop, s) = some (tail callback (loop, s)) := by
  have hloop : innerLoop fuel 1 callback (loop.index + (loop.length - loop.index) * 1)
      (loop.index, s) = _ :=
    innerLoop_eq Nat.one_pos callback loop.index (by omega) s
  rw [Nat.mul_one, Nat.add_sub_cancel' hle] at hloop
  simp only [Nat.mul_one] at hloop
  rw [runTail, tail]
  exact (congrArg (Option.map _) hloop).trans rfl

/-! ### The columns of a chain -/

/-- `unroll_n_times`, with the columns noted. -/
def noteUnrolled (fuel : ℕ) (p : LoopUnroll2 × List (ℕ × ℕ)) (unrollFactor : ℕ) :
    Option (LoopUnroll2 × List (ℕ × ℕ)) :=
  runNTimes fuel unrollFactor (noteColumns (unrollFactor * p.1.step)) p

/-- `tail` or `remaining` or neither. -/
def noteEnd (fuel : ℕ) (ending : LoopEnd) (p : LoopUnroll2 × List (ℕ × ℕ)) :
    Option (LoopUnroll2 × List (ℕ × ℕ)) :=
  match ending with
  | .unrolled => some p
  | .tail => runTail fuel (noteColumns 1) p
  | .remaining => some (remaining (fun index length ranges => ranges ++ [(index, length)]) p)

/-- A chain of calls. -/
def noteChain (fuel : ℕ) (unrollFactors : List ℕ) (ending : LoopEnd) (loop : LoopUnroll2) :
    Option (LoopUnroll2 × List (ℕ × ℕ)) :=
  (unrollFactors.foldlM (noteUnrolled fuel) (loop, [])).bind (noteEnd fuel ending)

/-- A chain that began with `start` has got to `p`. -/
structure Ranged (start : LoopUnroll2) (p : LoopUnroll2 × List (ℕ × ℕ)) : Prop where
  loop_eq : p.1 = { start with index := p.1.index }
  le_length : p.1.index ≤ start.length
  columns : Tiles start.index p.2 p.1.index ∨
    p.1.index = start.length ∧
      Covering start.index start.length start.step start.tryToAvoidTailLoop p.2
  whole : start.step ∣ start.length - start.index → start.step ∣ start.length - p.1.index

/-- Single vectors get to the end: the last one can be moved back, or ends there. -/
def SingleVectorsSuffice (start : LoopUnroll2) : Prop :=
  (start.tryToAvoidTailLoop = true ∧ start.step ≤ start.length) ∨
    start.step ∣ start.length - start.index

/-- Nothing is left to do. -/
theorem unrollNTimes_of_empty {loop : LoopUnroll2} (h : loop.index = loop.length)
    (unrollFactor : ℕ) (callback : ℕ → σ → σ) (s : σ) :
    unrollNTimes unrollFactor callback (loop, s) = (loop, s) := by
  have hsteps : loop.remainingLength / (unrollFactor * loop.step) = 0 := by
    rw [remainingLength, h, Nat.sub_self, Nat.zero_div]
  obtain ⟨length, step, index, avoid⟩ := loop
  obtain rfl : index = length := h
  simp only [unrollNTimes, hsteps, Nat.zero_mul, Nat.add_zero, forRange_zero, Nat.sub_self,
    ne_eq, not_true_eq_false, if_false, ite_self]

/-- One call. -/
theorem Ranged.unrollNTimes {start : LoopUnroll2} {p : LoopUnroll2 × List (ℕ × ℕ)}
    (h : Ranged start p) {unrollFactor : ℕ} (hfactor : 0 < unrollFactor) (hstep : 0 < start.step) :
    let q := LoopUnroll2.unrollNTimes unrollFactor (noteColumns (unrollFactor * p.1.step)) p
    Ranged start q ∧
      (p.1.index = start.length ∨ unrollFactor = 1 ∧ SingleVectorsSuffice start →
        q.1.index = start.length) := by
  intro q
  obtain ⟨loop, ranges⟩ := p
  have hloop : loop = { start with index := loop.index } := h.loop_eq
  by_cases hempty : loop.index = loop.length
  · have hq : q = (loop, ranges) := unrollNTimes_of_empty hempty _ _ _
    have hlength : loop.length = start.length := by rw [hloop]
    rw [hq]
    exact ⟨h, fun _ => hempty.trans hlength⟩
  obtain ⟨-, hle, hcolumns, hwhole⟩ := h
  obtain ⟨length, step, first, avoid⟩ := start
  obtain ⟨length', step', index, avoid'⟩ := loop
  simp only [LoopUnroll2.mk.injEq, true_and] at hloop hle hcolumns hwhole hstep hempty
  obtain ⟨rfl, rfl, rfl⟩ := hloop
  -- Nothing has been moved back yet.
  have htiles : Tiles first ranges index := hcolumns.resolve_right fun hend => hempty hend.1
  have hpos : 0 < unrollFactor * step' := Nat.mul_pos hfactor hstep
  have hmore := tiles_noteColumns hpos htiles ((length' - index) / (unrollFactor * step'))
  have hmax := Nat.div_mul_le_self (length' - index) (unrollFactor * step')
  have hrest := Nat.mod_lt (length' - index) hpos
  have hmod := Nat.div_add_mod' (length' - index) (unrollFactor * step')
  have hdvd : step' ∣ (length' - index) / (unrollFactor * step') * (unrollFactor * step') :=
    (Nat.dvd_mul_left step' unrollFactor).mul_left _
  revert q
  simp only [LoopUnroll2.unrollNTimes, remainingLength]
  generalize forRange ((length' - index) / (unrollFactor * step')) _ _ = noted at hmore ⊢
  obtain ⟨full, heq⟩ : ∃ full, (length' - index) / (unrollFactor * step') *
      (unrollFactor * step') = full := ⟨_, rfl⟩
  simp only [heq] at hmore hmax hmod hdvd ⊢
  by_cases hsingle : (avoid' && unrollFactor == 1) = true
  · obtain ⟨rfl, hone⟩ := Bool.and_eq_true_iff.mp hsingle
    obtain rfl : unrollFactor = 1 := beq_iff_eq.mp hone
    rw [Nat.one_mul] at hrest hmod
    rw [if_pos hsingle, Nat.one_mul]
    by_cases hfull : step' ≤ length'
    · rw [if_pos hfull]
      by_cases hlast : length' - (index + full) = 0
      · rw [if_neg (not_not.mpr hlast)]
        have hend : index + full = length' := by omega
        rw [hend] at hmore ⊢
        exact ⟨⟨rfl, le_rfl, Or.inl hmore, fun _ => by simp⟩, fun _ => rfl⟩
      · rw [if_pos hlast]
        refine ⟨⟨rfl, le_rfl, Or.inr ⟨rfl, Or.inr ⟨rfl, hfull, _, index + full, ?_, hmore, ?_, ?_⟩⟩,
          fun _ => by simp⟩, fun _ => rfl⟩
        · rw [noteColumns, Nat.sub_add_cancel hfull]
        · simp only
          omega
        · simp only
          omega
    · rw [if_neg hfull]
      refine ⟨⟨rfl, hle, Or.inl htiles, hwhole⟩, fun hend => ?_⟩
      rcases hend with hend | ⟨-, hsuffice⟩
      · exact absurd hend hempty
      · -- Less than a vector is left, and no vector can be moved back.
        have hnot : ¬(true = true ∧ step' ≤ length') := fun hboth => hfull hboth.2
        have := Nat.eq_zero_of_dvd_of_lt (hwhole (hsuffice.resolve_left hnot)) (by omega)
        omega
  · rw [if_neg hsingle]
    have hleft : length' - (index + full) = length' - index - full := (Nat.sub_sub _ _ _).symm
    refine ⟨⟨rfl, by simp only; omega, Or.inl hmore, fun hw => ?_⟩, fun hend => ?_⟩
    · simp only [hleft]
      exact Nat.dvd_sub (hwhole hw) hdvd
    · rcases hend with hend | ⟨rfl, hsuffice⟩
      · exact absurd hend hempty
      · have hnot : ¬(avoid' = true ∧ step' ≤ length') := fun hboth => hsingle (by simp [hboth.1])
        have hall := hwhole (hsuffice.resolve_left hnot)
        have hless : step' ∣ length' - index - full := Nat.dvd_sub hall hdvd
        have := Nat.eq_zero_of_dvd_of_lt hless (by omega)
        simp only
        omega

/-- The calls of `unroll_n_times` in a chain. -/
theorem Ranged.foldlM {start : LoopUnroll2} (hstep : 0 < start.step) {fuel : ℕ}
    (hfuel : start.length + 2 ≤ fuel) {unrollFactors : List ℕ}
    (hfactors : ∀ factor ∈ unrollFactors, 0 < factor) {p : LoopUnroll2 × List (ℕ × ℕ)}
    (h : Ranged start p) :
    ∃ q, unrollFactors.foldlM (noteUnrolled fuel) p = some q ∧ Ranged start q ∧
      (p.1.index = start.length ∨ 1 ∈ unrollFactors ∧ SingleVectorsSuffice start →
        q.1.index = start.length) := by
  induction unrollFactors generalizing p with
  | nil =>
    refine ⟨p, rfl, h, fun hend => hend.resolve_right fun hone => ?_⟩
    exact List.not_mem_nil hone.1
  | cons unrollFactor unrollFactors ih =>
    have hfactor := hfactors unrollFactor List.mem_cons_self
    obtain ⟨loop, ranges⟩ := p
    have hloop : loop = { start with index := loop.index } := h.loop_eq
    have hlength : loop.length = start.length := by rw [hloop]
    have hstep' : loop.step = start.step := by rw [hloop]
    have hcall := runNTimes_eq (hstep' ▸ Nat.mul_pos hfactor hstep) (hlength ▸ h.le_length)
      (hlength ▸ hfuel) (noteColumns (unrollFactor * loop.step)) ranges
    obtain ⟨hnext, hend⟩ := h.unrollNTimes hfactor hstep
    obtain ⟨q, hq, hranged, hend'⟩ :=
      ih (fun factor hmem => hfactors factor (List.mem_cons_of_mem _ hmem)) hnext
    refine ⟨q, ?_, hranged, fun hor => hend' ?_⟩
    · rw [List.foldlM_cons, noteUnrolled, hcall]
      exact hq
    · rcases hor with hdone | ⟨hmem, hsuffice⟩
      · exact Or.inl (hend (Or.inl hdone))
      · rcases List.mem_cons.mp hmem with hone | hmem
        · exact Or.inl (hend (Or.inr ⟨hone.symm, hsuffice⟩))
        · exact Or.inr ⟨hmem, hsuffice⟩

/-- The end of a chain. -/
theorem Ranged.noteEnd {start : LoopUnroll2} {p : LoopUnroll2 × List (ℕ × ℕ)} (h : Ranged start p)
    {fuel : ℕ} (hfuel : start.length ≤ fuel) (ending : LoopEnd) :
    ∃ q, LoopUnroll2.noteEnd fuel ending p = some q ∧
      (ending ≠ .unrolled ∨ p.1.index = start.length → q.1.index = start.length ∧
        Covering start.index start.length start.step start.tryToAvoidTailLoop q.2) := by
  obtain ⟨loop, ranges⟩ := p
  have hloop : loop = { start with index := loop.index } := h.loop_eq
  have hlength : loop.length = start.length := by rw [hloop]
  have hle : loop.index ≤ loop.length := hlength ▸ h.le_length
  have hdone : loop.index = start.length →
      Covering start.index start.length start.step start.tryToAvoidTailLoop ranges := by
    intro hindex
    rcases h.columns with htiles | ⟨-, hcovering⟩
    · exact Or.inl (hindex ▸ htiles)
    · exact hcovering
  cases ending with
  | unrolled => exact ⟨_, rfl, fun hend => by
      have hindex := hend.resolve_left fun hne => hne rfl
      exact ⟨hindex, hdone hindex⟩⟩
  | tail =>
    refine ⟨_, runTail_eq hle (hlength ▸ hfuel) (noteColumns 1) ranges, fun _ => ⟨hlength, ?_⟩⟩
    have hmore : Tiles start.index ranges loop.index → Tiles start.index
        (forFrom loop.index loop.remainingLength (noteColumns 1) ranges) start.length := by
      intro htiles
      have hrest := tiles_noteColumns Nat.one_pos htiles (loop.length - loop.index)
      rw [Nat.mul_one, Nat.add_sub_cancel' hle, hlength] at hrest
      simp only [Nat.mul_one] at hrest
      rw [forFrom, remainingLength, hlength]
      exact hrest
    rcases h.columns with htiles | ⟨hindex, -⟩
    · exact Or.inl (hmore htiles)
    · have hnone : loop.remainingLength = 0 := by rw [remainingLength, hlength, hindex, Nat.sub_self]
      simp only [tail, hnone, forFrom, forRange_zero]
      exact hdone hindex
  | remaining =>
    refine ⟨_, rfl, fun _ => ?_⟩
    by_cases hrest : loop.remainingLength = 0
    · have hindex : loop.index = start.length := by
        rw [remainingLength] at hrest
        omega
      simp only [remaining, hrest, ne_eq, not_true_eq_false, if_false]
      exact ⟨hindex, hdone hindex⟩
    · have hlt : loop.index < loop.length := Nat.lt_of_sub_ne_zero hrest
      have htiles := h.columns.resolve_right fun hend => hlt.ne (hend.1.trans hlength.symm)
      simp only [remaining, ne_eq, hrest, not_false_eq_true, if_true]
      exact ⟨hlength, Or.inl (hlength ▸ htiles.concat hlt)⟩

/-- **A chain of calls**: it ends, and where its end or its vectors get to the last column, all
columns are covered. -/
theorem chain_covered {start : LoopUnroll2} (hstep : 0 < start.step)
    (hindex : start.index ≤ start.length) {fuel : ℕ} (hfuel : start.length + 2 ≤ fuel)
    {unrollFactors : List ℕ} (hfactors : ∀ factor ∈ unrollFactors, 0 < factor)
    (ending : LoopEnd) :
    ∃ q, noteChain fuel unrollFactors ending start = some q ∧
      (ending ≠ .unrolled ∨ 1 ∈ unrollFactors ∧ SingleVectorsSuffice start →
        q.1.index = start.length ∧
        Covered start.index start.length start.step start.tryToAvoidTailLoop q.2) := by
  have hbegin : Ranged start (start, []) :=
    ⟨rfl, hindex, Or.inl (Tiles.nil start.index), fun hwhole => hwhole⟩
  obtain ⟨p, hp, hranged, hend⟩ := hbegin.foldlM hstep hfuel hfactors
  obtain ⟨q, hq, hcovering⟩ := hranged.noteEnd (show start.length ≤ fuel by omega) ending
  refine ⟨q, ?_, fun hor => ?_⟩
  · rw [noteChain, hp]
    exact hq
  · have hlast := hcovering (hor.imp_right fun hone => hend (Or.inr hone))
    exact ⟨hlast.1, hlast.2.covered⟩

end LoopUnroll2

/-! ### The loops of `LoopUnroll` -/

namespace LoopUnroll

variable {σ : Type*}

/-- `unroll_n_times`, as a loop whose callbacks advance the columns. -/
def runNTimes (fuel unrollFactor : ℕ) (callback : ℕ → σ → σ) (p : LoopUnroll × (ℕ × σ)) :
    Option (LoopUnroll × (ℕ × σ)) :=
  let step := unrollFactor * p.1.step
  let maxIndex := p.1.length / step
  (whileLoop (fun t : ℕ × ℕ × σ => decide (t.1 < maxIndex))
    (fun t => some (t.1 + 1, t.2.1 + step, callback t.2.1 t.2.2)) fuel (0, p.2)).map fun t =>
      ({ p.1 with length := p.1.length - step * t.1 }, t.2)

/-- `tail`, whose callback gets indices from 0 on. -/
def runTail (fuel : ℕ) (callback : ℕ → σ → σ) (p : LoopUnroll × (ℕ × σ)) :
    Option (LoopUnroll × (ℕ × σ)) :=
  (whileLoop (fun t : ℕ × σ => decide (t.1 < p.1.length))
    (fun t => some (t.1 + 1, callback (p.2.1 + t.1) t.2)) fuel (0, p.2.2)).map fun t =>
      ({ p.1 with length := 0 }, p.2.1, t.2)

/-- `remaining`. -/
def runRemaining (callback : ℕ → ℕ → σ → σ) (p : LoopUnroll × (ℕ × σ)) : LoopUnroll × (ℕ × σ) :=
  if p.1.length ≠ 0 then ({ p.1 with length := 0 }, p.2.1, callback p.2.1 p.1.length p.2.2) else p

theorem runNTimes_eq {fuel : ℕ} (unrollFactor : ℕ) {loop : LoopUnroll} (hfuel : loop.length ≤ fuel)
    (callback : ℕ → σ → σ) (columns : ℕ × σ) :
    runNTimes fuel unrollFactor callback (loop, columns) =
      some (loop.unrollNTimes unrollFactor callback columns) := by
  let step := unrollFactor * loop.step
  have hloop := whileLoop_counted
    (fun t : ℕ × ℕ × σ => decide (t.1 < loop.length / step))
    (fun t => some (t.1 + 1, t.2.1 + step, callback t.2.1 t.2.2))
    (fun i => (i, forRange i (fun _ c => (c.1 + step, callback c.1 c.2)) columns))
    (fun i hi => decide_eq_true hi) (fun i _ => by rw [forRange_succ])
    (decide_eq_false (Nat.lt_irrefl _)) ((Nat.div_le_self loop.length step).trans hfuel)
  rw [runNTimes]
  exact (congrArg (Option.map _) hloop).trans rfl

theorem runTail_eq {fuel : ℕ} {loop : LoopUnroll} (hfuel : loop.length ≤ fuel)
    (callback : ℕ → σ → σ) (columns : ℕ × σ) :
    runTail fuel callback (loop, columns) =
      some ({ loop with length := 0 }, columns.1,
        forRange loop.length (fun index => callback (columns.1 + index)) columns.2) := by
  have hloop := whileLoop_counted
    (fun t : ℕ × σ => decide (t.1 < loop.length))
    (fun t => some (t.1 + 1, callback (columns.1 + t.1) t.2))
    (fun i => (i, forRange i (fun index => callback (columns.1 + index)) columns.2))
    (fun i hi => decide_eq_true hi) (fun i _ => by rw [forRange_succ])
    (decide_eq_false (Nat.lt_irrefl _)) hfuel
  rw [runTail]
  exact (congrArg (Option.map _) hloop).trans rfl

/-! ### The columns of a chain -/

/-- `unroll_n_times`, with the columns noted. -/
def noteUnrolled (fuel : ℕ) (p : LoopUnroll × (ℕ × List (ℕ × ℕ))) (unrollFactor : ℕ) :
    Option (LoopUnroll × (ℕ × List (ℕ × ℕ))) :=
  runNTimes fuel unrollFactor (noteColumns (unrollFactor * p.1.step)) p

/-- `tail` or `remaining` or neither. -/
def noteEnd (fuel : ℕ) (ending : LoopEnd) (p : LoopUnroll × (ℕ × List (ℕ × ℕ))) :
    Option (LoopUnroll × (ℕ × List (ℕ × ℕ))) :=
  match ending with
  | .unrolled => some p
  | .tail => runTail fuel (noteColumns 1) p
  | .remaining => some (runRemaining (fun column length => noteColumns length column) p)

/-- A chain of calls. -/
def noteChain (fuel : ℕ) (unrollFactors : List ℕ) (ending : LoopEnd) (loop : LoopUnroll) :
    Option (LoopUnroll × (ℕ × List (ℕ × ℕ))) :=
  (unrollFactors.foldlM (noteUnrolled fuel) (loop, 0, [])).bind (noteEnd fuel ending)

/-- A chain that began with `start` has got to `p`: the columns stand where the rest begins. -/
structure Ranged (start : LoopUnroll) (p : LoopUnroll × (ℕ × List (ℕ × ℕ))) : Prop where
  step_eq : p.1.step = start.step
  avoid_eq : p.1.canAvoidTail = start.canAvoidTail
  length_eq : p.2.1 + p.1.length = start.length
  columns : Tiles 0 p.2.2 p.2.1
  whole : start.step ∣ start.length → start.step ∣ p.1.length

/-- One call. -/
theorem Ranged.unrollNTimes {start : LoopUnroll} {p : LoopUnroll × (ℕ × List (ℕ × ℕ))}
    (h : Ranged start p) {unrollFactor : ℕ} (hfactor : 0 < unrollFactor) (hstep : 0 < start.step) :
    let q := p.1.unrollNTimes unrollFactor (noteColumns (unrollFactor * p.1.step)) p.2
    Ranged start q ∧ q.1.length < unrollFactor * start.step ∧
      (p.1.length = 0 → q.1.length = 0) := by
  obtain ⟨loop, column, ranges⟩ := p
  obtain ⟨hstep', havoid, hlength, hcolumns, hwhole⟩ := h
  simp only at hstep' havoid hlength hcolumns hwhole
  have hpos : 0 < unrollFactor * loop.step := Nat.mul_pos hfactor (hstep' ▸ hstep)
  simp only [unrollNTimes_eq]
  refine ⟨⟨hstep', havoid, ?_, tiles_noteColumns hpos hcolumns _, fun hw => ?_⟩, ?_, fun hnone => ?_⟩
  · simp only
    rw [Nat.add_assoc, Nat.div_add_mod', hlength]
  · have hloop := hwhole hw
    rw [← hstep'] at hloop ⊢
    exact (Nat.dvd_mod_iff (Nat.dvd_mul_left loop.step unrollFactor)).mpr hloop
  · rw [← hstep']
    exact Nat.mod_lt _ hpos
  · rw [hnone, Nat.zero_mod]

/-- The calls of `unroll_n_times` in a chain. -/
theorem Ranged.foldlM {start : LoopUnroll} (hstep : 0 < start.step) {fuel : ℕ}
    (hfuel : start.length ≤ fuel) {unrollFactors : List ℕ}
    (hfactors : ∀ factor ∈ unrollFactors, 0 < factor) {p : LoopUnroll × (ℕ × List (ℕ × ℕ))}
    (h : Ranged start p) :
    ∃ q, unrollFactors.foldlM (noteUnrolled fuel) p = some q ∧ Ranged start q ∧
      (p.1.length = 0 ∨ 1 ∈ unrollFactors ∧ start.step ∣ start.length → q.1.length = 0) := by
  induction unrollFactors generalizing p with
  | nil =>
    refine ⟨p, rfl, h, fun hend => hend.resolve_right fun hone => ?_⟩
    exact List.not_mem_nil hone.1
  | cons unrollFactor unrollFactors ih =>
    have hfactor := hfactors unrollFactor List.mem_cons_self
    have hle : p.1.length ≤ fuel := by
      have := h.length_eq
      omega
    obtain ⟨hnext, hlt, hempty⟩ := h.unrollNTimes hfactor hstep
    obtain ⟨q, hq, hranged, hend⟩ :=
      ih (fun factor hmem => hfactors factor (List.mem_cons_of_mem _ hmem)) hnext
    refine ⟨q, ?_, hranged, fun hor => hend ?_⟩
    · rw [List.foldlM_cons, noteUnrolled, runNTimes_eq unrollFactor hle]
      exact hq
    · rcases hor with hdone | ⟨hmem, hwhole⟩
      · exact Or.inl (hempty hdone)
      · rcases List.mem_cons.mp hmem with rfl | hmem
        · have hnone := Nat.eq_zero_of_dvd_of_lt (hnext.whole hwhole) (hlt.trans_eq (Nat.one_mul _))
          exact Or.inl hnone
        · exact Or.inr ⟨hmem, hwhole⟩

/-- **A chain of calls**: it ends, and where its end or its vectors get to the last column, all
columns are covered once. -/
theorem chain_covered {start : LoopUnroll} (hstep : 0 < start.step) {fuel : ℕ}
    (hfuel : start.length ≤ fuel) {unrollFactors : List ℕ}
    (hfactors : ∀ factor ∈ unrollFactors, 0 < factor) (ending : LoopEnd) :
    ∃ q, noteChain fuel unrollFactors ending start = some q ∧
      (ending ≠ .unrolled ∨ 1 ∈ unrollFactors ∧ start.step ∣ start.length →
        q.1.length = 0 ∧ Covered 0 start.length start.step false q.2.2) := by
  have hbegin : Ranged start (start, 0, []) :=
    ⟨rfl, rfl, Nat.zero_add _, Tiles.nil 0, fun hwhole => hwhole⟩
  obtain ⟨p, hp, hranged, hend⟩ := hbegin.foldlM hstep hfuel hfactors
  have hle : p.1.length ≤ fuel := by
    have := hranged.length_eq
    omega
  have hcovered : ∀ {ranges : List (ℕ × ℕ)}, Tiles 0 ranges start.length →
      Covered 0 start.length start.step false ranges := fun htiles =>
    Covering.covered (Or.inl htiles)
  rw [noteChain, hp, Option.bind_some]
  obtain ⟨loop, column, ranges⟩ := p
  have hlength : column + loop.length = start.length := hranged.length_eq
  have hcolumns : Tiles 0 ranges column := hranged.columns
  cases ending with
  | unrolled =>
    refine ⟨_, rfl, fun hor => ?_⟩
    have hnone : loop.length = 0 := hend (Or.inr (hor.resolve_left fun hne => hne rfl))
    rw [hnone, Nat.add_zero] at hlength
    exact ⟨hnone, hcovered (hlength ▸ hcolumns)⟩
  | tail =>
    refine ⟨_, runTail_eq hle _ _, fun _ => ⟨rfl, hcovered ?_⟩⟩
    have hrest := tiles_noteColumns Nat.one_pos hcolumns loop.length
    simp only [Nat.mul_one, hlength] at hrest
    exact hrest
  | remaining =>
    refine ⟨_, rfl, fun _ => ?_⟩
    by_cases hnone : loop.length = 0
    · rw [hnone, Nat.add_zero] at hlength
      simp only [runRemaining, hnone, ne_eq, not_true_eq_false, if_false]
      exact ⟨trivial, hcovered (hlength ▸ hcolumns)⟩
    · simp only [runRemaining, hnone, ne_eq, not_false_eq_true, if_true, noteColumns, hlength]
      exact ⟨trivial, hcovered (hcolumns.concat (by omega))⟩

end LoopUnroll

/-! ### Rows of an operation -/

namespace RowOperation

variable {σ : Type*} (op : RowOperation σ)

/-- What follows the label `avoid_tail_loop`, and each `goto` to it. -/
def gotoAvoidTailLoop (row fuel : ℕ) : ℕ → LoopUnroll × (ℕ × σ) → Option (LoopUnroll × (ℕ × σ))
  | 0, _ => none
  | rounds + 1, p => do
    let (loop, columns) ← LoopUnroll.runNTimes fuel 1 (op.vectorPath row) p
    -- `try_avoid_tail_loop`
    if op.tryToAvoidTailLoop && loop.canAvoidTail && decide (loop.length ≠ 0) then
      gotoAvoidTailLoop row fuel rounds
        ({ loop with length := loop.step }, columns.1 - (loop.step - loop.length), columns.2)
    else some (loop, columns)

/-- The part of `process_row` before the label. -/
def runTwice (row fuel : ℕ) (p : LoopUnroll × (ℕ × σ)) : Option (LoopUnroll × (ℕ × σ)) :=
  if op.isUnrolledTwice then LoopUnroll.runNTimes fuel 2 (op.vectorPath2x row) p else some p

/-- The part of it from the label on. -/
def runOnce (row fuel : ℕ) (p : LoopUnroll × (ℕ × σ)) : Option (LoopUnroll × (ℕ × σ)) :=
  if op.isUnrolledOnce then op.gotoAvoidTailLoop row fuel fuel p else some p

/-- `process_row`, loop by loop. -/
def runRow (row fuel length : ℕ) (s : σ) : Option σ :=
  (op.runTwice row fuel (LoopUnroll.mk' length op.numLanes, 0, s)).bind fun p =>
    (op.runOnce row fuel p).map fun p => p.1.remaining (op.scalarPath row) p.2

/-- The label is gone to once at most. -/
theorem gotoAvoidTailLoop_eq (row : ℕ) {fuel : ℕ} {loop : LoopUnroll} (hle : loop.length ≤ fuel)
    (hcan : loop.canAvoidTail = true → loop.step ≤ fuel) (rounds : ℕ) (columns : ℕ × σ) :
    op.gotoAvoidTailLoop row fuel (rounds + 2) (loop, columns) =
      some (op.unrollOnce row loop columns) := by
  obtain ⟨column, s⟩ := columns
  rw [gotoAvoidTailLoop, LoopUnroll.runNTimes_eq 1 hle, unrollOnce, unrollNTimes_eq]
  simp only [Option.bind_eq_bind, Option.bind_some]
  split
  next hagain =>
    simp only [Bool.and_eq_true] at hagain
    rw [gotoAvoidTailLoop, LoopUnroll.runNTimes_eq 1 (hcan hagain.1.2), unrollNTimes_eq]
    simp only [Option.bind_eq_bind, Option.bind_some, Nat.one_mul, Nat.mod_self, ne_eq,
      not_true_eq_false, decide_false, Bool.and_false, Bool.false_eq_true, if_false]
  next => rfl

/-- All loops of a row end, and do what the closed form does. -/
theorem runRow_eq (row : ℕ) {fuel length : ℕ} (hfuel : length + 2 ≤ fuel) (s : σ) :
    op.runRow row fuel length s = some (op.processRow row length s) := by
  have hlength : length ≤ fuel := by omega
  have htwice : op.runTwice row fuel (LoopUnroll.mk' length op.numLanes, 0, s) =
      some (if op.isUnrolledTwice then
        (LoopUnroll.mk' length op.numLanes).unrollNTimes 2 (op.vectorPath2x row) (0, s)
      else (LoopUnroll.mk' length op.numLanes, (0, s))) := by
    rw [runTwice]
    split
    · exact LoopUnroll.runNTimes_eq 2 hlength _ _
    · rfl
  have honce : ∀ p : LoopUnroll × (ℕ × σ), p.1.length ≤ length → p.1.step = op.numLanes →
      p.1.canAvoidTail = decide (op.numLanes ≤ length) → op.runOnce row fuel p =
        some (if op.isUnrolledOnce then op.unrollOnce row p.1 p.2 else (p.1, p.2)) := by
    rintro ⟨loop, columns⟩ hle hstep havoid
    obtain ⟨rounds, hrounds⟩ := Nat.exists_eq_add_of_le' (show 2 ≤ fuel by omega)
    rw [runOnce]
    split
    · have hcan : loop.canAvoidTail = true → loop.step ≤ fuel := fun hcan => by
        have hfull := of_decide_eq_true (havoid.symm.trans hcan)
        exact hstep ▸ hfull.trans hlength
      have hgoto := gotoAvoidTailLoop_eq op row (hle.trans hlength) hcan rounds columns
      rw [← hrounds] at hgoto
      exact hgoto
    · rfl
  rw [runRow, htwice, Option.bind_some, honce, Option.map_some]
  · rfl
  · split
    · exact Nat.sub_le _ _
    · exact le_rfl
  · split <;> rfl
  · split <;> rfl

/-- The operation whose paths note the columns they are for. -/
def noting : RowOperation (List (ℕ × ℕ)) where
  numLanes := op.numLanes
  isUnrolledTwice := op.isUnrolledTwice
  isUnrolledOnce := op.isUnrolledOnce
  tryToAvoidTailLoop := op.tryToAvoidTailLoop
  maxVectorsPerBlock := op.maxVectorsPerBlock
  vectorPath2x _ := noteColumns (2 * op.numLanes)
  vectorPath _ := noteColumns op.numLanes
  scalarPath _ := noteColumns 1
  onBlockFinished _ := id

/-- Single elements, up to the end. -/
theorem remaining_covering {row length step : ℕ} {avoid : Bool}
    {p : LoopUnroll × (ℕ × List (ℕ × ℕ))} (hlength : p.2.1 + p.1.length = length)
    (h : p.1.length = 0 ∧ Covering 0 length step avoid p.2.2 ∨ Tiles 0 p.2.2 p.2.1) :
    Covering 0 length step avoid (p.1.remaining (op.noting.scalarPath row) p.2) := by
  obtain ⟨loop, column, ranges⟩ := p
  simp only at hlength h
  rw [LoopUnroll.remaining]
  split
  next hrest =>
    have htiles := h.resolve_left fun hend => hrest hend.1
    have hmore := tiles_noteColumns Nat.one_pos htiles loop.length
    simp only [Nat.mul_one, hlength] at hmore
    exact Or.inl hmore
  next hrest =>
    rw [not_not] at hrest
    rcases h with hend | htiles
    · exact hend.2
    · rw [hrest, Nat.add_zero] at hlength
      exact Or.inl (hlength ▸ htiles)

/-- Vectors one at a time, of which the last may be moved back. -/
theorem unrollOnce_covering (row : ℕ) {length : ℕ} (hlanes : 0 < op.numLanes)
    {p : LoopUnroll × (ℕ × List (ℕ × ℕ))}
    (h : LoopUnroll.Ranged (LoopUnroll.mk' length op.numLanes) p) :
    let q := op.noting.unrollOnce row p.1 p.2
    q.2.1 + q.1.length = length ∧
      (q.1.length = 0 ∧ Covering 0 length op.numLanes op.tryToAvoidTailLoop q.2.2 ∨
        Tiles 0 q.2.2 q.2.1) := by
  intro q
  have hvector : op.noting.vectorPath row = noteColumns (1 * p.1.step) := by
    rw [h.step_eq, Nat.one_mul]
    rfl
  obtain ⟨hranged, hlt, -⟩ := h.unrollNTimes Nat.one_pos hlanes
  rw [← hvector] at hranged hlt
  revert q
  rw [unrollOnce]
  generalize p.1.unrollNTimes 1 (op.noting.vectorPath row) p.2 = next at hranged hlt ⊢
  obtain ⟨loop, column, ranges⟩ := next
  obtain ⟨hstep, havoid, hlength, hcolumns, -⟩ := hranged
  simp only [LoopUnroll.mk', Nat.one_mul] at hstep havoid hlength hcolumns hlt
  simp only
  split
  next hagain =>
    simp only [Bool.and_eq_true, decide_eq_true_eq, havoid] at hagain
    obtain ⟨⟨htry, hfull⟩, hrest⟩ := hagain
    have hone : op.numLanes / op.numLanes = 1 := Nat.div_self hlanes
    have hmoved : column - (op.numLanes - loop.length) + op.numLanes = length := by omega
    simp only [unrollNTimes_eq, hstep, Nat.one_mul, Nat.mod_self, hone, forRange_succ,
      forRange_zero, Nat.zero_mul, Nat.add_zero]
    refine ⟨hmoved, Or.inl ⟨trivial, Or.inr ⟨htry, hfull, ranges, column, ?_, hcolumns, ?_, ?_⟩⟩⟩
    · have hfirst : column - (op.numLanes - loop.length) = length - op.numLanes := by omega
      rw [show op.noting.vectorPath row = noteColumns op.numLanes from rfl, noteColumns, hmoved,
        hfirst]
    · omega
    · omega
  next => exact ⟨hlength, Or.inr hcolumns⟩

/-- **A row**: its loops end, and all columns are covered. -/
theorem runRow_covered (row : ℕ) {fuel length : ℕ} (hlanes : 0 < op.numLanes)
    (hfuel : length + 2 ≤ fuel) :
    ∃ ranges, op.noting.runRow row fuel length [] = some ranges ∧
      Covered 0 length op.numLanes op.tryToAvoidTailLoop ranges := by
  refine ⟨_, runRow_eq op.noting row hfuel [], Covering.covered ?_⟩
  let start := LoopUnroll.mk' length op.numLanes
  have hbegin : LoopUnroll.Ranged start (start, 0, []) :=
    ⟨rfl, rfl, Nat.zero_add _, Tiles.nil 0, fun hwhole => hwhole⟩
  let p := if op.noting.isUnrolledTwice then
    start.unrollNTimes 2 (op.noting.vectorPath2x row) (0, []) else (start, (0, []))
  have htwice : LoopUnroll.Ranged start p := by
    by_cases h : op.noting.isUnrolledTwice
    · rw [show p = _ from if_pos h]
      exact (hbegin.unrollNTimes Nat.two_pos hlanes).1
    · rw [show p = _ from if_neg h]
      exact hbegin
  let q := if op.noting.isUnrolledOnce then op.noting.unrollOnce row p.1 p.2 else (p.1, p.2)
  have honce : q.2.1 + q.1.length = length ∧
      (q.1.length = 0 ∧ Covering 0 length op.numLanes op.tryToAvoidTailLoop q.2.2 ∨
        Tiles 0 q.2.2 q.2.1) := by
    by_cases h : op.noting.isUnrolledOnce
    · rw [show q = _ from if_pos h]
      exact op.unrollOnce_covering row hlanes htwice
    · rw [show q = _ from if_neg h]
      exact ⟨htwice.length_eq, Or.inr htwice.columns⟩
  exact op.remaining_covering honce.1 honce.2

end RowOperation

/-! ### Every loop -/

/-- **The loops of rows cover their columns**: with fuel for each column every chain of calls ends.
Where it ends with `tail` or `remaining`, or gets to the end with single vectors, its ranges stay
within the columns, cover them and do not meet, except that the last range of a loop with
`TryToAvoidTailLoop` may overlap those before it. -/
theorem loops_cover {fuel : ℕ} {unrollFactors : List ℕ}
    (hfactors : ∀ factor ∈ unrollFactors, 0 < factor) (ending : LoopEnd) :
    (∀ loop : LoopUnroll2, 0 < loop.step → loop.index ≤ loop.length → loop.length + 2 ≤ fuel →
      ∃ q, LoopUnroll2.noteChain fuel unrollFactors ending loop = some q ∧
        (ending ≠ .unrolled ∨ 1 ∈ unrollFactors ∧
            ((loop.tryToAvoidTailLoop = true ∧ loop.step ≤ loop.length) ∨
              loop.step ∣ loop.length - loop.index) →
          q.1.index = loop.length ∧
          Covered loop.index loop.length loop.step loop.tryToAvoidTailLoop q.2)) ∧
    (∀ length step : ℕ, 0 < step → length ≤ fuel →
      ∃ q, LoopUnroll.noteChain fuel unrollFactors ending (LoopUnroll.mk' length step) = some q ∧
        (ending ≠ .unrolled ∨ 1 ∈ unrollFactors ∧ step ∣ length →
          q.1.length = 0 ∧ Covered 0 length step false q.2.2)) ∧
    (∀ {σ : Type} (op : RowOperation σ) (row length : ℕ), 0 < op.numLanes → length + 2 ≤ fuel →
      ∃ ranges, op.noting.runRow row fuel length [] = some ranges ∧
        Covered 0 length op.numLanes op.tryToAvoidTailLoop ranges) :=
  ⟨fun _ hstep hindex hfuel => LoopUnroll2.chain_covered hstep hindex hfuel hfactors ending,
    fun _ _ hstep hfuel => LoopUnroll.chain_covered hstep hfuel hfactors ending,
    fun op row _ hlanes hfuel => op.runRow_covered row hlanes hfuel⟩

/-- 19 columns: two vectors of 4, then one, then 3 columns. -/
theorem loops_cover_nineteen :
    ∃ q, LoopUnroll2.noteChain 21 [2, 1] .remaining (LoopUnroll2.start 19 4) = some q ∧
      Covered 0 19 4 false q.2 := by
  have hfactors : ∀ factor ∈ [2, 1], 0 < factor := by simp
  obtain ⟨hloops, -⟩ := @loops_cover 21 _ hfactors .remaining
  obtain ⟨q, hq, hcovered⟩ := hloops (LoopUnroll2.start 19 4) (by decide) (by decide) (by decide)
  have hne : LoopEnd.remaining ≠ .unrolled := LoopEnd.noConfusion
  exact ⟨q, hq, (hcovered (Or.inl hne)).2⟩

/-- Single vectors alone leave the last column of 9, as nothing follows them. -/
theorem unrollOnce_nineColumns :
    ¬∀ length step : ℕ, 0 < step →
      ∃ q, LoopUnroll2.noteChain (length + 2) [1] .unrolled (LoopUnroll2.start length step) =
        some q ∧ ∀ i < length, ∃ r ∈ q.2, r.1 ≤ i ∧ i < r.2 := by
  intro h
  obtain ⟨q, hq, hcover⟩ := h 9 8 (by decide)
  have hq' : q = (⟨9, 8, 8, false⟩, [(0, 8)]) := (Option.some.inj (hq.symm.trans rfl))
  obtain ⟨r, hr, -, hlast⟩ := hcover 8 (by decide)
  rw [hq'] at hr
  obtain rfl := List.mem_singleton.mp hr
  exact absurd hlast (Nat.lt_irrefl 8)

end KleidiCV
