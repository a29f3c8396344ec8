/-
`LoopUnroll2`: a column loop that takes several vectors at a time, then one,
then single elements.

Its members run on a pair of the loop object and the state that the callback
changes, and are chained in the order of the calls.

* `Unrolled` — where the loop stands and what its callbacks have kept;
* `Unrolled.unrollNTimes`, `Unrolled.tail`, `Unrolled.remaining` — what each
  member does to it;
* `unrollTwiceIf_unrollOnce_tail_avoidingTail` — the chain of the separable
  filters, whose last vector is moved back to end with the data.
-/
import KleidiCV.Lib.Loop

open Loop

namespace KleidiCV

/-- `LoopUnroll2<Tail>`. -/
structure LoopUnroll2 where
  length : ℕ
  step : ℕ
  index : ℕ
  tryToAvoidTailLoop : Bool

namespace LoopUnroll2

variable {σ : Type*}

/-- `LoopUnroll2{length, step}`. -/
def start (length step : ℕ) : LoopUnroll2 := ⟨length, step, 0, false⟩

/-- `LoopUnroll2<TryToAvoidTailLoop>{length, step}`. -/
def startAvoidingTail (length step : ℕ) : LoopUnroll2 := ⟨length, step, 0, true⟩

def remainingLength (loop : LoopUnroll2) : ℕ := loop.length - loop.index

/-- `unroll_n_times<UnrollFactor>`. -/
def unrollNTimes (unrollFactor : ℕ) (callback : ℕ → σ → σ) (p : LoopUnroll2 × σ) :
    LoopUnroll2 × σ :=
  let (loop, s) := p
  let nStep := unrollFactor * loop.step
  let steps := loop.remainingLength / nStep
  let maxIndex := loop.index + steps * nStep
  if loop.tryToAvoidTailLoop && unrollFactor == 1 then
    if nStep ≤ loop.length then
      let s := forRange steps (fun i => callback (loop.index + i * nStep)) s
      -- The last vector is moved back to end with the data.
      if loop.length - maxIndex ≠ 0 then
        ({ loop with index := loop.length }, callback (loop.length - nStep) s)
      else ({ loop with index := maxIndex }, s)
    else (loop, s)
  else
    ({ loop with index := maxIndex }, forRange steps (fun i => callback (loop.index + i * nStep)) s)

/-- `unroll_twice`. -/
def unrollTwice (callback : ℕ → σ → σ) : LoopUnroll2 × σ → LoopUnroll2 × σ :=
  unrollNTimes 2 callback

/-- `unroll_four_times`. -/
def unrollFourTimes (callback : ℕ → σ → σ) : LoopUnroll2 × σ → LoopUnroll2 × σ :=
  unrollNTimes 4 callback

/-- `unroll_twice_if`. -/
def unrollTwiceIf (enable : Bool) (callback : ℕ → σ → σ) (p : LoopUnroll2 × σ) :
    LoopUnroll2 × σ :=
  if enable then unrollTwice callback p else p

/-- `unroll_once`. -/
def unrollOnce (callback : ℕ → σ → σ) : LoopUnroll2 × σ → LoopUnroll2 × σ :=
  unrollNTimes 1 callback

/-- `tail`. -/
def tail (callback : ℕ → σ → σ) (p : LoopUnroll2 × σ) : LoopUnroll2 × σ :=
  let (loop, s) := p
  ({ loop with index := loop.length }, forFrom loop.index loop.remainingLength callback s)

/-- `remaining`. -/
def remaining (callback : ℕ → ℕ → σ → σ) (p : LoopUnroll2 × σ) : LoopUnroll2 × σ :=
  let (loop, s) := p
  if loop.remainingLength ≠ 0 then
    ({ loop with index := loop.length }, callback loop.index loop.length s)
  else (loop, s)

/-- Two loops whose callbacks keep a relation between their states. -/
theorem unrollNTimes_rel {τ : Type*} (r : σ → τ → Prop) (factor : ℕ) {callback : ℕ → σ → σ}
    {callback' : ℕ → τ → τ} (hs : ∀ i s t, r s t → r (callback i s) (callback' i t))
    {s : σ} {t : τ} (h : r s t) (loop : LoopUnroll2) :
    (unrollNTimes factor callback (loop, s)).1 = (unrollNTimes factor callback' (loop, t)).1 ∧
      r (unrollNTimes factor callback (loop, s)).2 (unrollNTimes factor callback' (loop, t)).2 := by
  have hloop : r
      (forRange (loop.remainingLength / (factor * loop.step))
        (fun i => callback (loop.index + i * (factor * loop.step))) s)
      (forRange (loop.remainingLength / (factor * loop.step))
        (fun i => callback' (loop.index + i * (factor * loop.step))) t) :=
    forRange_rel (fun _ => r) h fun i _ s t hst => hs _ s t hst
  simp only [unrollNTimes]
  split_ifs with havoid hfit hlast
  · exact ⟨rfl, hs _ _ _ hloop⟩
  · exact ⟨rfl, hloop⟩
  · exact ⟨rfl, h⟩
  · exact ⟨rfl, hloop⟩

theorem remaining_rel {τ : Type*} (r : σ → τ → Prop) {callback : ℕ → ℕ → σ → σ}
    {callback' : ℕ → ℕ → τ → τ} (hs : ∀ i j s t, r s t → r (callback i j s) (callback' i j t))
    {p : LoopUnroll2 × σ} {q : LoopUnroll2 × τ} (hloop : p.1 = q.1) (h : r p.2 q.2) :
    r (remaining callback p).2 (remaining callback' q).2 := by
  obtain ⟨loop, s⟩ := p
  obtain ⟨_, t⟩ := q
  obtain rfl := hloop
  simp only [remaining]
  split_ifs
  · exact hs _ _ s t h
  · exact h

end LoopUnroll2

/-! ### Rules -/

/-- The loop object has counted up to an index at which `inv` holds. -/
structure Unrolled {σ : Type*} (length step : ℕ) (inv : ℕ → σ → Prop) (p : LoopUnroll2 × σ) :
    Prop where
  length_eq : p.1.length = length
  step_eq : p.1.step = step
  avoid_eq : p.1.tryToAvoidTailLoop = false
  le_length : p.1.index ≤ length
  holds : inv p.1.index p.2

namespace Unrolled

variable {σ : Type*} {length step : ℕ} {inv : ℕ → σ → Prop} {p : LoopUnroll2 × σ}

theorem start {s : σ} (h0 : inv 0 s) : Unrolled length step inv (LoopUnroll2.start length step, s) :=
  ⟨rfl, rfl, rfl, Nat.zero_le _, h0⟩

/-- A weaker invariant. -/
theorem imp {inv' : ℕ → σ → Prop} (h : Unrolled length step inv p)
    (himp : ∀ i s, inv i s → inv' i s) : Unrolled length step inv' p :=
  ⟨h.length_eq, h.step_eq, h.avoid_eq, h.le_length, himp _ _ h.holds⟩

/-- The callback gets the indices of whole groups of vectors. -/
theorem unrollNTimes (h : Unrolled length step inv p) {factor : ℕ} {callback : ℕ → σ → σ}
    (hs : ∀ i s, i + factor * step ≤ length → inv i s → inv (i + factor * step) (callback i s)) :
    Unrolled length step inv (LoopUnroll2.unrollNTimes factor callback p) := by
  obtain ⟨⟨length', step', index, avoid⟩, s⟩ := p
  obtain ⟨h1, h2, h3, hle, hinv⟩ := h
  simp only at h1 h2 h3 hle hinv
  subst h1 h2 h3
  simp only [LoopUnroll2.unrollNTimes, LoopUnroll2.remainingLength, Bool.false_and,
    Bool.false_eq_true, if_false]
  have hmax : (length' - index) / (factor * step') * (factor * step') ≤ length' - index :=
    Nat.div_mul_le_self _ _
  refine ⟨rfl, rfl, rfl, by simp only; omega, ?_⟩
  refine forRange_invariant (fun i s => inv (index + i * (factor * step')) s) (by simpa using hinv)
    fun i hi s hi' => ?_
  have hstep : (i + 1) * (factor * step') ≤ length' - index :=
    (Nat.mul_le_mul_right _ hi).trans hmax
  rw [Nat.succ_mul] at hstep ⊢
  rw [← Nat.add_assoc]
  exact hs _ s (by omega) hi'

/-- Less than one group of vectors is left. -/
theorem lt_unrollNTimes (h : Unrolled length step inv p) (factor : ℕ) (callback : ℕ → σ → σ)
    (hpos : 0 < factor * step) :
    length < (LoopUnroll2.unrollNTimes factor callback p).1.index + factor * step := by
  obtain ⟨⟨length', step', index, avoid⟩, s⟩ := p
  obtain ⟨h1, h2, h3, hle, -⟩ := h
  simp only at h1 h2 h3 hle
  subst h1 h2 h3
  simp only [LoopUnroll2.unrollNTimes, LoopUnroll2.remainingLength, Bool.false_and,
    Bool.false_eq_true, if_false]
  have hlt := Nat.lt_div_mul_add hpos (a := length' - index)
  omega

theorem unrollTwice (h : Unrolled length step inv p) {callback : ℕ → σ → σ}
    (hs : ∀ i s, i + 2 * step ≤ length → inv i s → inv (i + 2 * step) (callback i s)) :
    Unrolled length step inv (LoopUnroll2.unrollTwice callback p) := h.unrollNTimes hs

theorem unrollOnce (h : Unrolled length step inv p) {callback : ℕ → σ → σ}
    (hs : ∀ i s, i + 1 * step ≤ length → inv i s → inv (i + 1 * step) (callback i s)) :
    Unrolled length step inv (LoopUnroll2.unrollOnce callback p) := h.unrollNTimes hs

theorem unrollTwiceIf (h : Unrolled length step inv p) {enable : Bool} {callback : ℕ → σ → σ}
    (hs : enable = true → ∀ i s, i + 2 * step ≤ length → inv i s →
      inv (i + 2 * step) (callback i s)) :
    Unrolled length step inv (LoopUnroll2.unrollTwiceIf enable callback p) := by
  cases enable with
  | true => exact h.unrollNTimes (hs rfl)
  | false => exact h

/-- The callback gets each index that is left. -/
theorem tail (h : Unrolled length step inv p) {callback : ℕ → σ → σ}
    (hs : ∀ i s, i < length → inv i s → inv (i + 1) (callback i s)) :
    inv length (LoopUnroll2.tail callback p).2 := by
  obtain ⟨⟨length', step', index, avoid⟩, s⟩ := p
  obtain ⟨h1, -, -, hle, hinv⟩ := h
  simp only at h1 hle hinv
  subst h1
  have hend : inv (index + (length' - index)) (forFrom index (length' - index) callback s) :=
    forFrom_invariant inv hinv fun i _ hi s => hs i s (by omega)
  rwa [Nat.add_sub_cancel' hle] at hend

/-- The callback gets all indices that are left at once. -/
theorem remaining (h : Unrolled length step inv p) (post : σ → Prop) {callback : ℕ → ℕ → σ → σ}
    (hdone : ∀ s, inv length s → post s)
    (hs : ∀ i s, i < length → inv i s → post (callback i length s)) :
    post (LoopUnroll2.remaining callback p).2 := by
  obtain ⟨⟨length', step', index, avoid⟩, s⟩ := p
  obtain ⟨h1, -, -, hle, hinv⟩ := h
  simp only at h1 hle hinv
  subst h1
  by_cases hrest : length' - index ≠ 0
  · rw [show LoopUnroll2.remaining callback (⟨length', step', index, avoid⟩, s) =
      (_, callback index length' s) from if_pos hrest]
    exact hs _ _ (by omega) hinv
  · rw [show LoopUnroll2.remaining callback (⟨length', step', index, avoid⟩, s) = _ from
      if_neg hrest]
    rw [show index = length' by omega] at hinv
    exact hdone s hinv

/-- Groups of vectors, then what is left at once: less than a group. -/
theorem unrollNTimes_remaining (h : Unrolled length step inv p) {factor : ℕ}
    (hpos : 0 < factor * step) (post : σ → Prop) {callback : ℕ → σ → σ} {rest : ℕ → ℕ → σ → σ}
    (hs : ∀ i s, i + factor * step ≤ length → inv i s → inv (i + factor * step) (callback i s))
    (hdone : ∀ s, inv length s → post s)
    (hrest : ∀ i s, i < length → length < i + factor * step → inv i s → post (rest i length s)) :
    post (LoopUnroll2.remaining rest (LoopUnroll2.unrollNTimes factor callback p)).2 := by
  have hgroups := h.unrollNTimes hs
  have hlt := h.lt_unrollNTimes factor callback hpos
  have hboth : Unrolled length step (fun i s => inv i s ∧ length < i + factor * step)
      (LoopUnroll2.unrollNTimes factor callback p) :=
    { hgroups with holds := ⟨hgroups.holds, hlt⟩ }
  exact hboth.remaining post (fun s hinv => hdone s hinv.1) fun i s hi hinv =>
    hrest i s hi hinv.2 hinv.1

/-- Vectors one at a time, then what is left at once: less than a vector. -/
theorem unrollOnce_remaining (h : Unrolled length step inv p) (hstep : 0 < step) (post : σ → Prop)
    {callback : ℕ → σ → σ} {rest : ℕ → ℕ → σ → σ}
    (hs : ∀ i s, i + step ≤ length → inv i s → inv (i + step) (callback i s))
    (hdone : ∀ s, inv length s → post s)
    (hrest : ∀ i s, i < length → length < i + step → inv i s → post (rest i length s)) :
    post (LoopUnroll2.remaining rest (LoopUnroll2.unrollOnce callback p)).2 := by
  have hone : 1 * step = step := Nat.one_mul step
  refine h.unrollNTimes_remaining (hone.symm ▸ hstep) post ?_ hdone ?_
  · rw [hone]
    exact hs
  · rw [hone]
    exact hrest

end Unrolled

/-- Vectors alone: where one fits, the last one ends with the data. -/
theorem unrollOnce_avoidingTail {σ : Type*} {length step index : ℕ} (inv : ℕ → σ → Prop)
    {callback : ℕ → σ → σ} {s : σ} (hstep : 0 < step) (hfull : step ≤ length)
    (hle : index ≤ length) (h0 : inv index s)
    (hs : ∀ i j s, i ≤ j → j ≤ i + step → i + step ≤ length → inv j s →
      inv (i + step) (callback i s)) :
    ∃ s', LoopUnroll2.unrollOnce callback (⟨length, step, index, true⟩, s)
      = (⟨length, step, length, true⟩, s') ∧ inv length s' := by
  simp only [LoopUnroll2.unrollOnce, LoopUnroll2.unrollNTimes, LoopUnroll2.remainingLength,
    beq_self_eq_true, Bool.and_self, if_true, Nat.one_mul, if_pos hfull]
  have hmax := Nat.div_mul_le_self (length - index) step
  have hlt := Nat.mod_lt (length - index) hstep
  have hmod := Nat.div_add_mod' (length - index) step
  have hloop : inv (index + (length - index) / step * step)
      (forRange ((length - index) / step) (fun i => callback (index + i * step)) s) := by
    refine forRange_invariant (fun i => inv (index + i * step)) (by simpa using h0)
      fun i hi s hi' => ?_
    have hstep' := Nat.mul_le_mul_right step (Nat.succ_le_of_lt hi)
    rw [Nat.succ_mul] at hstep' ⊢
    rw [← Nat.add_assoc]
    exact hs _ _ s le_rfl (Nat.le_add_right _ _) (by omega) hi'
  by_cases hlast : length - (index + (length - index) / step * step) = 0
  · rw [if_neg (not_not.mpr hlast)]
    have hend : index + (length - index) / step * step = length := by omega
    rw [hend] at hloop ⊢
    exact ⟨_, rfl, hloop⟩
  · rw [if_pos hlast]
    have hend := hs (length - step) _ _ (by omega) (by omega) (by omega) hloop
    rw [Nat.sub_add_cancel hfull] at hend
    exact ⟨_, rfl, hend⟩

/-- What the vectors leave behind. -/
theorem unrollOnce_avoidingTail_holds {σ : Type*} {length step : ℕ} (inv : ℕ → σ → Prop)
    {callback : ℕ → σ → σ} {s : σ} (hstep : 0 < step) (hfull : step ≤ length) (h0 : inv 0 s)
    (hs : ∀ i j s, i ≤ j → j ≤ i + step → i + step ≤ length → inv j s →
      inv (i + step) (callback i s)) :
    inv length ((LoopUnroll2.startAvoidingTail length step, s) |>
      LoopUnroll2.unrollOnce callback).2 := by
  obtain ⟨s', hloop, hinv⟩ := unrollOnce_avoidingTail inv hstep hfull (Nat.zero_le _) h0 hs
  rw [LoopUnroll2.startAvoidingTail, hloop]
  exact hinv

/-- Data shorter than a vector is left alone. -/
theorem unrollOnce_of_lt {σ : Type*} {length step index : ℕ} {callback : ℕ → σ → σ} {s : σ}
    (h : length < step) :
    LoopUnroll2.unrollOnce callback (⟨length, step, index, true⟩, s)
      = (⟨length, step, index, true⟩, s) := by
  simp only [LoopUnroll2.unrollOnce, LoopUnroll2.unrollNTimes, LoopUnroll2.remainingLength, beq_self_eq_true, Bool.and_self, if_true, Nat.one_mul,
    if_neg (Nat.not_le.mpr h)]

/-- With `TryToAvoidTailLoop` the last vector may overlap the one before it:
the callback at `i` finds `inv j` for some `j` between `i` and `i + step`.  Only
data shorter than a vector is left to `remaining`. -/
theorem unrollOnce_remaining_avoidingTail {σ : Type*} {length step : ℕ} (inv : ℕ → σ → Prop)
    {callback : ℕ → σ → σ} {rest : ℕ → ℕ → σ → σ} {s : σ} (hstep : 0 < step) (h0 : inv 0 s)
    (hs : ∀ i j s, i ≤ j → j ≤ i + step → i + step ≤ length → inv j s →
      inv (i + step) (callback i s))
    (hrest : length < step → inv length (rest 0 length s)) :
    inv length (((LoopUnroll2.startAvoidingTail length step, s) |> LoopUnroll2.unrollOnce callback |>
      LoopUnroll2.remaining rest).2) := by
  rw [LoopUnroll2.startAvoidingTail]
  by_cases hfull : step ≤ length
  · obtain ⟨s', hloop, hinv⟩ := unrollOnce_avoidingTail inv hstep hfull (Nat.zero_le _) h0 hs
    rw [hloop]
    simp only [LoopUnroll2.remaining, LoopUnroll2.remainingLength, Nat.sub_self, ne_eq,
      not_true_eq_false, if_false]
    exact hinv
  · rw [unrollOnce_of_lt (Nat.not_le.mp hfull)]
    simp only [LoopUnroll2.remaining, LoopUnroll2.remainingLength, Nat.sub_zero]
    by_cases hempty : length = 0
    · subst hempty
      simpa using h0
    · simp only [ne_eq, hempty, not_false_eq_true, if_true]
      exact hrest (by omega)

/-- The same from any index on, with the rest left to `tail`. -/
theorem unrollOnce_tail_avoidingTail {σ : Type*} {length step index : ℕ} (inv : ℕ → σ → Prop)
    {callback rest : ℕ → σ → σ} {s : σ} (hstep : 0 < step) (hle : index ≤ length)
    (h0 : inv index s)
    (hs : ∀ i j s, i ≤ j → j ≤ i + step → i + step ≤ length → inv j s →
      inv (i + step) (callback i s))
    (hrest : ∀ i s, i < length → inv i s → inv (i + 1) (rest i s)) :
    inv length (((⟨length, step, index, true⟩, s) |> LoopUnroll2.unrollOnce callback |>
      LoopUnroll2.tail rest).2) := by
  have htail : ∀ {k : ℕ} {s : σ}, k ≤ length → inv k s →
      inv length (forFrom k (length - k) rest s) := by
    intro k s hk h
    have hend : inv (k + (length - k)) (forFrom k (length - k) rest s) :=
      forFrom_invariant inv h fun i _ hi s => hrest i s (by omega)
    rwa [Nat.add_sub_cancel' hk] at hend
  by_cases hfull : step ≤ length
  · obtain ⟨s', hloop, hinv⟩ := unrollOnce_avoidingTail inv hstep hfull hle h0 hs
    rw [hloop]
    exact htail le_rfl hinv
  · rw [unrollOnce_of_lt (Nat.not_le.mp hfull)]
    exact htail hle h0

/-- Only vectors alone are ever moved back. -/
theorem unrollNTimes_of_ne_one {σ : Type*} {factor : ℕ} (hfactor : factor ≠ 1)
    (callback : ℕ → σ → σ) (loop : LoopUnroll2) (s : σ) :
    LoopUnroll2.unrollNTimes factor callback (loop, s) =
      let steps := loop.remainingLength / (factor * loop.step)
      ({ loop with index := loop.index + steps * (factor * loop.step) },
        forRange steps (fun i => callback (loop.index + i * (factor * loop.step))) s) := by
  have hone : (loop.tryToAvoidTailLoop && factor == 1) = false := by
    rw [beq_false_of_ne hfactor, Bool.and_false]
  simp only [LoopUnroll2.unrollNTimes, hone, Bool.false_eq_true, if_false]

/-- Four vectors do not fit. -/
theorem unrollFourTimes_of_lt {σ : Type*} {length step : ℕ} {callback : ℕ → σ → σ} {s : σ}
    (h : length < 4 * step) :
    LoopUnroll2.unrollFourTimes callback (LoopUnroll2.startAvoidingTail length step, s)
      = (LoopUnroll2.startAvoidingTail length step, s) := by
  have hsteps : (LoopUnroll2.startAvoidingTail length step).remainingLength / (4 * step) = 0 :=
    Nat.div_eq_of_lt h
  rw [LoopUnroll2.unrollFourTimes, unrollNTimes_of_ne_one (by decide)]
  simp only [show (LoopUnroll2.startAvoidingTail length step).step = step from rfl, hsteps,
    Nat.zero_mul]
  rfl

/-- Four vectors at a time, then vectors alone. -/
theorem unrollFourTimes_unrollOnce_avoidingTail {σ : Type*} {length step : ℕ} (inv : ℕ → σ → Prop)
    {four once : ℕ → σ → σ} {s : σ} (hstep : 0 < step) (hfull : step ≤ length) (h0 : inv 0 s)
    (hfour : ∀ i s, i + 4 * step ≤ length → inv i s → inv (i + 4 * step) (four i s))
    (honce : ∀ i j s, i ≤ j → j ≤ i + step → i + step ≤ length → inv j s →
      inv (i + step) (once i s)) :
    inv length ((LoopUnroll2.startAvoidingTail length step, s) |>
      LoopUnroll2.unrollFourTimes four |> LoopUnroll2.unrollOnce once).2 := by
  have hmax := Nat.div_mul_le_self length (4 * step)
  have hgroups : inv (length / (4 * step) * (4 * step))
      (forRange (length / (4 * step)) (fun i => four (0 + i * (4 * step))) s) := by
    refine forRange_invariant (fun i => inv (i * (4 * step))) (by simpa using h0)
      fun i hi s hi' => ?_
    have hstep' := Nat.mul_le_mul_right (4 * step) (Nat.succ_le_of_lt hi)
    rw [Nat.succ_mul] at hstep' ⊢
    rw [Nat.zero_add]
    exact hfour _ s (by omega) hi'
  obtain ⟨s', hloop, hinv⟩ := unrollOnce_avoidingTail inv hstep hfull hmax hgroups honce
  have hfourth : LoopUnroll2.unrollFourTimes four (LoopUnroll2.startAvoidingTail length step, s)
      = (⟨length, step, length / (4 * step) * (4 * step), true⟩,
        forRange (length / (4 * step)) (fun i => four (0 + i * (4 * step))) s) := by
    rw [LoopUnroll2.unrollFourTimes, unrollNTimes_of_ne_one (by decide)]
    simp only [LoopUnroll2.remainingLength, LoopUnroll2.startAvoidingTail, Nat.sub_zero,
      Nat.zero_add]
  rw [hfourth, hloop]
  exact hinv

/-- Vectors in pairs, then single elements; the last vectors are not moved.  What the
vectors carry on may be weakened before the single elements. -/
theorem unrollTwice_tail_avoidingTail {σ : Type*} {length step : ℕ} (inv inv' : ℕ → σ → Prop)
    {twice rest : ℕ → σ → σ} {s : σ} (h0 : inv 0 s)
    (htwice : ∀ i s, i + 2 * step ≤ length → inv i s → inv (i + 2 * step) (twice i s))
    (himp : ∀ i s, inv i s → inv' i s)
    (hrest : ∀ i s, i < length → inv' i s → inv' (i + 1) (rest i s)) :
    inv' length (((LoopUnroll2.startAvoidingTail length step, s) |>
      LoopUnroll2.unrollTwice twice |> LoopUnroll2.tail rest).2) := by
  have h := (((Unrolled.start h0).unrollNTimes htwice).imp himp).tail hrest
  exact h

/-- Vectors in pairs, then one at a time, then single elements. -/
theorem unrollTwiceIf_unrollOnce_tail_avoidingTail {σ : Type*} {length step : ℕ}
    (inv : ℕ → σ → Prop) {enable : Bool} {twice once rest : ℕ → σ → σ} {s : σ} (hstep : 0 < step)
    (h0 : inv 0 s)
    (htwice : enable = true → ∀ i s, i + 2 * step ≤ length → inv i s →
      inv (i + 2 * step) (twice i s))
    (honce : ∀ i j s, i ≤ j → j ≤ i + step → i + step ≤ length → inv j s →
      inv (i + step) (once i s))
    (hrest : ∀ i s, i < length → inv i s → inv (i + 1) (rest i s)) :
    inv length (((LoopUnroll2.startAvoidingTail length step, s) |>
      LoopUnroll2.unrollTwiceIf enable twice |> LoopUnroll2.unrollOnce once |>
      LoopUnroll2.tail rest).2) := by
  cases enable with
  | false => exact unrollOnce_tail_avoidingTail inv hstep (Nat.zero_le _) h0 honce hrest
  | true =>
    have hmax := Nat.div_mul_le_self length (2 * step)
    refine unrollOnce_tail_avoidingTail inv hstep ?_ ?_ honce hrest
    · simp only [LoopUnroll2.startAvoidingTail, LoopUnroll2.remainingLength, Nat.zero_add,
        Nat.sub_zero]
      exact hmax
    · simp only [LoopUnroll2.startAvoidingTail, LoopUnroll2.remainingLength, Nat.zero_add,
        Nat.sub_zero]
      refine forRange_invariant (fun i => inv (i * (2 * step))) (by simpa using h0)
        fun i hi s hi' => ?_
      have hstep' := Nat.mul_le_mul_right (2 * step) (Nat.succ_le_of_lt hi)
      rw [Nat.succ_mul] at hstep' ⊢
      exact htwice rfl _ s (by omega) hi'

end KleidiCV
