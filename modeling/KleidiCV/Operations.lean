/-
The facades that drive an operation over an image, `operations.h` and
`utils.h`.

An operation is a set of callbacks on a state; a callback is told the row and
the column it starts at.  `RowOperation.processRow` is `RowBasedOperation`,
`RowOperation.processRowInBlocks` is `RowBasedBlockOperation`, and `zipRows`
runs either of them over the rows of a rectangle, or over one long row when the
rows follow each other without gaps.

* `processRow_invariant` — rule for a row of an operation unrolled twice;
* `processRowInBlocks_invariant` — the same with blocks;
* `zipRows_eq` — `zip_rows` without its wrapping arithmetic.
-/
import KleidiCV.Lib.Loop
import KleidiCV.Utils

open Loop

namespace KleidiCV

/-- An operation as its facade sees it. -/
structure RowOperation (σ : Type*) where
  numLanes : ℕ
  isUnrolledTwice : Bool
  isUnrolledOnce : Bool
  tryToAvoidTailLoop : Bool
  maxVectorsPerBlock : ℕ
  vectorPath2x : ℕ → ℕ → σ → σ
  vectorPath : ℕ → ℕ → σ → σ
  scalarPath : ℕ → ℕ → σ → σ
  onBlockFinished : ℕ → σ → σ

/-- `LoopUnroll`. -/
structure LoopUnroll where
  length : ℕ
  step : ℕ
  canAvoidTail : Bool

namespace LoopUnroll

variable {σ : Type*}

def mk' (length step : ℕ) : LoopUnroll := ⟨length, step, decide (step ≤ length)⟩

/-- `unroll_n_times<UnrollFactor>`; the callback runs at the current column and
the columns advance by `step` after it. -/
def unrollNTimes (unrollFactor : ℕ) (callback : ℕ → σ → σ) (loop : LoopUnroll) (columns : ℕ × σ) :
    LoopUnroll × (ℕ × σ) :=
  let step := unrollFactor * loop.step
  let maxIndex := loop.length / step
  ({ loop with length := loop.length - step * maxIndex },
    forRange maxIndex (fun _ c => (c.1 + step, callback c.1 c.2)) columns)

/-- `remaining`, with `scalar_path` called for each element. -/
def remaining (scalarPath : ℕ → σ → σ) (loop : LoopUnroll) (columns : ℕ × σ) : σ :=
  if loop.length ≠ 0 then
    forRange loop.length (fun index => scalarPath (columns.1 + index)) columns.2
  else columns.2

end LoopUnroll

namespace RowOperation

variable {σ : Type*} (op : RowOperation σ)

/-- The part of `RowBasedOperation::process_row` after the label
`avoid_tail_loop`. -/
def unrollOnce (row : ℕ) (loop : LoopUnroll) (columns : ℕ × σ) : LoopUnroll × (ℕ × σ) :=
  let (loop, columns) := loop.unrollNTimes 1 (op.vectorPath row) columns
  if op.tryToAvoidTailLoop && loop.canAvoidTail && decide (loop.length ≠ 0) then
    -- Step back so that one more vector ends at the last column.
    { loop with length := loop.step }.unrollNTimes 1 (op.vectorPath row)
      (columns.1 - (loop.step - loop.length), columns.2)
  else (loop, columns)

/-- `RowBasedOperation::process_row`. -/
def processRow (row length : ℕ) (s : σ) : σ :=
  let loop := LoopUnroll.mk' length op.numLanes
  let (loop, columns) :=
    if op.isUnrolledTwice then loop.unrollNTimes 2 (op.vectorPath2x row) (0, s) else (loop, (0, s))
  let (loop, columns) :=
    if op.isUnrolledOnce then op.unrollOnce row loop columns else (loop, columns)
  loop.remaining (op.scalarPath row) columns

/-- The loop of `process_blocks`; `none` if it makes no progress. -/
def blockLoop (unrollFactor : ℕ) (callback : ℕ → σ → σ) (processedLength : ℕ) :
    ℕ → ℕ → ℕ × σ → Option (ℕ × σ)
  | fuel, index, columns =>
    if index < processedLength then
      match fuel with
      | 0 => none
      | fuel + 1 =>
        let maxVectorsPerBlock := (op.maxVectorsPerBlock / unrollFactor) * unrollFactor
        let remainingVectors := (processedLength - index) / op.numLanes
        let vectorsInBlock := min maxVectorsPerBlock remainingVectors
        let blockLength := vectorsInBlock * op.numLanes
        let (_, columns) := (LoopUnroll.mk' blockLength op.numLanes).unrollNTimes unrollFactor
          callback columns
        blockLoop unrollFactor callback processedLength fuel (index + blockLength)
          (columns.1, op.onBlockFinished vectorsInBlock columns.2)
    else some columns

/-- `process_blocks<UnrollFactor>`: the length left, and the columns. -/
def processBlocks (unrollFactor : ℕ) (callback : ℕ → σ → σ) (length : ℕ) (columns : ℕ × σ) :
    Option (ℕ × (ℕ × σ)) :=
  let elementsPerIteration := unrollFactor * op.numLanes
  let processedLength := (length / elementsPerIteration) * elementsPerIteration
  (op.blockLoop unrollFactor callback processedLength processedLength 0 columns).map fun columns =>
    (length - processedLength, columns)

/-- `RowBasedBlockOperation::process_row`. -/
def processRowInBlocks (row length : ℕ) (s : σ) : Option σ := do
  let (length, columns) ←
    if op.isUnrolledTwice then op.processBlocks 2 (op.vectorPath2x row) length (0, s)
    else some (length, (0, s))
  let (length, columns) ←
    if op.isUnrolledOnce then op.processBlocks 1 (op.vectorPath row) length columns
    else some (length, columns)
  some ((LoopUnroll.mk' length op.numLanes).remaining (op.scalarPath row) columns)

end RowOperation

/-- `zip_rows`: `continuous` says whether all rows `is_continuous`, in which
case the rectangle is flattened. -/
def zipRows {σ : Type*} (continuous : Bool) (width height : ℕ) (processRow : ℕ → ℕ → σ → σ)
    (s : σ) : σ :=
  if continuous then
    forRange 1 (fun rowIndex => processRow rowIndex (width * height % sizeMod)) s
  else
    forRange height (fun rowIndex => processRow rowIndex width) s

/-! ### Rules -/

section

variable {σ : Type*} {op : RowOperation σ} {row length : ℕ} {s : σ}

theorem unrollNTimes_eq (unrollFactor : ℕ) (callback : ℕ → σ → σ) (loop : LoopUnroll) (c : ℕ)
    (s : σ) :
    loop.unrollNTimes unrollFactor callback (c, s) =
      ({ loop with length := loop.length % (unrollFactor * loop.step) },
        (c + loop.length / (unrollFactor * loop.step) * (unrollFactor * loop.step),
          forRange (loop.length / (unrollFactor * loop.step))
            (fun i => callback (c + i * (unrollFactor * loop.step))) s)) := by
  unfold LoopUnroll.unrollNTimes
  simp only [forRange_cursor, Nat.mod_eq_sub]

theorem remaining_invariant (inv : ℕ → σ → Prop) (scalarPath : ℕ → σ → σ) (loop : LoopUnroll)
    {c : ℕ} (h0 : inv c s)
    (hs : ∀ i, c ≤ i → i < c + loop.length → ∀ s, inv i s → inv (i + 1) (scalarPath i s)) :
    inv (c + loop.length) (loop.remaining scalarPath (c, s)) := by
  unfold LoopUnroll.remaining
  split
  · exact forFrom_invariant inv h0 hs
  · rename_i h
    rw [not_not.mp h]
    exact h0

/-- A row of an operation unrolled twice: pairs of vectors as far as they fit,
then single elements. -/
theorem processRow_invariant (inv : ℕ → σ → Prop) (h2 : op.isUnrolledTwice = true)
    (h1 : op.isUnrolledOnce = false) (h0 : inv 0 s)
    (hvector : ∀ i < length / (2 * op.numLanes), ∀ s, inv (i * (2 * op.numLanes)) s →
      inv ((i + 1) * (2 * op.numLanes)) (op.vectorPath2x row (i * (2 * op.numLanes)) s))
    (hscalar : ∀ c, length / (2 * op.numLanes) * (2 * op.numLanes) ≤ c → c < length →
      ∀ s, inv c s → inv (c + 1) (op.scalarPath row c s)) :
    inv length (op.processRow row length s) := by
  have hlen : length / (2 * op.numLanes) * (2 * op.numLanes) + length % (2 * op.numLanes) =
      length := by
    rw [Nat.mul_comm]
    exact Nat.div_add_mod length _
  simp only [RowOperation.processRow, h2, h1, LoopUnroll.mk', if_true, unrollNTimes_eq,
    Nat.zero_add, Bool.false_eq_true, if_false]
  have key := remaining_invariant inv (op.scalarPath row)
    ⟨length % (2 * op.numLanes), op.numLanes, decide (op.numLanes ≤ length)⟩
    (forRange_invariant (fun i => inv (i * (2 * op.numLanes))) (by simpa using h0) hvector)
    fun c hc hc' => hscalar c hc (by simpa only [hlen] using hc')
  simpa only [hlen] using key

/-- A block is a whole number `q` of rounds of `unrollFactor` vectors. -/
theorem exists_block {unrollFactor processedLength index : ℕ} (hlanes : 0 < op.numLanes)
    (hfactor : 0 < unrollFactor) (hmax : unrollFactor ≤ op.maxVectorsPerBlock)
    (hprocessed : unrollFactor * op.numLanes ∣ processedLength)
    (hdvd : unrollFactor * op.numLanes ∣ index) (hlt : index < processedLength) :
    ∃ q, min (op.maxVectorsPerBlock / unrollFactor * unrollFactor)
        ((processedLength - index) / op.numLanes) = q * unrollFactor ∧
      0 < q ∧ q * unrollFactor ≤ op.maxVectorsPerBlock ∧
      index + q * (unrollFactor * op.numLanes) ≤ processedLength := by
  obtain ⟨r, hr⟩ : unrollFactor * op.numLanes ∣ processedLength - index :=
    Nat.dvd_sub hprocessed hdvd
  have hr0 : 0 < r := by
    rcases Nat.eq_zero_or_pos r with h | h
    · rw [h, Nat.mul_zero] at hr
      omega
    · exact h
  have hvectors : (processedLength - index) / op.numLanes = r * unrollFactor := by
    rw [hr, show unrollFactor * op.numLanes * r = r * unrollFactor * op.numLanes by ring,
      Nat.mul_div_cancel _ hlanes]
  refine ⟨min (op.maxVectorsPerBlock / unrollFactor) r, ?_, lt_min (Nat.div_pos hmax hfactor) hr0,
    ?_, ?_⟩
  · rw [hvectors, Nat.mul_min_mul_right]
  · exact (Nat.mul_le_mul_right _ (min_le_left _ _)).trans (Nat.div_mul_le_self _ _)
  · have h1 := Nat.mul_le_mul_right (unrollFactor * op.numLanes)
      (min_le_right (op.maxVectorsPerBlock / unrollFactor) r)
    rw [Nat.mul_comm r, ← hr] at h1
    omega

/-- The loop over blocks.  `blocks c` holds between blocks, `inside b c` at
column `c` of the block that began at `b`. -/
theorem blockLoop_invariant {unrollFactor processedLength : ℕ} {callback : ℕ → σ → σ}
    (blocks : ℕ → σ → Prop) (inside : ℕ → ℕ → σ → Prop) (hlanes : 0 < op.numLanes)
    (hfactor : 0 < unrollFactor) (hmax : unrollFactor ≤ op.maxVectorsPerBlock)
    (hprocessed : unrollFactor * op.numLanes ∣ processedLength)
    (hbegin : ∀ b s, b < processedLength → blocks b s → inside b b s)
    (hstep : ∀ b i s, b + (i + 1) * (unrollFactor * op.numLanes) ≤ processedLength →
      (i + 1) * unrollFactor ≤ op.maxVectorsPerBlock →
      inside b (b + i * (unrollFactor * op.numLanes)) s →
      inside b (b + (i + 1) * (unrollFactor * op.numLanes))
        (callback (b + i * (unrollFactor * op.numLanes)) s))
    (hfinish : ∀ b v s, 0 < v → v ≤ op.maxVectorsPerBlock → b + v * op.numLanes ≤ processedLength →
      inside b (b + v * op.numLanes) s → blocks (b + v * op.numLanes) (op.onBlockFinished v s)) :
    ∀ fuel index s, processedLength - index ≤ fuel → index ≤ processedLength →
      unrollFactor * op.numLanes ∣ index → blocks index s →
      ∃ s', op.blockLoop unrollFactor callback processedLength fuel index (index, s) =
        some (processedLength, s') ∧ blocks processedLength s' := by
  intro fuel
  induction fuel with
  | zero =>
    intro index s hfuel hindex _ hb
    obtain rfl : index = processedLength := by omega
    exact ⟨s, by simp [RowOperation.blockLoop], hb⟩
  | succ fuel ih =>
    intro index s hfuel hindex hdvd hb
    rw [RowOperation.blockLoop]
    split
    · rename_i hlt
      obtain ⟨q, hq, hq0, hcap, hfit⟩ := exists_block hlanes hfactor hmax hprocessed hdvd hlt
      have hlen : q * unrollFactor * op.numLanes = q * (unrollFactor * op.numLanes) := by ring
      have hstep0 : 0 < unrollFactor * op.numLanes := Nat.mul_pos hfactor hlanes
      simp only [hq, LoopUnroll.mk', unrollNTimes_eq, hlen, Nat.mul_div_cancel _ hstep0]
      have hinside := forRange_invariant
        (fun i => inside index (index + i * (unrollFactor * op.numLanes))) (n := q)
        (f := fun i => callback (index + i * (unrollFactor * op.numLanes))) (s := s)
        (by simpa using hbegin index s hlt hb) fun i hi t ht => by
          have h1 := Nat.mul_le_mul_right (unrollFactor * op.numLanes) hi
          have h2 := Nat.mul_le_mul_right unrollFactor hi
          exact hstep index i t (by simp only [Nat.succ_eq_add_one] at h1; omega)
            (by simp only [Nat.succ_eq_add_one] at h2; omega) ht
      have hblock := hfinish index (q * unrollFactor) _ (Nat.mul_pos hq0 hfactor) hcap
        (by rw [hlen]; exact hfit) (by rw [hlen]; exact hinside)
      rw [hlen] at hblock
      have hq1 : 1 ≤ q * (unrollFactor * op.numLanes) := Nat.mul_pos hq0 hstep0
      exact ih _ _ (by omega) hfit (Nat.dvd_add hdvd (Nat.dvd_mul_left _ _)) hblock
    · obtain rfl : index = processedLength := by omega
      exact ⟨s, rfl, hb⟩

/-- A row of a block operation unrolled twice: blocks of pairs of vectors,
`blocks` between them, then single elements. -/
theorem processRowInBlocks_invariant (blocks : ℕ → σ → Prop) (inside : ℕ → ℕ → σ → Prop)
    (h2 : op.isUnrolledTwice = true) (h1 : op.isUnrolledOnce = false) (hlanes : 0 < op.numLanes)
    (hmax : 2 ≤ op.maxVectorsPerBlock) (h0 : blocks 0 s)
    (hbegin : ∀ b s, b < length → blocks b s → inside b b s)
    (hstep : ∀ b i s, b + (i + 1) * (2 * op.numLanes) ≤ length →
      (i + 1) * 2 ≤ op.maxVectorsPerBlock → inside b (b + i * (2 * op.numLanes)) s →
      inside b (b + (i + 1) * (2 * op.numLanes))
        (op.vectorPath2x row (b + i * (2 * op.numLanes)) s))
    (hfinish : ∀ b v s, 0 < v → v ≤ op.maxVectorsPerBlock → b + v * op.numLanes ≤ length →
      inside b (b + v * op.numLanes) s → blocks (b + v * op.numLanes) (op.onBlockFinished v s))
    (hscalar : ∀ c, length / (2 * op.numLanes) * (2 * op.numLanes) ≤ c → c < length →
      ∀ s, blocks c s → blocks (c + 1) (op.scalarPath row c s)) :
    ∃ s', op.processRowInBlocks row length s = some s' ∧ blocks length s' := by
  have hle : length / (2 * op.numLanes) * (2 * op.numLanes) ≤ length := Nat.div_mul_le_self _ _
  obtain ⟨s', hs', hb⟩ := blockLoop_invariant blocks inside hlanes Nat.two_pos hmax
    (Nat.dvd_mul_left (2 * op.numLanes) (length / (2 * op.numLanes)))
    (fun b s hlt => hbegin b s (hlt.trans_le hle))
    (fun b i s hi => hstep b i s (hi.trans hle))
    (fun b v s h0 hv hfit => hfinish b v s h0 hv (hfit.trans hle))
    _ 0 s (Nat.sub_le _ _) (Nat.zero_le _) (Nat.dvd_zero _) h0
  have hlen : length / (2 * op.numLanes) * (2 * op.numLanes) +
      (length - length / (2 * op.numLanes) * (2 * op.numLanes)) = length := by omega
  have key := remaining_invariant blocks (op.scalarPath row)
    (LoopUnroll.mk' (length - length / (2 * op.numLanes) * (2 * op.numLanes)) op.numLanes)
    hb fun c hc hc' => hscalar c hc (by simpa only [LoopUnroll.mk', hlen] using hc')
  simp only [LoopUnroll.mk', hlen] at key
  refine ⟨_, ?_, key⟩
  simp [RowOperation.processRowInBlocks, h2, h1, RowOperation.processBlocks, hs', LoopUnroll.mk']

/-- `zip_rows` without its wrapping arithmetic: one row of `width * height`, or
`height` rows. -/
theorem zipRows_eq (continuous : Bool) {width height : ℕ} (h : width * height < sizeMod)
    (processRow : ℕ → ℕ → σ → σ) (s : σ) :
    zipRows continuous width height processRow s =
      if continuous then processRow 0 (width * height) s
      else forRange height (fun rowIndex => processRow rowIndex width) s := by
  unfold zipRows
  rw [Nat.mod_eq_of_lt h]
  rfl

end

end KleidiCV
