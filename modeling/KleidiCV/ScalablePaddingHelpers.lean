/-
The helpers of `add_padding_by_copy` that write a border, on scalable vectors.

The SVE2 helpers go through a border as the Neon ones do and leave its end to single pixels; the
SME helpers take the end in vectors too, through predicates, and reverse it with indices that count
down from its last pixel.  `sme` says which of them a function is.

* `copyContiguousBytes_copies`, `fillRepeatedPixel_fills`, `copyReversedPixels_reverses` — what
  the helpers do;
* `helpers_agree` — the same as the Neon helpers.
-/
import KleidiCV.PaddingHelpers
import KleidiCV.ScalableFlip

open Loop

namespace KleidiCV

/-- `unroll_once_if`. -/
def LoopUnroll2.unrollOnceIf {σ : Type*} (enable : Bool) (callback : ℕ → σ → σ)
    (p : LoopUnroll2 × σ) : LoopUnroll2 × σ :=
  if enable then LoopUnroll2.unrollOnce callback p else p

namespace Scalable

namespace Padding

open KleidiCV.Padding

/-- `svptrue_pat_b8(SV_VL<n>)`. -/
def svptruePatB8 (vl : VectorLength) (n : ℕ) : ℕ → Bool := fun l =>
  decide (n ≤ numLanes vl 1 ∧ l < n)

/-- `svreinterpret` of bytes. -/
def svreinterpret (sz : ℕ) (bytes : Vector) : Vector := fun l k => bytes (l * sz + k) 0

/-- `svdup_lane`. -/
def svdupLane (v : Vector) (lane : ℕ) : Vector := fun _ => v lane

/-- `load_repeated_unaligned`. -/
def loadRepeatedUnaligned (vl : VectorLength) (sz src : ℕ) (r : Tallied U8) :
    Vector × Tallied U8 :=
  let bytes := svld1 vl 1 (svptruePatB8 vl sz) src r
  (svdupLane (svreinterpret sz bytes.1) 0, bytes.2)

variable (sme : Bool) (vl : VectorLength)

/-- `copy_contiguous_bytes`. -/
def copyContiguousBytes : ByteCopier := fun src dst size r =>
  if sme then
    ((LoopUnroll2.start size (numLanes vl 1), r) |>
      LoopUnroll2.unrollFourTimes (fun index r =>
        let v := Flip.loadConsecutive4 vl 1 (src + index) r
        Flip.storeConsecutive4 vl 1 v.1.1 v.1.2.1 v.1.2.2.1 v.1.2.2.2 (dst + index) v.2) |>
      LoopUnroll2.remaining fun index length =>
        forSteps index (numLanes vl 1) length fun index r =>
          let tailPg := svwhilelt index length
          let v := svld1 vl 1 tailPg (src + index) r
          svst1 vl 1 tailPg (dst + index) v.1 v.2).2
  else memcpy dst src size r

/-- `fill_single_channel`. -/
def fillSingleChannel (sz valueBytes dst rowSize : ℕ) (r : Tallied U8) : Tallied U8 :=
  let repeatedValue := loadRepeatedUnaligned vl sz valueBytes r
  let count := rowSize / sz
  ((LoopUnroll2.start count (numLanes vl sz), repeatedValue.2) |>
    LoopUnroll2.unrollTwice (fun index =>
      Flip.storeConsecutive2 vl sz repeatedValue.1 repeatedValue.1 (dst + index * sz)) |>
    LoopUnroll2.remaining fun index length =>
      if sme then
        forSteps index (numLanes vl sz) length fun index =>
          svst1 vl sz (svwhilelt index length) (dst + index * sz) repeatedValue.1
      else
        fillRepeatedByBytes (copyContiguousBytes sme vl) sz valueBytes (dst + index * sz)
          ((length - index) * sz)).2

/-- `fill_interleaved_3`. -/
def fillInterleaved3 (sz valueBytes dst rowSize : ℕ) (r : Tallied U8) : Tallied U8 :=
  let value0 := loadRepeatedUnaligned vl sz valueBytes r
  let value1 := loadRepeatedUnaligned vl sz (valueBytes + sz) value0.2
  let value2 := loadRepeatedUnaligned vl sz (valueBytes + 2 * sz) value1.2
  let vectorValue : ℕ → Vector := fun c => ([value0.1, value1.1, value2.1]).getD c value0.1
  let count := rowSize / (3 * sz)
  let store := fun index => svst3 vl sz svptrue (dst + 3 * index * sz) vectorValue
  ((LoopUnroll2.start count (numLanes vl sz), value2.2) |>
    LoopUnroll2.unrollTwice (fun index r => store (index + numLanes vl sz) (store index r)) |>
    LoopUnroll2.remaining fun index length =>
      if sme then
        forSteps index (numLanes vl sz) length fun index =>
          svst3 vl sz (svwhilelt index length) (dst + 3 * index * sz) vectorValue
      else
        fillRepeatedByBytes (copyContiguousBytes sme vl) (3 * sz) valueBytes
          (dst + index * (3 * sz)) ((length - index) * (3 * sz))).2

/-- `RepeatedPixelWriter<PixelSize>::fill_repeated_pixel`. -/
def fillRepeatedPixel (PixelSize pixelSize : ℕ) : ℕ → ℕ → ℕ → Tallied U8 → Tallied U8 :=
  byPixelSize PixelSize (fillSingleChannel sme vl) (fillInterleaved3 sme vl)
    (fillRepeatedByBytes (copyContiguousBytes sme vl) pixelSize)

/-- `copy_reversed_packed`. -/
def copyReversedPacked (sz srcLast dst rowSize : ℕ) (r : Tallied U8) : Tallied U8 :=
  let count := rowSize / sz
  let kStep := numLanes vl sz
  let copyBlock := fun index r =>
    let srcVector := svld1 vl sz svptrue (srcLast + sz - (index + kStep) * sz) r
    svst1 vl sz svptrue (dst + index * sz) (svrev vl sz srcVector.1) srcVector.2
  let copyBlockPair := fun index r =>
    let srcVector := Flip.loadConsecutive2 vl sz (srcLast + sz - (index + 2 * kStep) * sz) r
    Flip.storeConsecutive2 vl sz (svrev vl sz srcVector.1.2) (svrev vl sz srcVector.1.1)
      (dst + index * sz) srcVector.2
  ((LoopUnroll2.start count kStep, r) |>
    LoopUnroll2.unrollTwice copyBlockPair |>
    LoopUnroll2.unrollOnceIf sme copyBlock |>
    LoopUnroll2.remaining fun index length r =>
      if sme then
        let tailPg := svwhilelt index length
        let srcVector := svld1 vl sz tailPg (srcLast + sz - length * sz) r
        let indices := reversalIndices sz (length - index)
        svst1 vl sz tailPg (dst + index * sz) (svtbl vl sz srcVector.1 indices) srcVector.2
      else
        copyReversedByBytes (copyContiguousBytes sme vl) sz (srcLast - index * sz)
          (dst + index * sz) ((length - index) * sz) r).2

/-- `copy_reversed_interleaved_3`. -/
def copyReversedInterleaved3 (sz srcLast dst rowSize : ℕ) (r : Tallied U8) : Tallied U8 :=
  let count := rowSize / (3 * sz)
  let kStep := numLanes vl sz
  let copyBlock := fun index r =>
    let srcVector := svld3 vl sz svptrue (srcLast + 3 * sz - 3 * (index + kStep) * sz) r
    svst3 vl sz svptrue (dst + 3 * index * sz) (Flip.reverseLanes vl sz srcVector.1) srcVector.2
  ((LoopUnroll2.start count kStep, r) |>
    LoopUnroll2.unrollTwice (fun index r => copyBlock (index + kStep) (copyBlock index r)) |>
    LoopUnroll2.unrollOnceIf sme copyBlock |>
    LoopUnroll2.remaining fun index length r =>
      if sme then
        let tailPg := svwhilelt index length
        let srcVector := svld3 vl sz tailPg (srcLast + 3 * sz - 3 * length * sz) r
        let indices := reversalIndices sz (length - index)
        svst3 vl sz tailPg (dst + 3 * index * sz)
          (Flip.applyTblPerVector vl sz srcVector.1 indices) srcVector.2
      else
        copyReversedByBytes (copyContiguousBytes sme vl) (3 * sz) (srcLast - index * (3 * sz))
          (dst + index * (3 * sz)) ((length - index) * (3 * sz)) r).2

/-- `ReversedPixelCopier<PixelSize>::copy_reversed_pixels`. -/
def copyReversedPixels (PixelSize pixelSize : ℕ) : ℕ → ℕ → ℕ → Tallied U8 → Tallied U8 :=
  byPixelSize PixelSize (copyReversedPacked sme vl) (copyReversedInterleaved3 sme vl)
    (copyReversedByBytes (copyContiguousBytes sme vl) pixelSize)

/-! ### Copied bytes -/

variable {sme vl}

variable (sme vl) in
theorem copyContiguousBytes_copies : (copyContiguousBytes sme vl).Copies := by
  intro src dst size r hapart
  have hsz : ScalarSize 1 := Or.inl rfl
  cases sme with
  | false => exact memcpy_copies src dst size r hapart
  | true =>
    -- A block that follows those before it.
    have hstep : ∀ {i n r'}, i + n ≤ size →
        RowStored (Set.Ico src (src + size)) dst i (fun j => r.mem (src + j)) r r' →
        RowStored (Set.Ico src (src + size)) dst (i + n) (fun j => r.mem (src + j)) r
          ((r'.loadRange (src + i) n).storeRange (dst + i) n fun j => r'.mem (src + i + j)) := by
      intro i n r' hi h
      refine h.append ?_
      have hblock := RowStored.load_store (src + i) n (dst + i) n (fun j => r'.mem (src + i + j)) r'
        (Set.Ico_subset_Ico (Nat.le_add_right src i) (show src + i + n ≤ src + size by omega))
      refine hblock.congr fun j hj => ?_
      rw [Nat.add_assoc]
      exact h.read_apart (fun a ha b hb => hapart a ha b (by omega)) (by omega)
    have hlanes : numLanes vl 1 = vl.bytes := by
      have := numLanes_mul vl hsz
      rwa [Nat.mul_one] at this
    have hstart : Unrolled size (numLanes vl 1)
        (fun i => RowStored (Set.Ico src (src + size)) dst i (fun j => r.mem (src + j)) r)
        (LoopUnroll2.start size (numLanes vl 1), r) := Unrolled.start (RowStored.empty _ dst _ r)
    rw [copyContiguousBytes, if_pos rfl]
    refine (hstart.unrollNTimes fun i r' hi h => ?_).remaining _ (fun r' h => h) fun i r' hi h => ?_
    · rw [Flip.storeConsecutive4_load hsz, Flip.loadConsecutive4_touches hsz, hlanes]
      rw [hlanes] at hi
      exact hstep hi h
    · refine forSteps_invariant
        (fun i => RowStored (Set.Ico src (src + size)) dst i (fun j => r.mem (src + j)) r)
        (numLanes_pos vl hsz) hi.le h fun i _ hi r' h => ?_
      have hpg := @leading_whilelt_min (numLanes vl 1) i size
      simp only [hpg.svst1_svld1 hsz.pos, hpg.svld1_touches hsz.pos, Nat.mul_one]
      exact hstep (by omega) h

/-! ### A border filled with one pixel -/

section

variable {L : Set ℕ} {sz p dst n k : ℕ} {g : ℕ → U8} {r : Tallied U8}

/-- A scalar is no longer than a vector. -/
theorem scalar_le_vector (vl : VectorLength) (hsz : ScalarSize sz) : sz ≤ numLanes vl 1 := by
  have hone : ScalarSize 1 := Or.inl rfl
  have hmul := numLanes_mul vl hone
  have hall := numLanes_mul vl hsz
  have := Nat.le_mul_of_pos_left sz (numLanes_pos vl hsz)
  omega

/-- Every lane holds the scalar at `src`. -/
theorem loadRepeatedUnaligned_lane (hsz : ScalarSize sz) (src : ℕ) (r : Tallied U8) (l : ℕ) {k : ℕ}
    (hk : k < sz) : (loadRepeatedUnaligned vl sz src r).1 l k = r.mem (src + k) := by
  have hbytes := scalar_le_vector vl hsz
  have hactive : svptruePatB8 vl sz (0 * sz + k) = true := decide_eq_true ⟨hbytes, by omega⟩
  show (if svptruePatB8 vl sz (0 * sz + k) = true then _ else _) = _
  rw [if_pos hactive, Nat.zero_mul, Nat.zero_add, Nat.one_mul, Nat.add_zero, Nat.mul_one,
    Nat.add_zero]

theorem loadRepeatedUnaligned_touches (hsz : ScalarSize sz) (src : ℕ) (r : Tallied U8) :
    (loadRepeatedUnaligned vl sz src r).2 = r.loadRange src sz := by
  have hbytes := scalar_le_vector vl hsz
  have hpg : Leading (numLanes vl 1) (svptruePatB8 vl sz) sz :=
    ⟨hbytes, fun l _ => decide_eq_decide.mpr (and_iff_right hbytes)⟩
  refine (hpg.svld1_touches Nat.one_pos).trans ?_
  rw [Nat.mul_one]

/-- `P` vectors that hold the scalars of a pixel in every lane. -/
def Repeats (sz P : ℕ) (v : ℕ → Vector) (m : Mem) (value : ℕ) : Prop :=
  ∀ c < P, ∀ l i, i < sz → v c l i = m (value + (c * sz + i))

/-- Some more pixels, through a predicate. -/
theorem repeated_append {P value i : ℕ} {v : ℕ → Vector} {pg : ℕ → Bool} {r' : Tallied U8}
    (hp : P * sz = p) (hP : 0 < P) (hsz : 0 < sz) (hv : Repeats sz P v r.mem value)
    (hpg : Leading (numLanes vl sz) pg k)
    (h : RowStored L dst (i * p) (fun j => r.mem (value + j % p)) r r') :
    RowStored L dst ((i + k) * p) (fun j => r.mem (value + j % p)) r
      (svst (numLanes vl sz) sz P pg (dst + i * p) v r') := by
  have hstore : svst (numLanes vl sz) sz P pg (dst + i * p) v r' =
      r'.storeRange (dst + i * p) (k * p) fun j => r.mem (value + j % p) := by
    subst hp
    rw [hpg.svst_eq (Nat.mul_pos hP hsz)]
    refine Tallied.storeRange_congr fun j _ => ?_
    rw [hv _ (Nat.mod_lt _ hP) _ _ (Nat.mod_lt j hsz), Nat.mul_comm P, Nat.mod_mul]
    congr 1
    ring
  rw [hstore]
  exact filled_append h (RowStored.storeRange _ _ _ _ r')

/-- A border in pairs of vectors, and its end in vectors or in bytes. -/
theorem repeated_stored {P value : ℕ} {v : ℕ → Vector} {r₀ : Tallied U8} (hp : P * sz = p)
    (hP : 0 < P) (hsz : ScalarSize sz) (hv : Repeats sz P v r.mem value)
    (hapart : RangesApart value p dst (n * p)) (hload : Touched (Set.Ico value (value + p)) ∅ r r₀) :
    RowStored (Set.Ico value (value + p)) dst (n * p) (fun j => r.mem (value + j % p)) r
      ((LoopUnroll2.start n (numLanes vl sz), r₀) |>
        LoopUnroll2.unrollTwice (fun index r =>
          svst (numLanes vl sz) sz P svptrue (dst + (index + numLanes vl sz) * p) v
            (svst (numLanes vl sz) sz P svptrue (dst + index * p) v r)) |>
        LoopUnroll2.remaining fun index length =>
          if sme then
            forSteps index (numLanes vl sz) length fun index =>
              svst (numLanes vl sz) sz P (svwhilelt index length) (dst + index * p) v
          else
            fillRepeatedByBytes (copyContiguousBytes sme vl) p value (dst + index * p)
              ((length - index) * p)).2 := by
  have hpos : 0 < p := hp ▸ Nat.mul_pos hP hsz.pos
  have hstart : Unrolled n (numLanes vl sz)
      (fun i => RowStored (Set.Ico value (value + p)) dst (i * p)
        (fun j => r.mem (value + j % p)) r) (LoopUnroll2.start n (numLanes vl sz), r₀) := by
    refine Unrolled.start ?_
    rw [Nat.zero_mul]
    exact RowStored.after_loads hload (RowStored.empty _ dst _ _)
  refine (hstart.unrollTwice fun i r' hi h => ?_).remaining _ (fun r' h => h) fun i r' hi h => ?_
  · have hfull : Leading (numLanes vl sz) svptrue (numLanes vl sz) := leading_ptrue
    have hone := repeated_append hp hP hsz.pos hv hfull h
    have htwo := repeated_append hp hP hsz.pos hv hfull hone
    rw [Nat.add_assoc, ← Nat.two_mul] at htwo
    exact htwo
  · split
    · refine forSteps_invariant (fun i => RowStored (Set.Ico value (value + p)) dst (i * p)
        (fun j => r.mem (value + j % p)) r) (numLanes_pos vl hsz) hi.le h fun i _ hi r' h => ?_
      exact repeated_append hp hP hsz.pos hv (leading_whilelt_min i n) h
    · exact filled_rest (fillRepeatedByBytes_fills hpos (copyContiguousBytes_copies sme vl)) hpos hapart hi h

/-- A border filled with a pixel of one scalar. -/
theorem fillSingleChannel_fills (hsz : ScalarSize sz) : Fills sz (fillSingleChannel sme vl sz) := by
  intro value dst n r hapart
  have hv : Repeats sz 1 (fun _ => (loadRepeatedUnaligned vl sz value r).1) r.mem value := by
    intro c hc l i hi
    rw [Nat.lt_one_iff.mp hc, Nat.zero_mul, Nat.zero_add]
    exact loadRepeatedUnaligned_lane hsz value r l hi
  have hload : Touched (Set.Ico value (value + sz)) ∅ r (loadRepeatedUnaligned vl sz value r).2 := by
    rw [loadRepeatedUnaligned_touches hsz]
    exact Touched.loadRange r value sz
  have hpair : ∀ index v, Flip.storeConsecutive2 vl sz v v (dst + index * sz) = fun r =>
      svst1 vl sz svptrue (dst + (index + numLanes vl sz) * sz) v
        (svst1 vl sz svptrue (dst + index * sz) v r) := by
    intro index v
    funext r
    rw [Flip.storeConsecutive2, Nat.add_mul, numLanes_mul vl hsz, Nat.add_assoc]
  rw [fillSingleChannel, Nat.mul_div_cancel n hsz.pos]
  simp only [hpair]
  exact repeated_stored (Nat.one_mul sz) Nat.one_pos hsz hv hapart hload

/-- A border filled with a pixel of three scalars. -/
theorem fillInterleaved3_fills (hsz : ScalarSize sz) :
    Fills (3 * sz) (fillInterleaved3 sme vl sz) := by
  intro value dst n r hapart
  have hv : Repeats sz 3 (fun c =>
      [(loadRepeatedUnaligned vl sz value r).1,
        (loadRepeatedUnaligned vl sz (value + sz) (r.loadRange value sz)).1,
        (loadRepeatedUnaligned vl sz (value + 2 * sz)
          ((r.loadRange value sz).loadRange (value + sz) sz)).1].getD c
        (loadRepeatedUnaligned vl sz value r).1) r.mem value := by
    intro c hc l i hi
    have hscalar : ∀ (src : ℕ) (r' : Tallied U8), r'.mem = r.mem →
        (loadRepeatedUnaligned vl sz src r').1 l i = r.mem (src + i) := fun src r' hmem =>
      (loadRepeatedUnaligned_lane hsz src r' l hi).trans (by rw [hmem])
    rw [← Nat.add_assoc]
    match c, hc with
    | 0, _ =>
      rw [Nat.zero_mul, Nat.add_zero]
      exact hscalar value r rfl
    | 1, _ =>
      rw [Nat.one_mul]
      exact hscalar (value + sz) _ rfl
    | 2, _ => exact hscalar (value + 2 * sz) _ rfl
  have hplace : ∀ index, 3 * index * sz = index * (3 * sz) := fun index => by
    rw [Nat.mul_comm 3, Nat.mul_assoc]
  rw [fillInterleaved3, Nat.mul_div_cancel n (Nat.mul_pos three_pos hsz.pos)]
  simp only [loadRepeatedUnaligned_touches hsz, svst3, hplace]
  exact repeated_stored rfl three_pos hsz hv hapart (loadPixel3_touched value sz r)

variable (sme vl) in
/-- A border filled with a pixel. -/
theorem fillRepeatedPixel_fills {PixelSize pixelSize : ℕ} (hp : 0 < pixelSize)
    (hsize : PixelSize = 0 ∨ PixelSize = pixelSize) :
    Fills pixelSize (fillRepeatedPixel sme vl PixelSize pixelSize) := by
  refine byPixelSize_cases (fun sz hsz heq => ?_) (fun sz hsz heq => ?_)
    (fillRepeatedByBytes_fills hp (copyContiguousBytes_copies sme vl))
  · have hpos := hsz.pos
    obtain rfl : pixelSize = sz := by omega
    exact fillSingleChannel_fills hsz
  · have hpos := hsz.pos
    obtain rfl : pixelSize = 3 * sz := by omega
    exact fillInterleaved3_fills hsz

/-! ### A border of reversed pixels -/

/-- Some more pixels, loaded and stored with their lanes reversed. -/
theorem mirrored_append {first srcLast i : ℕ} {r' : Tallied U8} (hp : 0 < p)
    (hlast : srcLast + p = first + n * p) (hapart : RangesApart first (n * p) dst (n * p))
    (hi : i + k ≤ n) (h : RowStored (Set.Ico first (first + n * p)) dst (i * p)
      (fun j => r.mem (first + mirror n p j)) r r') :
    RowStored (Set.Ico first (first + n * p)) dst ((i + k) * p)
      (fun j => r.mem (first + mirror n p j)) r
      ((r'.loadRange (srcLast + p - (i + k) * p) (k * p)).storeRange (dst + i * p) (k * p) fun j =>
        r'.mem (srcLast + p - (i + k) * p + mirror k p j)) := by
  rw [block_source hlast hi]
  exact reversed_append hapart hi hp h
    (RowStored.load_store _ _ _ _ _ r' (block_subset hi first))

/-- Pairs of blocks, and the end of a border in one block more and a part of one, or in bytes. -/
theorem mirrored_stored {first srcLast : ℕ} {pair once : ℕ → Tallied U8 → Tallied U8}
    {rest : ℕ → ℕ → Tallied U8 → Tallied U8} (hsz : ScalarSize sz) (hp : 0 < p)
    (hlast : srcLast + p = first + n * p) (hapart : RangesApart first (n * p) dst (n * p))
    (hpair : ∀ i r', i + 2 * numLanes vl sz ≤ n →
      RowStored (Set.Ico first (first + n * p)) dst (i * p) (fun j => r.mem (first + mirror n p j))
        r r' → RowStored (Set.Ico first (first + n * p)) dst ((i + 2 * numLanes vl sz) * p)
        (fun j => r.mem (first + mirror n p j)) r (pair i r'))
    (honce : ∀ i r', once i r' =
      (r'.loadRange (srcLast + p - (i + numLanes vl sz) * p) (numLanes vl sz * p)).storeRange
        (dst + i * p) (numLanes vl sz * p) fun j =>
          r'.mem (srcLast + p - (i + numLanes vl sz) * p + mirror (numLanes vl sz) p j))
    (hrest : ∀ i r', i < n → n ≤ i + numLanes vl sz → rest i n r' =
      (r'.loadRange (srcLast + p - n * p) ((n - i) * p)).storeRange
        (dst + i * p) ((n - i) * p) fun j =>
          r'.mem (srcLast + p - n * p + mirror (n - i) p j)) :
    RowStored (Set.Ico first (first + n * p)) dst (n * p) (fun j => r.mem (first + mirror n p j)) r
      ((LoopUnroll2.start n (numLanes vl sz), r) |>
        LoopUnroll2.unrollTwice pair |>
        LoopUnroll2.unrollOnceIf sme once |>
        LoopUnroll2.remaining fun index length r =>
          if sme then rest index length r
          else copyReversedByBytes (copyContiguousBytes sme vl) p (srcLast - index * p)
            (dst + index * p) ((length - index) * p) r).2 := by
  have hstart : Unrolled n (numLanes vl sz)
      (fun i => RowStored (Set.Ico first (first + n * p)) dst (i * p)
        (fun j => r.mem (first + mirror n p j)) r) (LoopUnroll2.start n (numLanes vl sz), r) := by
    refine Unrolled.start ?_
    rw [Nat.zero_mul]
    exact RowStored.empty _ dst _ r
  cases sme with
  | false =>
    refine (hstart.unrollTwice fun i r' hi h => hpair i r' hi h).remaining _ (fun r' h => h)
      fun i r' hi h => ?_
    rw [if_neg Bool.false_ne_true]
    exact reversed_rest (copyReversedByBytes_reverses hp (copyContiguousBytes_copies _ vl)) hp hlast
      hapart hi h
  | true =>
    refine (hstart.unrollTwice fun i r' hi h => hpair i r' hi h).unrollOnce_remaining
      (numLanes_pos vl hsz) _ (fun i r' hi h => ?_) (fun r' h => h) fun i r' hi hend h => ?_
    · rw [honce]
      exact mirrored_append hp hlast hapart hi h
    · have hlen : i + (n - i) = n := Nat.add_sub_cancel' hi.le
      have hmore := mirrored_append (k := n - i) hp hlast hapart hlen.le h
      rw [hlen] at hmore
      rw [if_pos rfl, hrest i r' hi hend.le]
      exact hmore

/-- A border of reversed pixels of one scalar. -/
theorem copyReversedPacked_reverses (hsz : ScalarSize sz) :
    Reverses sz (copyReversedPacked sme vl sz) := by
  intro first srcLast dst n r hlast hapart
  rw [copyReversedPacked, Nat.mul_div_cancel n hsz.pos]
  refine mirrored_stored hsz hsz.pos hlast hapart (fun i r' hi h => ?_) (fun i r' => ?_)
    fun i r' hi hend => ?_
  · have hmore := mirrored_append hsz.pos hlast hapart hi h
    rw [Flip.storeConsecutive2_reversed hsz, Flip.loadConsecutive2_touches hsz]
    have hbytes : 2 * numLanes vl sz * sz = 2 * vl.bytes := by
      rw [Nat.mul_assoc, numLanes_mul vl hsz]
    rw [← hbytes]
    exact hmore
  · rw [leading_ptrue.svst1_reversed hsz.pos (Flip.svrev_lane vl sz),
      leading_ptrue.svld1_touches hsz.pos]
  · have hpg : Leading (numLanes vl sz) (svwhilelt i n) (n - i) := leading_whilelt hend
    have htbl : ∀ (v : Vector) l, l < n - i →
        svtbl vl sz v (reversalIndices sz (n - i)) l = v (n - i - 1 - l) := fun v l hl =>
      svtbl_reversal v hsz hl hpg.le
    rw [hpg.svst1_reversed hsz.pos htbl, hpg.svld1_touches hsz.pos]

/-- A border of reversed pixels of three scalars. -/
theorem copyReversedInterleaved3_reverses (hsz : ScalarSize sz) :
    Reverses (3 * sz) (copyReversedInterleaved3 sme vl sz) := by
  intro first srcLast dst n r hlast hapart
  have hp : 0 < 3 * sz := Nat.mul_pos three_pos hsz.pos
  have hplace : ∀ index, 3 * index * sz = index * (3 * sz) := fun index => by
    rw [Nat.mul_comm 3, Nat.mul_assoc]
  have honce : ∀ i r', svst3 vl sz svptrue (dst + i * (3 * sz))
      (Flip.reverseLanes vl sz
        (svld3 vl sz svptrue (srcLast + 3 * sz - (i + numLanes vl sz) * (3 * sz)) r').1)
      (svld3 vl sz svptrue (srcLast + 3 * sz - (i + numLanes vl sz) * (3 * sz)) r').2 =
      (r'.loadRange (srcLast + 3 * sz - (i + numLanes vl sz) * (3 * sz))
        (numLanes vl sz * (3 * sz))).storeRange (dst + i * (3 * sz)) (numLanes vl sz * (3 * sz))
        fun j => r'.mem (srcLast + 3 * sz - (i + numLanes vl sz) * (3 * sz) +
          mirror (numLanes vl sz) (3 * sz) j) := by
    intro i r'
    rw [Flip.svst3_reverseLanes hsz, leading_ptrue.svld3_touches hsz.pos]
  rw [copyReversedInterleaved3, Nat.mul_div_cancel n hp]
  simp only [hplace, honce]
  refine mirrored_stored hsz hp hlast hapart (fun i r' hi h => ?_) (fun i r' => rfl)
    fun i r' hi hend => ?_
  · have hfirst := mirrored_append (k := numLanes vl sz) hp hlast hapart (by omega) h
    have hsecond := mirrored_append (k := numLanes vl sz) hp hlast hapart (by omega) hfirst
    rw [Nat.add_assoc i, ← Nat.two_mul] at hsecond
    rw [Nat.add_assoc i, ← Nat.two_mul]
    exact hsecond
  · have hpg : Leading (numLanes vl sz) (svwhilelt i n) (n - i) := leading_whilelt hend
    have htbl : ∀ (v : Vector) l, l < n - i →
        svtbl vl sz v (reversalIndices sz (n - i)) l = v (n - i - 1 - l) := fun v l hl =>
      svtbl_reversal v hsz hl hpg.le
    rw [hpg.svld3_touches hsz.pos]
    exact hpg.svst3_reversed hsz.pos htbl

variable (sme vl) in
/-- A border of reversed pixels. -/
theorem copyReversedPixels_reverses {PixelSize pixelSize : ℕ} (hp : 0 < pixelSize)
    (hsize : PixelSize = 0 ∨ PixelSize = pixelSize) :
    Reverses pixelSize (copyReversedPixels sme vl PixelSize pixelSize) := by
  refine byPixelSize_cases (fun sz hsz heq => ?_) (fun sz hsz heq => ?_)
    (copyReversedByBytes_reverses hp (copyContiguousBytes_copies _ vl))
  · have hpos := hsz.pos
    obtain rfl : pixelSize = sz := by omega
    exact copyReversedPacked_reverses hsz
  · have hpos := hsz.pos
    obtain rfl : pixelSize = 3 * sz := by omega
    exact copyReversedInterleaved3_reverses hsz

end

end Padding

end Scalable

/-! ### All backends -/

namespace Padding

/-- **The scalable helpers of both variants are the Neon helpers**: each writes what it has to,
every byte once, and reads the pixels that it copies only. -/
theorem helpers_agree (vl : VectorLength) (sme : Bool) {PixelSize pixelSize : ℕ}
    (hp : 0 < pixelSize) (hsize : PixelSize = 0 ∨ PixelSize = pixelSize) (n : ℕ) (r : Tallied U8) :
    (∀ src dst size, RangesApart src size dst size →
      let scalable := Scalable.Padding.copyContiguousBytes sme vl src dst size r
      let neon := Neon.copyContiguousBytes src dst size r
      RowStored (Set.Ico src (src + size)) dst size (fun j => r.mem (src + j)) r scalable ∧
        RowStored (Set.Ico src (src + size)) dst size (fun j => r.mem (src + j)) r neon ∧
        scalable.mem = neon.mem ∧ scalable.stores = neon.stores) ∧
    (∀ value dst, RangesApart value pixelSize dst (n * pixelSize) →
      let scalable := Scalable.Padding.fillRepeatedPixel sme vl PixelSize pixelSize value dst
        (n * pixelSize) r
      let neon := Neon.fillRepeatedPixel PixelSize pixelSize value dst (n * pixelSize) r
      RowStored (Set.Ico value (value + pixelSize)) dst (n * pixelSize)
          (fun j => r.mem (value + j % pixelSize)) r scalable ∧
        RowStored (Set.Ico value (value + pixelSize)) dst (n * pixelSize)
          (fun j => r.mem (value + j % pixelSize)) r neon ∧
        scalable.mem = neon.mem ∧ scalable.stores = neon.stores) ∧
    (∀ first srcLast dst, srcLast + pixelSize = first + n * pixelSize →
      RangesApart first (n * pixelSize) dst (n * pixelSize) →
      let scalable := Scalable.Padding.copyReversedPixels sme vl PixelSize pixelSize srcLast dst
        (n * pixelSize) r
      let neon := Neon.copyReversedPixels PixelSize pixelSize srcLast dst (n * pixelSize) r
      RowStored (Set.Ico first (first + n * pixelSize)) dst (n * pixelSize)
          (fun j => r.mem (first + ((n - 1 - j / pixelSize) * pixelSize + j % pixelSize))) r
          scalable ∧
        RowStored (Set.Ico first (first + n * pixelSize)) dst (n * pixelSize)
          (fun j => r.mem (first + ((n - 1 - j / pixelSize) * pixelSize + j % pixelSize))) r
          neon ∧
        scalable.mem = neon.mem ∧ scalable.stores = neon.stores) := by
  refine ⟨fun src dst size hapart => ?_, fun value dst hapart => ?_,
    fun first srcLast dst hlast hapart => ?_⟩
  · have hscalable := Scalable.Padding.copyContiguousBytes_copies sme vl src dst
      size r hapart
    have hneon := Neon.copyContiguousBytes_copies src dst size r hapart
    exact ⟨hscalable, hneon, RowStored.same hscalable hneon⟩
  · have hscalable := Scalable.Padding.fillRepeatedPixel_fills sme vl hp hsize
      value dst n r hapart
    have hneon := Neon.fillRepeatedPixel_fills hp hsize value dst n r hapart
    exact ⟨hscalable, hneon, RowStored.same hscalable hneon⟩
  · have hscalable := Scalable.Padding.copyReversedPixels_reverses sme vl hp hsize
      first srcLast dst n r hlast hapart
    have hneon := Neon.copyReversedPixels_reverses hp hsize first srcLast dst n r hlast hapart
    exact ⟨hscalable, hneon, RowStored.same hscalable hneon⟩

/-- Four pixels of three bytes, in reverse order. -/
theorem helpers_agree_fourPixels :
    (Scalable.Padding.copyReversedPixels true ⟨16, 4, by decide⟩ 3 3 9 100 (4 * 3)
      ⟨fun a => Fin.ofNat 256 a, 0, 0⟩).mem =
    (Neon.copyReversedPixels 3 3 9 100 (4 * 3) ⟨fun a => Fin.ofNat 256 a, 0, 0⟩).mem := by
  have hapart : RangesApart 0 (4 * 3) 100 (4 * 3) := fun i hi j _ => by omega
  obtain ⟨-, -, hreversed⟩ := helpers_agree ⟨16, 4, by decide⟩ true three_pos
    (Or.inr (show 3 = 3 from rfl)) 4 ⟨fun a => Fin.ofNat 256 a, 0, 0⟩
  exact (hreversed 0 9 100 rfl hapart).2.2.1

end Padding

end KleidiCV
