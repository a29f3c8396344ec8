/-
`kleidicv_count_nonzeros_u8`: how many pixels are not zero.

A vector of sixteen bytes counts down by one for each hit of its lane, and at the
end of a block its negation is added to a 64-bit accumulator.  The elements at the
end of a row are counted one by one.

* `hits` — the number of hits among the first elements;
* `Between`, `Inside` — what the operation knows between blocks and inside one;
* `Inside.vectorPath`, `Inside.onBlockFinished`, `Between.scalarPath` — each step;
* `kleidicvCountNonzerosU8_exact` — the count of a whole image.
-/
import KleidiCV.MinMaxLoc

open Loop

namespace KleidiCV

/-- `CountNonZeros`, and whether a lane was ever counted past what a byte can tell. -/
structure CountNonZeros where
  accumulator : ℕ
  vAccumulator : U8x16
  wrapped : Bool

namespace CountNonZeros

def initial : CountNonZeros := ⟨0, vdupqNU8 0, false⟩

/-- One lane of `vtstq_u8(src, src)`. -/
def vtst (src : U8) : U8 := if src = 0 then 0 else 255

/-- `vector_path`; a lane that holds the negation of 255 has no room for another hit. -/
def vectorPath (src : U8x16) (s : CountNonZeros) : CountNonZeros where
  accumulator := s.accumulator
  vAccumulator := fun lane => s.vAccumulator lane + vtst (src lane)
  wrapped := s.wrapped || (List.finRange 16).any fun lane =>
    src lane ≠ 0 && -s.vAccumulator lane = 255

def scalarPath (src : U8) (s : CountNonZeros) : CountNonZeros :=
  { s with accumulator := (s.accumulator + if src = 0 then 0 else 1) % sizeMod }

/-- `vaddlvq_u8`, the sum of all lanes in 16 bits. -/
def vaddlv (v : U8x16) : ℕ := (∑ lane, (v lane).val) % 2 ^ 16

/-- `on_block_finished`. -/
def onBlockFinished (s : CountNonZeros) : CountNonZeros :=
  { s with
    accumulator := (s.accumulator + vaddlv fun lane => -s.vAccumulator lane) % sizeMod
    vAccumulator := vdupqNU8 0 }

/-- `max_vectors_per_block`. -/
def maxVectorsPerBlock : ℕ := 255

/-- `OperationAdapter` over `CountNonZeros`, for the rows at `src`. -/
def adapter (m : Mem) (src srcStride : ℕ) : RowOperation CountNonZeros where
  numLanes := 16
  isUnrolledTwice := true
  isUnrolledOnce := false
  tryToAvoidTailLoop := false
  maxVectorsPerBlock := maxVectorsPerBlock
  vectorPath2x := fun row column s =>
    let ptr := src + row * srcStride + column
    vectorPath (vld1qU8 m (ptr + 16)) (vectorPath (vld1qU8 m ptr) s)
  vectorPath := fun row column => vectorPath (vld1qU8 m (src + row * srcStride + column))
  scalarPath := fun row column => scalarPath (m (src + row * srcStride + column))
  onBlockFinished := fun _ => onBlockFinished

end CountNonZeros

/-- What a call returns, the variable `count` points to (a null pointer has none), and whether
a counter wrapped. -/
structure CountNonZerosResult where
  error : KleidicvError
  count : Option ℕ
  wrapped : Bool
  deriving DecidableEq

/-- `count_nonzeros<uint8_t>`; `none` if the operation does not end. -/
def kleidicvCountNonzerosU8 (m : Mem) (src srcStride width height : ℕ) (count : Option ℕ) :
    Option CountNonZerosResult :=
  if count = none then some ⟨.nullPointer, count, false⟩
  else if checkPointerAndStride 1 src srcStride height ≠ .ok then
    some ⟨checkPointerAndStride 1 src srcStride height, count, false⟩
  else if !checkImageSize width height then some ⟨.range, count, false⟩
  else
    (zipRows (srcStride == width) width height
      (fun row length s =>
        s.bind ((CountNonZeros.adapter m src srcStride).processRowInBlocks row length))
      (some CountNonZeros.initial)).map fun operation =>
      ⟨.ok, some operation.accumulator, operation.wrapped⟩

/-! ### Hits -/

/-- One for a pixel that is not zero. -/
def hit (x : U8) : ℕ := if x = 0 then 0 else 1

/-- The hits among the first `n` elements. -/
def hits (val : ℕ → U8) (n : ℕ) : ℕ := ∑ k ∈ Finset.range n, hit (val k)

theorem hit_le (x : U8) : hit x ≤ 1 := by
  unfold hit
  split <;> decide

theorem hits_succ (val : ℕ → U8) (n : ℕ) : hits val (n + 1) = hits val n + hit (val n) :=
  Finset.sum_range_succ _ n

theorem hits_le (val : ℕ → U8) (n : ℕ) : hits val n ≤ n := by
  have h := Finset.sum_le_card_nsmul (Finset.range n) (fun k => hit (val k)) 1 fun k _ => hit_le _
  rwa [Finset.card_range, smul_eq_mul, Nat.mul_one] at h

theorem hits_add (val : ℕ → U8) (a n : ℕ) :
    hits val (a + n) = hits val a + hits (fun k => val (a + k)) n := by
  induction n with
  | zero => rfl
  | succ n ih =>
      rw [← Nat.add_assoc, hits_succ, hits_succ, ih]
      ring

/-- Lane by lane or element by element. -/
theorem sum_lanes_hits (val : ℕ → U8) (n : ℕ) :
    ∑ lane : Fin 16, hits (fun j => val (16 * j + lane)) n = hits val (16 * n) := by
  induction n with
  | zero => simp [hits]
  | succ n ih =>
      have hvector : ∑ lane : Fin 16, hit (val (16 * n + lane))
          = hits (fun k => val (16 * n + k)) 16 :=
        (Finset.sum_range fun k => hit (val (16 * n + k))).symm
      simp only [hits_succ, Finset.sum_add_distrib]
      rw [ih, hvector, Nat.mul_succ, hits_add]

/-! ### The steps -/

namespace CountNonZeros

variable {val : ℕ → U8} {s : CountNonZeros} {b n : ℕ}

/-- Between blocks, after `n` elements. -/
structure Between (val : ℕ → U8) (n : ℕ) (s : CountNonZeros) : Prop where
  accumulator : s.accumulator = hits val n
  vAccumulator : s.vAccumulator = vdupqNU8 0
  wrapped : s.wrapped = false

/-- After `n` vectors of the block that began at element `b`: each lane holds the negation of
its hits. -/
structure Inside (val : ℕ → U8) (b n : ℕ) (s : CountNonZeros) : Prop where
  accumulator : s.accumulator = hits val b
  lane : ∀ lane : Fin 16, (-s.vAccumulator lane).val = hits (fun j => val (b + 16 * j + lane)) n
  wrapped : s.wrapped = false

theorem Between.inside (h : Between val b s) : Inside val b 0 s := by
  refine ⟨h.accumulator, fun lane => ?_, h.wrapped⟩
  rw [h.vAccumulator, vdupqNU8, neg_zero]
  exact (Finset.sum_range_zero _).symm

/-- Counting down counts the negation up. -/
theorem neg_add_vtst {v x : U8} (h : (-v).val < 255) : (-(v + vtst x)).val = (-v).val + hit x := by
  by_cases hx : x = 0
  · rw [vtst, hit, if_pos hx, if_pos hx, add_zero, Nat.add_zero]
  · have hnext : -(v + 255) = -v + 1 := by
      rw [neg_add, show (-255 : U8) = 1 from rfl]
    rw [vtst, hit, if_neg hx, if_neg hx, hnext, Fin.val_add_one_of_lt (Fin.lt_def.mpr h)]

/-- A vector, of which a block has at most 255. -/
theorem Inside.vectorPath (h : Inside val b n s) (hn : n < 255) {src : U8x16}
    (hsrc : ∀ lane : Fin 16, src lane = val (b + 16 * n + lane)) :
    Inside val b (n + 1) (s.vectorPath src) := by
  have hroom : ∀ lane : Fin 16, (-s.vAccumulator lane).val < 255 := by
    intro lane
    rw [h.lane lane]
    exact lt_of_le_of_lt (hits_le _ n) hn
  refine ⟨h.accumulator, fun lane => ?_, ?_⟩
  · show (-(s.vAccumulator lane + vtst (src lane))).val = _
    rw [neg_add_vtst (hroom lane), h.lane lane, hits_succ, hsrc]
  · show (s.wrapped || _) = false
    rw [h.wrapped, Bool.false_or, List.any_eq_false]
    intro lane _ hcon
    rw [Bool.and_eq_true, decide_eq_true_eq, decide_eq_true_eq] at hcon
    have hlane := hroom lane
    rw [hcon.2] at hlane
    exact absurd hlane (by decide)

/-- The end of a block. -/
theorem Inside.onBlockFinished (h : Inside val b n s) (hn : n ≤ 255)
    (hlen : b + 16 * n < sizeMod) :
    Between val (b + 16 * n) s.onBlockFinished := by
  have hsum : ∑ lane : Fin 16, (-s.vAccumulator lane).val = hits (fun k => val (b + k)) (16 * n) := by
    rw [← sum_lanes_hits]
    refine Finset.sum_congr rfl fun lane _ => ?_
    rw [h.lane lane]
    simp only [Nat.add_assoc]
  have hsmall : hits (fun k => val (b + k)) (16 * n) < 2 ^ 16 :=
    lt_of_le_of_lt (hits_le _ _) (by omega)
  have htotal : hits val (b + 16 * n) < sizeMod := lt_of_le_of_lt (hits_le _ _) hlen
  have hvaddlv : (vaddlv fun lane => -s.vAccumulator lane)
      = hits (fun k => val (b + k)) (16 * n) := by
    rw [vaddlv, hsum, Nat.mod_eq_of_lt hsmall]
  have haccumulator : s.onBlockFinished.accumulator = hits val (b + 16 * n) := by
    rw [CountNonZeros.onBlockFinished, hvaddlv, h.accumulator, ← hits_add,
      Nat.mod_eq_of_lt htotal]
  constructor
  · exact haccumulator
  · rw [CountNonZeros.onBlockFinished]
  · rw [CountNonZeros.onBlockFinished]
    exact h.wrapped

/-- An element at the end of a row. -/
theorem Between.scalarPath (h : Between val n s) (hlen : n + 1 < sizeMod) :
    Between val (n + 1) (s.scalarPath (val n)) := by
  have htotal : hits val (n + 1) < sizeMod := lt_of_le_of_lt (hits_le _ _) hlen
  refine ⟨?_, h.vAccumulator, h.wrapped⟩
  rw [CountNonZeros.scalarPath, h.accumulator,
    show (if val n = 0 then 0 else 1) = hit (val n) from rfl, ← hits_succ, Nat.mod_eq_of_lt htotal]

/-- A row of `length` pixels whose indices start at `base`. -/
theorem Between.processRow {m : Mem} {src srcStride row length base : ℕ} (h : Between val base s)
    (hlen : base + length < sizeMod)
    (hval : ∀ c < length, val (base + c) = m (src + row * srcStride + c)) :
    ∃ s', (adapter m src srcStride).processRowInBlocks row length s = some s' ∧
      Between val (base + length) s' := by
  refine processRowInBlocks_invariant (fun c s => Between val (base + c) s)
    (fun b c s => ∃ n, c = b + 16 * n ∧ Inside val (base + b) n s) rfl rfl
    (show 0 < 16 by omega) (show 2 ≤ 255 by omega) h ?_ ?_ ?_ ?_
  · exact fun b s _ hb => ⟨0, rfl, hb.inside⟩
  · rintro b i s hfit hmax ⟨n, hn, hs⟩
    simp only [adapter, maxVectorsPerBlock] at hfit hmax hn ⊢
    obtain rfl : n = 2 * i := by omega
    have hvector : ∀ j ≤ 1, ∀ lane : Fin 16,
        vld1qU8 m (src + row * srcStride + (b + i * (2 * 16)) + 16 * j) lane =
          val (base + b + 16 * (2 * i + j) + lane) := by
      intro j hj lane
      have hpixel := hval (b + 16 * (2 * i + j) + lane) (by omega)
      rw [← Nat.add_assoc, ← Nat.add_assoc] at hpixel
      rw [hpixel, vld1qU8]
      congr 1
      ring
    -- the two vectors of an iteration, one after the other
    have h1 := hs.vectorPath (by omega) (hvector 0 (by omega))
    have h2 := h1.vectorPath (by omega) (hvector 1 (by omega))
    exact ⟨2 * i + 2, by ring, h2⟩
  · rintro b v s - hv hfit ⟨n, hn, hs⟩
    simp only [adapter, maxVectorsPerBlock] at hv hfit hn ⊢
    obtain rfl : n = v := by omega
    have hblock := hs.onBlockFinished hv (by omega)
    rwa [show base + b + 16 * n = base + (b + n * 16) by ring] at hblock
  · intro c _ hc s hs
    have hscalar := hs.scalarPath (by omega)
    rw [hval c hc] at hscalar
    exact hscalar

end CountNonZeros

/-! ### The image -/

/-- The number of pixels that are not zero. -/
def nonzeroPixels (m : Mem) (src srcStride width height : ℕ) : ℕ :=
  ((Finset.range height ×ˢ Finset.range width).filter fun p =>
    m (src + p.1 * srcStride + p.2) ≠ 0).card

/-- Row after row. -/
theorem hits_rows {m : Mem} {src srcStride width height : ℕ} {val : ℕ → U8}
    (hval : ∀ y < height, ∀ x < width, val (y * width + x) = m (src + y * srcStride + x)) :
    hits val (width * height) = nonzeroPixels m src srcStride width height := by
  have hrows : ∀ n ≤ height, hits val (n * width)
      = ∑ y ∈ Finset.range n, ∑ x ∈ Finset.range width, hit (m (src + y * srcStride + x)) := by
    intro n hn
    induction n with
    | zero => simp [hits]
    | succ n ih =>
        rw [Nat.succ_mul, hits_add, ih (by omega), Finset.sum_range_succ]
        congr 1
        exact Finset.sum_congr rfl fun x hx =>
          congrArg hit (hval n hn x (Finset.mem_range.mp hx))
  rw [nonzeroPixels, Nat.mul_comm, hrows height le_rfl, ← Finset.sum_product', Finset.card_filter]
  refine Finset.sum_congr rfl fun p _ => ?_
  rw [hit]
  split <;> simp_all

/-- All rows, as one joined row where they follow each other, or one by one. -/
theorem CountNonZeros.rows_counted (m : Mem) (src srcStride : ℕ) {width height : ℕ}
    (hpixels : width * height ≤ kleidicvMaxImagePixels) :
    ∃ s, zipRows (srcStride == width) width height
        (fun row length s => s.bind ((adapter m src srcStride).processRowInBlocks row length))
        (some initial) = some s ∧
      s.accumulator = nonzeroPixels m src srcStride width height ∧ s.wrapped = false := by
  have hmod : width * height < sizeMod :=
    hpixels.trans_lt (by norm_num [kleidicvMaxImagePixels, sizeMod])
  -- the pixels in the order the rows are walked
  let val : ℕ → U8 := fun k => m (src + offsetForIndex srcStride k width)
  have hinitial : Between val 0 initial := ⟨rfl, rfl, rfl⟩
  have hindex : ∀ y < height, ∀ x < width, val (y * width + x) = m (src + y * srcStride + x) :=
    fun y _ x hx => by simp only [val, offsetForIndex_row hx, Nat.add_assoc]
  obtain ⟨s, hs, hcounted⟩ : ∃ s, zipRows (srcStride == width) width height
      (fun row length s => s.bind ((adapter m src srcStride).processRowInBlocks row length))
      (some initial) = some s ∧ Between val (width * height) s := by
    rw [zipRows_eq _ hmod]
    split
    · rename_i hcontinuous
      obtain rfl : srcStride = width := by simpa using hcontinuous
      have hrow : ∀ c < srcStride * height, val (0 + c) = m (src + 0 * srcStride + c) :=
        fun c _ => by
          simp only [val, Nat.zero_add, Nat.zero_mul, Nat.add_zero, offsetForIndex_continuous]
      have hjoined := hinitial.processRow (by rwa [Nat.zero_add]) hrow
      simpa only [Nat.zero_add, Option.bind_some] using hjoined
    · rw [Nat.mul_comm width] at hmod ⊢
      refine forRange_invariant (fun row state => ∃ s, state = some s ∧ Between val (row * width) s)
        ⟨_, rfl, by rwa [Nat.zero_mul]⟩ ?_
      rintro row hrow _ ⟨s, rfl, hs⟩
      have hend : row * width + width ≤ height * width := by
        rw [← Nat.succ_mul]
        exact Nat.mul_le_mul_right width hrow
      rw [Nat.add_mul, Nat.one_mul]
      exact hs.processRow (lt_of_le_of_lt hend hmod) (hindex row hrow)
  exact ⟨s, hs, hcounted.accumulator.trans (hits_rows hindex), hcounted.wrapped⟩

/-- **The count of a whole image.**  For every accepted call, whatever the sizes and the stride,
the count is the number of pixels that are not zero, and no counter wraps.  A rejected call
leaves `count` alone. -/
theorem kleidicvCountNonzerosU8_exact (m : Mem) (src srcStride width height : ℕ) (count : Option ℕ) :
    ∃ result, kleidicvCountNonzerosU8 m src srcStride width height count = some result ∧
      result.wrapped = false ∧
      (result.error = .ok ↔ count ≠ none ∧ src ≠ 0 ∧ width * height ≤ kleidicvMaxImagePixels) ∧
      (result.error = .ok → result.count = some (nonzeroPixels m src srcStride width height)) ∧
      (result.error ≠ .ok → result.count = count) := by
  unfold kleidicvCountNonzerosU8
  by_cases hcount : count = none
  · exact ⟨_, if_pos hcount, rfl, by simp [hcount], by simp, fun _ => rfl⟩
  rw [if_neg hcount]
  rcases checkPointerAndStride_cases 1 src srcStride height with
    ⟨hcheck, hsrc⟩ | ⟨-, -, hstride⟩ | ⟨hcheck, hsrc, -⟩
  · exact ⟨_, if_pos (by simp [hcheck]), rfl, by rw [hcheck]; simp [hsrc],
      by rw [hcheck]; simp, fun _ => rfl⟩
  · exact absurd (one_dvd _) hstride
  rw [if_neg (by simp [hcheck])]
  by_cases hpixels : width * height ≤ kleidicvMaxImagePixels
  · rw [if_neg (by simp [checkImageSize_iff.mpr hpixels])]
    obtain ⟨s, hs, hcounted⟩ := CountNonZeros.rows_counted m src srcStride hpixels
    refine ⟨_, by rw [hs]; rfl, hcounted.2, by simp [hcount, hsrc, hpixels],
      fun _ => congrArg some hcounted.1, by simp⟩
  · have hsize : checkImageSize width height = false :=
      Bool.eq_false_iff.mpr fun h => hpixels (checkImageSize_iff.mp h)
    exact ⟨_, if_pos (by simp [hsize]), rfl, by simp [hpixels], by simp, fun _ => rfl⟩

end KleidiCV
