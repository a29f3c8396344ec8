/-
The scalable `resize_to_quarter_u8`.

Two rows of the source make one of the destination.  Columns are taken two vectors at a time,
then one, then what is left through a predicate, which each number of channels cuts in half in
its own way: by counting lanes, by unzipping the predicate, or by spreading it over two vectors
first.

* `parallelRowsVectorsPath_spec`, `parallelRowsVectorsPath2x_spec` — one step along the rows;
* `processParallelRows_spec` — a row of the destination;
* `resizeToQuarterU8Sc_wrote` — the image, and the part of it that a batch has.
-/
import KleidiCV.LoopUnroll2
import KleidiCV.ResizeLinear
import KleidiCV.SveLanes

open Loop

namespace KleidiCV

open Scalable

namespace ScalableResizeToQuarter

section

variable (vl : VectorLength)

/-- `VecTraits<uint8_t>::num_lanes()`. -/
abbrev lanes : ℕ := Scalable.numLanes vl 1

/-- `resize_parallel_vectors`; the sum leaves out no lane. -/
def resizeParallelVectors (topRow bottomRow : ℕ → BitVec 8) : ℕ → BitVec 16 :=
  let resultBeforeAveragingB := Sve.svaddlb topRow bottomRow
  let resultBeforeAveragingT := Sve.svaddlt topRow bottomRow
  let resultBeforeAveraging :=
    Sve.svaddX svptrue (fun _ => 0) resultBeforeAveragingB resultBeforeAveragingT
  Sve.svreinterpretU16 (Sve.svrshrnb resultBeforeAveraging 2)

/-- `resize_parallel_vectors_2x`. -/
def resizeParallelVectors2x (topRow0 topRow1 bottomRow0 bottomRow1 : ℕ → BitVec 8) : ℕ → BitVec 8 :=
  let res0 := resizeParallelVectors topRow0 bottomRow0
  let res1 := resizeParallelVectors topRow1 bottomRow1
  Sve.svuzp1 (lanes vl) 1 (Sve.svreinterpretU8 res0) (Sve.svreinterpretU8 res1)

/-- `resize_two_channels`. -/
def resizeTwoChannels (topRowC0 topRowC1 bottomRowC0 bottomRowC1 : ℕ → BitVec 8) : ℕ → BitVec 8 :=
  let res0BeforeAveraging := Sve.svaddX svptrue (fun _ => 0)
    (Sve.svaddlb topRowC0 bottomRowC0) (Sve.svaddlt topRowC0 bottomRowC0)
  let res1BeforeAveraging := Sve.svaddX svptrue (fun _ => 0)
    (Sve.svaddlb topRowC1 bottomRowC1) (Sve.svaddlt topRowC1 bottomRowC1)
  Sve.svrshrnt (Sve.svrshrnb res0BeforeAveraging 2) res1BeforeAveraging 2

section

variable (src : ℕ → BitVec 8) (srcRows dstRows : Rows) (dst : ℕ → BitVec 8)

/-- `&src_rows.at(row)[offset]`, loaded. -/
def load (pg : ℕ → Bool) (row offset : ℕ) : ℕ → BitVec 8 :=
  Sve.svld1 pg src (srcRows.ptrAt row 0 offset)

/-- `parallel_rows_vectors_path_2x<1>`. -/
def parallelRowsVectorsPath2xC1 : ℕ → BitVec 8 :=
  let row := load src srcRows svptrue
  let result := resizeParallelVectors2x vl (row 0 0) (row 0 (lanes vl)) (row 1 0) (row 1 (lanes vl))
  Sve.svst1 (lanes vl) svptrue dst (dstRows.ptrAt 0 0 0) result

/-- `parallel_rows_vectors_path<1>`. -/
def parallelRowsVectorsPathC1 (pgSrc : ℕ → Bool) : ℕ → BitVec 8 :=
  let dstLength := Sve.svcntp (lanes vl) pgSrc / 2
  let pgDst := svwhilelt 0 dstLength
  let result := resizeParallelVectors (load src srcRows pgSrc 0 0) (load src srcRows pgSrc 1 0)
  Sve.svst1 (Scalable.numLanes vl 2) pgDst dst (dstRows.ptrAt 0 0 0) (Sve.narrow 8 result)

/-- `parallel_rows_vectors_path_2x<2>`. -/
def parallelRowsVectorsPath2xC2 : ℕ → BitVec 8 :=
  let row := fun r vnum => load src srcRows svptrue r (vnum * lanes vl)
  let resultLo := resizeTwoChannels
    (Sve.svuzp1 (lanes vl) 1 (row 0 0) (row 0 1)) (Sve.svuzp2 (lanes vl) (row 0 0) (row 0 1))
    (Sve.svuzp1 (lanes vl) 1 (row 1 0) (row 1 1)) (Sve.svuzp2 (lanes vl) (row 1 0) (row 1 1))
  let resultHi := resizeTwoChannels
    (Sve.svuzp1 (lanes vl) 1 (row 0 2) (row 0 3)) (Sve.svuzp2 (lanes vl) (row 0 2) (row 0 3))
    (Sve.svuzp1 (lanes vl) 1 (row 1 2) (row 1 3)) (Sve.svuzp2 (lanes vl) (row 1 2) (row 1 3))
  Sve.svst1 (lanes vl) svptrue
    (Sve.svst1 (lanes vl) svptrue dst (dstRows.ptrAt 0 0 0) resultLo)
    (dstRows.ptrAt 0 0 (lanes vl)) resultHi

/-- `make_consecutive_predicates`, for two of them: active lanes are doubled. -/
def makeConsecutivePredicates (pgSingle : ℕ → Bool) : (ℕ → Bool) × (ℕ → Bool) :=
  let length := 2 * Sve.svcntp (lanes vl) pgSingle
  (svwhilelt 0 length, svwhilelt 0 (length - lanes vl))

/-- `parallel_rows_vectors_path<2>`. -/
def parallelRowsVectorsPathC2 (pgSrc : ℕ → Bool) : ℕ → BitVec 8 :=
  let pgSrc01 := makeConsecutivePredicates vl pgSrc
  let row0 := fun r => load src srcRows pgSrc01.1 r 0
  let row1 := fun r => load src srcRows pgSrc01.2 r (lanes vl)
  Sve.svst1 (lanes vl) pgSrc dst (dstRows.ptrAt 0 0 0) (resizeTwoChannels
    (Sve.svuzp1 (lanes vl) 1 (row0 0) (row1 0)) (Sve.svuzp2 (lanes vl) (row0 0) (row1 0))
    (Sve.svuzp1 (lanes vl) 1 (row0 1) (row1 1)) (Sve.svuzp2 (lanes vl) (row0 1) (row1 1)))

/-- `parallel_rows_vectors_path_2x<3>` and `<4>`. -/
def parallelRowsVectorsPath2xInterleaved (channels : ℕ) : ℕ → BitVec 8 :=
  let vecStride := lanes vl * channels
  let row := fun (r offset : ℕ) =>
    Sve.svldn channels svptrue src (srcRows.ptrAt r 0 offset)
  let result := fun c => resizeParallelVectors2x vl (row 0 0 c) (row 0 vecStride c) (row 1 0 c)
    (row 1 vecStride c)
  Sve.svstn channels (lanes vl) svptrue dst (dstRows.ptrAt 0 0 0) result

/-- `parallel_rows_vectors_path<3>` and `<4>`. -/
def parallelRowsVectorsPathInterleaved (channels : ℕ) (pgSrc : ℕ → Bool) : ℕ → BitVec 8 :=
  let pgDst := Sve.svuzp1 (lanes vl) 1 pgSrc fun _ => false
  let row := fun r : ℕ => Sve.svldn channels pgSrc src (srcRows.ptrAt r 0 0)
  let result := fun c => Sve.svuzp1 (lanes vl) 1
    (Sve.svreinterpretU8 (resizeParallelVectors (row 0 c) (row 1 c))) (Sve.svdupN 0)
  Sve.svstn channels (lanes vl) pgDst dst (dstRows.ptrAt 0 0 0) result

/-- `parallel_rows_vectors_path_2x<kChannels>`. -/
def parallelRowsVectorsPath2x : ℕ → ℕ → BitVec 8
  | 1 => parallelRowsVectorsPath2xC1 vl src srcRows dstRows dst
  | 2 => parallelRowsVectorsPath2xC2 vl src srcRows dstRows dst
  | channels => parallelRowsVectorsPath2xInterleaved vl src srcRows dstRows dst channels

/-- `parallel_rows_vectors_path<kChannels>`. -/
def parallelRowsVectorsPath (pgSrc : ℕ → Bool) : ℕ → ℕ → BitVec 8
  | 1 => parallelRowsVectorsPathC1 vl src srcRows dstRows dst pgSrc
  | 2 => parallelRowsVectorsPathC2 vl src srcRows dstRows dst pgSrc
  | channels => parallelRowsVectorsPathInterleaved vl src srcRows dstRows dst channels pgSrc

end

/-- `process_parallel_rows<kChannels>`. -/
def processParallelRows (channels : ℕ) (src : ℕ → BitVec 8) (srcRows : Rows) (srcWidth : ℕ)
    (dstRows : Rows) (dst : ℕ → BitVec 8) : ℕ → BitVec 8 :=
  ((LoopUnroll2.start srcWidth (lanes vl), dst) |>
    LoopUnroll2.unrollTwice (fun index dst =>
      parallelRowsVectorsPath2x vl src (srcRows.atOffset 0 index)
        (dstRows.atOffset 0 (index / 2 : ℕ)) dst channels) |>
    LoopUnroll2.unrollOnce (fun index dst =>
      parallelRowsVectorsPath vl src (srcRows.atOffset 0 index)
        (dstRows.atOffset 0 (index / 2 : ℕ)) dst svptrue channels) |>
    LoopUnroll2.remaining (fun index length dst =>
      parallelRowsVectorsPath vl src (srcRows.atOffset 0 index)
        (dstRows.atOffset 0 (index / 2 : ℕ)) dst (svwhilelt index length) channels)).2

end

/-! ### Blocks of 2 x 2 elements -/

/-- The rounded mean. -/
def blockMean (a b c d : BitVec 8) : BitVec 8 :=
  BitVec.ofNat 8 ((a.toNat + b.toNat + c.toNat + d.toNat + 2) / 4)

/-- The rounded mean of channel `c` in pixels `2 * q` and `2 * q + 1` of the rows at `top` and
`bottom`. -/
def quarterAt (src : ℕ → BitVec 8) (channels top bottom q c : ℕ) : BitVec 8 :=
  blockMean (src (top + (2 * q * channels + c))) (src (top + ((2 * q + 1) * channels + c)))
    (src (bottom + (2 * q * channels + c))) (src (bottom + ((2 * q + 1) * channels + c)))

/-- From `m` pixels of the destination on. -/
theorem quarterAt_add (src : ℕ → BitVec 8) (channels top bottom m q c : ℕ) :
    quarterAt src channels (top + 2 * m * channels) (bottom + 2 * m * channels) q c =
      quarterAt src channels top bottom (m + q) c := by
  have hmove : ∀ p n, p + 2 * m * channels + ((2 * q + n) * channels + c) =
      p + ((2 * (m + q) + n) * channels + c) := fun p n => by ring
  have h0 := fun p => hmove p 0
  simp only [Nat.add_zero] at h0
  simp only [quarterAt, hmove, h0]

/-- Pairs of lanes, added up and rounded. -/
theorem rounded_pair (top bottom : ℕ → BitVec 8) (l : ℕ) :
    BitVec.ofNat 8 (((Sve.svaddX svptrue (fun _ => 0) (Sve.svaddlb top bottom)
      (Sve.svaddlt top bottom) l).toNat + 2 ^ (2 - 1)) / 2 ^ 2) =
        blockMean (top (2 * l)) (top (2 * l + 1)) (bottom (2 * l)) (bottom (2 * l + 1)) := by
  have h0 := (top (2 * l)).isLt
  have h1 := (top (2 * l + 1)).isLt
  have h2 := (bottom (2 * l)).isLt
  have h3 := (bottom (2 * l + 1)).isLt
  have hb : (Sve.svaddlb top bottom l).toNat = (top (2 * l)).toNat + (bottom (2 * l)).toNat :=
    Sve.svaddl_toNat (by decide) _ _ _
  have ht : (Sve.svaddlt top bottom l).toNat =
      (top (2 * l + 1)).toNat + (bottom (2 * l + 1)).toNat := Sve.svaddl_toNat (by decide) _ _ _
  rw [Sve.svaddX_toNat rfl (by omega), hb, ht, blockMean]
  refine congrArg (BitVec.ofNat 8) ?_
  omega

theorem resizeParallelVectors_even (top bottom : ℕ → BitVec 8) (l : ℕ) :
    Sve.svreinterpretU8 (resizeParallelVectors top bottom) (2 * l) =
      blockMean (top (2 * l)) (top (2 * l + 1)) (bottom (2 * l)) (bottom (2 * l + 1)) := by
  rw [resizeParallelVectors, Sve.svreinterpretU8_reinterpretU16, Sve.svrshrnb, Sve.interleave_even]
  exact rounded_pair top bottom l

/-- Lane `l` of two vectors that follow each other. -/
def joined (lanes : ℕ) (v0 v1 : ℕ → BitVec 8) (l : ℕ) : BitVec 8 :=
  if l < lanes then v0 l else v1 (l - lanes)

theorem svuzp1_joined (lanes : ℕ) (v0 v1 : ℕ → BitVec 8) (l : ℕ) :
    Sve.svuzp1 lanes 1 v0 v1 l = joined lanes v0 v1 (2 * l) := Sve.svuzp1_single lanes v0 v1 l

theorem svuzp2_joined (lanes : ℕ) (v0 v1 : ℕ → BitVec 8) (l : ℕ) :
    Sve.svuzp2 lanes v0 v1 l = joined lanes v0 v1 (2 * l + 1) := rfl

/-- Two channels: element `2 * q + c` is the mean of channel `c`. -/
theorem resizeTwoChannels_eq {lanes top bottom q c : ℕ} {src : ℕ → BitVec 8}
    {top0 top1 bottom0 bottom1 : ℕ → BitVec 8} (hc : c < 2)
    (htop : ∀ i < 4, joined lanes top0 top1 (4 * q + i) = src (top + (4 * q + i)))
    (hbottom : ∀ i < 4, joined lanes bottom0 bottom1 (4 * q + i) = src (bottom + (4 * q + i))) :
    resizeTwoChannels (Sve.svuzp1 lanes 1 top0 top1) (Sve.svuzp2 lanes top0 top1)
        (Sve.svuzp1 lanes 1 bottom0 bottom1) (Sve.svuzp2 lanes bottom0 bottom1) (2 * q + c) =
      quarterAt src 2 top bottom q c := by
  rw [resizeTwoChannels, Sve.svrshrn_eq]
  obtain rfl | rfl : c = 0 ∨ c = 1 := by omega
  · rw [Nat.add_zero, Sve.interleave_even, rounded_pair]
    simp only [svuzp1_joined, quarterAt]
    rw [show 2 * (2 * q) = 4 * q + 0 by ring, show 2 * (2 * q + 1) = 4 * q + 2 by ring,
      htop 0 (by decide), htop 2 (by decide), hbottom 0 (by decide), hbottom 2 (by decide)]
    congr 3 <;> ring
  · rw [Sve.interleave_odd, rounded_pair]
    simp only [svuzp2_joined, quarterAt]
    rw [show 2 * (2 * q) + 1 = 4 * q + 1 by ring, show 2 * (2 * q + 1) + 1 = 4 * q + 3 by ring,
      htop 1 (by decide), htop 3 (by decide), hbottom 1 (by decide), hbottom 3 (by decide)]
    congr 3 <;> ring

section

variable {vl : VectorLength} {src : ℕ → BitVec 8} {srcRows dstRows : Rows} {dst : ℕ → BitVec 8}

/-- A vector of bytes has an even number of lanes. -/
theorem lanes_eq (vl : VectorLength) : lanes vl = 2 * Scalable.numLanes vl 2 :=
  Sve.numLanes_double vl (.inl rfl) (.inr (.inl rfl))

/-- What a step along two rows does: `k` pixels of the destination. -/
def Steps (channels k : ℕ) (src : ℕ → BitVec 8) (srcRows dstRows : Rows)
    (dst dst' : ℕ → BitVec 8) : Prop :=
  ∃ g, dst' = overwrite dst dstRows.ptr (k * channels) g ∧ ∀ q < k, ∀ c < channels,
    g (q * channels + c) = quarterAt src channels srcRows.ptr (srcRows.ptr + srcRows.stride) q c

theorem dst_ptr (rows : Rows) (i : ℕ) : rows.ptrAt 0 0 i = rows.ptr + i := by
  have := rows.ptrAt_natCast 0 0 i
  simpa using this

theorem src_ptr (rows : Rows) (r i : ℕ) : rows.ptrAt r 0 i = rows.ptr + r * rows.stride + i := by
  have := rows.ptrAt_natCast r 0 i
  simpa using this

theorem load_eq {pg : ℕ → Bool} {l : ℕ} (h : pg l = true) (r offset : ℕ) :
    load src srcRows pg r offset l = src (srcRows.ptr + r * srcRows.stride + (offset + l)) := by
  rw [load, Sve.svld1, if_pos h, src_ptr, Nat.add_assoc]

/-- A store of whole pixels. -/
theorem Steps.store {n channels k : ℕ} {pg : ℕ → Bool} {v : ℕ → BitVec 8}
    (hpg : Leading n pg (k * channels)) (hv : ∀ q < k, ∀ c < channels,
      v (q * channels + c) = quarterAt src channels srcRows.ptr (srcRows.ptr + srcRows.stride) q c) :
    Steps channels k src srcRows dstRows dst (Sve.svst1 n pg dst (dstRows.ptrAt 0 0 0) v) :=
  ⟨v, by rw [dst_ptr]; exact Sve.svst1_eq hpg _ _ _, hv⟩

/-- A store of channels that are vectors of their own. -/
theorem Steps.storeInterleaved {n channels k : ℕ} {pg : ℕ → Bool} {v : ℕ → ℕ → BitVec 8}
    (hchannels : 0 < channels) (hpg : Leading n pg k) (hv : ∀ q < k, ∀ c < channels,
      v c q = quarterAt src channels srcRows.ptr (srcRows.ptr + srcRows.stride) q c) :
    Steps channels k src srcRows dstRows dst
      (Sve.svstn channels n pg dst (dstRows.ptrAt 0 0 0) v) := by
  refine ⟨fun j => v (j % channels) (j / channels), ?_, fun q hq c hc => ?_⟩
  · rw [dst_ptr, Nat.mul_comm k]
    exact Sve.svstn_eq hchannels hpg _ _ _
  · dsimp only
    rw [← hv q hq c hc, Nat.mul_comm q, Nat.mul_add_mod, Nat.mod_eq_of_lt hc,
      Nat.mul_add_div hchannels, Nat.div_eq_of_lt hc, Nat.add_zero]

/-- Another store, after the pixels stored so far. -/
theorem Steps.append {n channels k k' ptr : ℕ} {pg : ℕ → Bool} {v dst' : ℕ → BitVec 8}
    (h : Steps channels k src srcRows dstRows dst dst') (hpg : Leading n pg (k' * channels))
    (hptr : ptr = k * channels) (hv : ∀ q < k', ∀ c < channels, v (q * channels + c) =
      quarterAt src channels srcRows.ptr (srcRows.ptr + srcRows.stride) (k + q) c) :
    Steps channels (k + k') src srcRows dstRows dst
      (Sve.svst1 n pg dst' (dstRows.ptrAt 0 0 ptr) v) := by
  obtain ⟨g, rfl, hg⟩ := h
  refine ⟨fun j => if j < k * channels then g j else v (j - k * channels), ?_, fun q hq c hc => ?_⟩
  · rw [Sve.svst1_eq hpg, dst_ptr, hptr, overwrite_append, Nat.add_mul]
  · dsimp only
    rcases Nat.lt_or_ge q k with hlt | hge
    · rw [if_pos (pixelByte_lt hlt hc), hg q hlt c hc]
    · obtain ⟨d, rfl⟩ := Nat.exists_eq_add_of_le hge
      rw [if_neg (by rw [Nat.add_mul]; omega), Nat.add_mul, Nat.add_assoc, Nat.add_sub_cancel_left,
        hv d (by omega) c hc]

/-- One channel, one vector. -/
theorem parallelRowsVectorsPathC1_steps {pg : ℕ → Bool} {k : ℕ}
    (hpg : Leading (lanes vl) pg (2 * k)) :
    Steps 1 k src srcRows dstRows dst (parallelRowsVectorsPathC1 vl src srcRows dstRows dst pg) := by
  have hle := hpg.le
  rw [lanes_eq] at hle
  refine Steps.store ?_ fun q hq c hc => ?_
  · rw [Sve.svcntp_eq hpg, Nat.mul_div_cancel_left _ two_pos, Nat.mul_one]
    exact leading_whilelt (by omega)
  · obtain rfl : c = 0 := Nat.lt_one_iff.mp hc
    have h0 : pg (2 * q) = true := Sve.active_of_lt hpg (by omega)
    have h1 : pg (2 * q + 1) = true := Sve.active_of_lt hpg (by omega)
    rw [Nat.mul_one, Nat.add_zero, ← Sve.svreinterpretU8_even, resizeParallelVectors_even,
      load_eq h0, load_eq h1, load_eq h0, load_eq h1, quarterAt]
    simp only [Nat.mul_one, Nat.add_zero, Nat.zero_mul, Nat.one_mul, Nat.zero_add]

/-- Pairs of lanes out of two vectors, for a channel of its own. -/
theorem resizeParallelVectors2x_eq {channels q c : ℕ} {top0 top1 bottom0 bottom1 : ℕ → BitVec 8}
    (htop : ∀ l, joined (lanes vl) top0 top1 l = src (srcRows.ptr + (l * channels + c)))
    (hbottom : ∀ l, joined (lanes vl) bottom0 bottom1 l =
      src (srcRows.ptr + srcRows.stride + (l * channels + c))) :
    resizeParallelVectors2x vl top0 top1 bottom0 bottom1 q =
      quarterAt src channels srcRows.ptr (srcRows.ptr + srcRows.stride) q c := by
  have heven := lanes_eq vl
  rw [resizeParallelVectors2x, Sve.svuzp1_single, quarterAt, ← htop, ← htop, ← hbottom, ← hbottom]
  unfold joined
  by_cases hfirst : 2 * q < lanes vl
  · simp only [if_pos hfirst, if_pos (show 2 * q + 1 < lanes vl by omega)]
    exact resizeParallelVectors_even _ _ q
  · -- Lanes of the second vector.
    simp only [if_neg hfirst, if_neg (show ¬2 * q + 1 < lanes vl by omega)]
    rw [show 2 * q + 1 - lanes vl = 2 * (q - Scalable.numLanes vl 2) + 1 by omega,
      show 2 * q - lanes vl = 2 * (q - Scalable.numLanes vl 2) by omega]
    exact resizeParallelVectors_even _ _ _

/-- Two vectors that were loaded one after the other. -/
theorem joined_load {pg0 pg1 : ℕ → Bool} {offset offset' i n : ℕ} (r : ℕ)
    (hoffset : offset' = offset + lanes vl) (h0 : ∀ l < lanes vl, l < n → pg0 l = true)
    (h1 : ∀ l, lanes vl + l < n → pg1 l = true) (hi : i < n) :
    joined (lanes vl) (load src srcRows pg0 r offset) (load src srcRows pg1 r offset') i =
      src (srcRows.ptr + r * srcRows.stride + (offset + i)) := by
  unfold joined
  split
  · rename_i hlt
    exact load_eq (h0 i hlt hi) r offset
  · rw [load_eq (h1 (i - lanes vl) (by omega)), hoffset,
      show offset + lanes vl + (i - lanes vl) = offset + i by omega]

/-- One channel, two vectors. -/
theorem parallelRowsVectorsPath2xC1_steps :
    Steps 1 (lanes vl) src srcRows dstRows dst
      (parallelRowsVectorsPath2xC1 vl src srcRows dstRows dst) := by
  have hjoined : ∀ r l : ℕ, joined (lanes vl) (load src srcRows svptrue r 0)
      (load src srcRows svptrue r (lanes vl)) l =
        src (srcRows.ptr + r * srcRows.stride + (l * 1 + 0)) := fun r l => by
    rw [Nat.mul_one, Nat.add_zero]
    exact (joined_load r (Nat.zero_add _).symm (fun _ _ _ => rfl) (fun _ _ => rfl)
      (Nat.lt_succ_self l)).trans (congrArg (fun i => src (_ + i)) (Nat.zero_add l))
  refine Steps.store ?_ fun q hq c hc => ?_
  · rw [Nat.mul_one]
    exact leading_ptrue
  · obtain rfl : c = 0 := Nat.lt_one_iff.mp hc
    rw [Nat.mul_one, Nat.add_zero]
    refine resizeParallelVectors2x_eq (fun l => ?_) fun l => ?_
    · rw [hjoined 0, Nat.zero_mul, Nat.add_zero]
    · rw [hjoined 1, Nat.one_mul]

/-- Two channels, one vector of pairs. -/
theorem parallelRowsVectorsPathC2_steps {pg : ℕ → Bool} {k : ℕ}
    (hpg : Leading (lanes vl) pg (2 * k)) :
    Steps 2 k src srcRows dstRows dst (parallelRowsVectorsPathC2 vl src srcRows dstRows dst pg) := by
  have hjoined : ∀ r, ∀ i < 4 * k, joined (lanes vl)
      (load src srcRows (makeConsecutivePredicates vl pg).1 r 0)
      (load src srcRows (makeConsecutivePredicates vl pg).2 r (lanes vl)) i =
        src (srcRows.ptr + r * srcRows.stride + (0 + i)) := by
    intro r i hi
    refine joined_load r (Nat.zero_add _).symm (fun l _ hl => ?_) (fun l hl => ?_) hi
    · exact decide_eq_true (by rw [Sve.svcntp_eq hpg]; omega)
    · exact decide_eq_true (by rw [Sve.svcntp_eq hpg]; omega)
  refine Steps.store (Nat.mul_comm 2 k ▸ hpg) fun q hq c hc => ?_
  rw [Nat.mul_comm q]
  refine resizeTwoChannels_eq hc (fun i hi => ?_) fun i hi => ?_
  · rw [hjoined 0 _ (by omega), Nat.zero_mul, Nat.add_zero, Nat.zero_add]
  · rw [hjoined 1 _ (by omega), Nat.one_mul, Nat.zero_add]

/-- Two channels, two vectors of pairs. -/
theorem parallelRowsVectorsPath2xC2_steps :
    Steps 2 (lanes vl) src srcRows dstRows dst
      (parallelRowsVectorsPath2xC2 vl src srcRows dstRows dst) := by
  have heven := lanes_eq vl
  have hjoined : ∀ r vnum i, joined (lanes vl) (load src srcRows svptrue r (vnum * lanes vl))
      (load src srcRows svptrue r ((vnum + 1) * lanes vl)) i =
        src (srcRows.ptr + r * srcRows.stride + (vnum * lanes vl + i)) := fun r vnum i =>
    joined_load r (Nat.succ_mul _ _) (fun _ _ _ => rfl) (fun _ _ => rfl) (Nat.lt_succ_self i)
  have hhalf : Leading (lanes vl) svptrue (Scalable.numLanes vl 2 * 2) := by
    rw [Nat.mul_comm, ← heven]
    exact leading_ptrue
  have hboth : Steps 2 (Scalable.numLanes vl 2 + Scalable.numLanes vl 2) src srcRows dstRows dst
      (parallelRowsVectorsPath2xC2 vl src srcRows dstRows dst) := by
    rw [parallelRowsVectorsPath2xC2]
    refine Steps.append (Steps.store hhalf fun q hq c hc => ?_) hhalf (by rw [heven, Nat.mul_comm])
      fun q hq c hc => ?_
    · rw [Nat.mul_comm q]
      refine resizeTwoChannels_eq hc (fun i hi => ?_) fun i hi => ?_
      · rw [hjoined 0 0, Nat.zero_mul, Nat.zero_mul, Nat.add_zero, Nat.zero_add]
      · rw [hjoined 1 0, Nat.zero_mul, Nat.one_mul, Nat.zero_add]
    · have hmove : 2 * Scalable.numLanes vl 2 * 2 = 2 * lanes vl := by rw [heven, Nat.mul_comm]
      rw [Nat.mul_comm q, ← quarterAt_add, hmove]
      refine resizeTwoChannels_eq hc (fun i hi => ?_) fun i hi => ?_
      · rw [hjoined 0 2, Nat.zero_mul, Nat.add_zero, Nat.add_assoc]
      · rw [hjoined 1 2, Nat.one_mul]
        exact congrArg src (Nat.add_assoc _ _ _).symm
  rwa [← Nat.two_mul, ← heven] at hboth

/-- Three or four channels, one vector of each. -/
theorem parallelRowsVectorsPathInterleaved_steps {channels : ℕ} (hchannels : 0 < channels)
    {pg : ℕ → Bool} {k : ℕ} (hpg : Leading (lanes vl) pg (2 * k)) :
    Steps channels k src srcRows dstRows dst
      (parallelRowsVectorsPathInterleaved vl src srcRows dstRows dst channels pg) := by
  have hle := hpg.le
  have hdst : Leading (lanes vl) (Sve.svuzp1 (lanes vl) 1 pg fun _ => false) k := by
    refine ⟨by omega, fun l hl => ?_⟩
    rw [Sve.svuzp1_single]
    split
    · rw [hpg.active _ (by assumption)]
      exact decide_eq_decide.mpr (by omega)
    · exact (decide_eq_false (by omega)).symm
  have hload : ∀ r : ℕ, ∀ c, ∀ l < 2 * k,
      Sve.svldn channels pg src (srcRows.ptrAt r 0 0) c l =
        src (srcRows.ptr + r * srcRows.stride + (l * channels + c)) := by
    intro r c l hl
    rw [Sve.svldn_active (Sve.active_of_lt hpg hl), src_ptr, Nat.add_zero, Nat.mul_comm channels]
  rw [parallelRowsVectorsPathInterleaved]
  refine Steps.storeInterleaved hchannels hdst fun q hq c hc => ?_
  dsimp only
  rw [Sve.svuzp1_single, if_pos (by omega), resizeParallelVectors_even, hload 0 c _ (by omega),
    hload 0 c _ (by omega), hload 1 c _ (by omega), hload 1 c _ (by omega), Nat.zero_mul,
    Nat.one_mul, Nat.add_zero, quarterAt]

/-- Three or four channels, two vectors of each. -/
theorem parallelRowsVectorsPath2xInterleaved_steps {channels : ℕ} (hchannels : 0 < channels) :
    Steps channels (lanes vl) src srcRows dstRows dst
      (parallelRowsVectorsPath2xInterleaved vl src srcRows dstRows dst channels) := by
  have hjoined : ∀ r c l : ℕ, joined (lanes vl)
      (Sve.svldn channels svptrue src (srcRows.ptrAt r 0 0) c)
      (Sve.svldn channels svptrue src (srcRows.ptrAt r 0 (lanes vl * channels)) c) l =
        src (srcRows.ptr + r * srcRows.stride + (l * channels + c)) := by
    intro r c l
    unfold joined
    split
    · rw [Sve.svldn_active rfl, src_ptr, Nat.add_zero, Nat.mul_comm channels]
    · obtain ⟨d, rfl⟩ := Nat.exists_eq_add_of_le (Nat.le_of_not_lt (by assumption))
      rw [Sve.svldn_active rfl, src_ptr, Nat.add_sub_cancel_left]
      exact congrArg src (by ring)
  rw [parallelRowsVectorsPath2xInterleaved]
  refine Steps.storeInterleaved hchannels leading_ptrue fun q hq c hc => ?_
  refine resizeParallelVectors2x_eq (fun l => ?_) fun l => ?_
  · rw [hjoined 0, Nat.zero_mul, Nat.add_zero]
  · rw [hjoined 1, Nat.one_mul]

/-- **One step along two rows**, of whole pixels. -/
theorem parallelRowsVectorsPath_spec {channels : ℕ} (hchannels : 0 < channels) {pg : ℕ → Bool} {k : ℕ}
    (hpg : Leading (lanes vl) pg (2 * k)) :
    Steps channels k src srcRows dstRows dst
      (parallelRowsVectorsPath vl src srcRows dstRows dst pg channels) := by
  unfold parallelRowsVectorsPath
  split
  · exact parallelRowsVectorsPathC1_steps hpg
  · exact parallelRowsVectorsPathC2_steps hpg
  · exact parallelRowsVectorsPathInterleaved_steps hchannels hpg

/-- **A step of two vectors.** -/
theorem parallelRowsVectorsPath2x_spec {channels : ℕ} (hchannels : 0 < channels) :
    Steps channels (lanes vl) src srcRows dstRows dst
      (parallelRowsVectorsPath2x vl src srcRows dstRows dst channels) := by
  unfold parallelRowsVectorsPath2x
  split
  · exact parallelRowsVectorsPath2xC1_steps
  · exact parallelRowsVectorsPath2xC2_steps
  · exact parallelRowsVectorsPath2xInterleaved_steps hchannels

end

/-- Columns of the source are done in pairs, up to column `i`. -/
def Paired (channels : ℕ) (src : ℕ → BitVec 8) (srcRows dstRows : Rows) (dst : ℕ → BitVec 8) (i : ℕ)
    (dst' : ℕ → BitVec 8) : Prop :=
  ∃ m, i = 2 * m ∧ Steps channels m src srcRows dstRows dst dst'

/-- **A row of the destination.** -/
theorem processParallelRows_spec (vl : VectorLength) {channels dstWidth : ℕ} (hchannels : 0 < channels)
    {src : ℕ → BitVec 8} {srcRows dstRows : Rows} (hsrc : srcRows.channels = channels)
    (hdst : dstRows.channels = channels) (dst : ℕ → BitVec 8) :
    Steps channels dstWidth src srcRows dstRows dst
      (processParallelRows vl channels src srcRows (2 * dstWidth) dstRows dst) := by
  have heven := lanes_eq vl
  have hpos : 0 < Scalable.numLanes vl 2 := numLanes_pos vl (.inr (.inl rfl))
  have hsrcPtr : ∀ m : ℕ, (srcRows.atOffset 0 (2 * m : ℕ)).ptr = srcRows.ptr + 2 * m * channels :=
    fun m => hsrc ▸ srcRows.atOffset_column (2 * m)
  have hdstPtr : ∀ m : ℕ, (dstRows.atOffset 0 (2 * m / 2 : ℕ)).ptr = dstRows.ptr + m * channels :=
    fun m => by rw [Nat.mul_div_cancel_left _ two_pos, dstRows.atOffset_column, hdst]
  -- A step that starts `m` pixels into the row.
  have hstep : ∀ {m k dst' dst''}, Steps channels m src srcRows dstRows dst dst' →
      Steps channels k src (srcRows.atOffset 0 (2 * m : ℕ)) (dstRows.atOffset 0 (2 * m / 2 : ℕ)) dst'
        dst'' → Steps channels (m + k) src srcRows dstRows dst dst'' := by
    rintro m k _ _ ⟨g, rfl, hg⟩ ⟨g', rfl, hg'⟩
    refine ⟨fun j => if j < m * channels then g j else g' (j - m * channels), ?_,
      fun q hq c hc => ?_⟩
    · rw [hdstPtr, overwrite_append, Nat.add_mul]
    · dsimp only
      rcases Nat.lt_or_ge q m with hlt | hge
      · rw [if_pos (pixelByte_lt hlt hc), hg q hlt c hc]
      · obtain ⟨d, rfl⟩ := Nat.exists_eq_add_of_le hge
        rw [if_neg (by rw [Nat.add_mul]; omega), Nat.add_mul, Nat.add_assoc,
          Nat.add_sub_cancel_left, hg' d (by omega) c hc, hsrcPtr, ← quarterAt_add]
        exact congrArg (fun p => quarterAt src channels _ p d c) (Nat.add_right_comm _ _ _)
  have hstart : Paired channels src srcRows dstRows dst 0 dst :=
    ⟨0, rfl, fun _ => 0, by rw [Nat.zero_mul, overwrite_zero], fun q hq => absurd hq (Nat.not_lt_zero q)⟩
  have htwice : Unrolled (2 * dstWidth) (lanes vl) (Paired channels src srcRows dstRows dst)
      (LoopUnroll2.unrollTwice (fun index dst =>
        parallelRowsVectorsPath2x vl src (srcRows.atOffset 0 index)
          (dstRows.atOffset 0 (index / 2 : ℕ)) dst channels)
        (LoopUnroll2.start (2 * dstWidth) (lanes vl), dst)) := by
    refine (Unrolled.start hstart).unrollNTimes ?_
    rintro i dst' hi ⟨m, rfl, h⟩
    exact ⟨m + lanes vl, by ring, hstep h (parallelRowsVectorsPath2x_spec hchannels)⟩
  rw [processParallelRows]
  refine htwice.unrollOnce_remaining (by omega) _ ?_ ?_ ?_
  · rintro i dst' hi ⟨m, rfl, h⟩
    have hall : Leading (lanes vl) svptrue (2 * Scalable.numLanes vl 2) := by
      rw [← heven]
      exact leading_ptrue
    exact ⟨m + Scalable.numLanes vl 2, by omega, hstep h (parallelRowsVectorsPath_spec hchannels hall)⟩
  · rintro dst' ⟨m, hm, h⟩
    rwa [show dstWidth = m by omega]
  · rintro _ dst' hi hlt ⟨m, rfl, h⟩
    have hrest : Leading (lanes vl) (svwhilelt (2 * m) (2 * dstWidth)) (2 * (dstWidth - m)) := by
      rw [Nat.mul_sub]
      exact leading_whilelt hlt.le
    have hrow := hstep h (parallelRowsVectorsPath_spec hchannels hrest)
    rwa [Nat.add_sub_cancel' (by omega)] at hrow

end ScalableResizeToQuarter

/-- `resize_to_quarter_u8_sc`. -/
def resizeToQuarterU8Sc (vl : VectorLength) (src : ℕ → BitVec 8)
    (srcPtr srcStride srcWidth srcHeight dstPtr dstStride channels : ℕ) (dst : ℕ → BitVec 8) :
    KleidicvError × (ℕ → BitVec 8) :=
  let srcRows : Rows := ⟨srcPtr, srcStride, channels⟩
  let dstRows : Rows := ⟨dstPtr, dstStride, channels⟩
  let kChannels := if channels = 1 then 1 else if channels = 2 then 2 else if channels = 3 then 3 else 4
  (.ok, ((LoopUnroll2.start srcHeight 2, dst) |>
    LoopUnroll2.unrollOnce (fun row dst =>
      ScalableResizeToQuarter.processParallelRows vl kChannels src (srcRows.atOffset row 0) srcWidth
        (dstRows.atOffset (row / 2 : ℕ) 0) dst)).2)

/-- The batch of `resize_linear_stripe_u8` for the rows of the destination from `yBegin` up to
`yEnd`, where the image is halved. -/
def resizeToQuarterStripeSc (vl : VectorLength) (src : ℕ → BitVec 8)
    (srcPtr srcStride srcWidth srcHeight dstPtr dstStride channels yBegin yEnd : ℕ)
    (dst : ℕ → BitVec 8) : KleidicvError × (ℕ → BitVec 8) :=
  let srcBegin := yBegin * 2
  let srcEnd := min srcHeight (yEnd * 2)
  resizeToQuarterU8Sc vl src (srcPtr + srcBegin * srcStride) srcStride srcWidth
    (sizeSub srcEnd srcBegin) (dstPtr + yBegin * dstStride) dstStride channels dst

section

variable {src : ℕ → BitVec 8} {srcPtr srcStride dstPtr dstStride dstWidth channels : ℕ}

/-- The mean for element `p.2` of row `p.1` of the destination. -/
def quarterPixel (src : ℕ → BitVec 8) (srcPtr srcStride channels : ℕ) (p : ℕ × ℕ) : BitVec 8 :=
  ScalableResizeToQuarter.quarterAt src channels (srcPtr + 2 * p.1 * srcStride)
    (srcPtr + 2 * p.1 * srcStride + srcStride) (p.2 / channels) (p.2 % channels)

/-- A pair of rows of the source. -/
theorem pairOfRows_wrote {vl : VectorLength} (hpos : 0 < channels) (m : ℕ) (dst : ℕ → BitVec 8) :
    Wrote (⟨dstPtr, dstStride, channels⟩ : Rows).address
      (quarterPixel src srcPtr srcStride channels) (block m 1 0 (dstWidth * channels)) dst
      (ScalableResizeToQuarter.processParallelRows vl channels src
        ((⟨srcPtr, srcStride, channels⟩ : Rows).atOffset (2 * m : ℕ) 0) (2 * dstWidth)
        ((⟨dstPtr, dstStride, channels⟩ : Rows).atOffset (2 * m / 2 : ℕ) 0) dst) := by
  have hrow : ScalableResizeToQuarter.Steps channels dstWidth src
      ((⟨srcPtr, srcStride, channels⟩ : Rows).atOffset (2 * m : ℕ) 0)
      ((⟨dstPtr, dstStride, channels⟩ : Rows).atOffset (2 * m / 2 : ℕ) 0) dst _ :=
    ScalableResizeToQuarter.processParallelRows_spec vl hpos rfl rfl dst
  obtain ⟨g, heq, hg⟩ := hrow
  rw [Nat.mul_div_cancel_left _ two_pos] at heq ⊢
  rw [heq, Rows.atOffset_row]
  refine segment_wrote (fun j hj => ?_) dst
  have hq : j / channels < dstWidth := Nat.div_lt_of_lt_mul (by rwa [Nat.mul_comm])
  have hpixel := hg _ hq _ (Nat.mod_lt j hpos)
  rw [Nat.div_add_mod', Rows.atOffset_row] at hpixel
  rw [hpixel, quarterPixel, Nat.zero_add]
  rfl

/-- **The image**, row after row. -/
theorem resizeToQuarterU8Sc_wrote (vl : VectorLength) (hpos : 0 < channels) (hfour : channels ≤ 4)
    (hstride : dstWidth * channels ≤ dstStride) (dstHeight : ℕ) (dst : ℕ → BitVec 8) :
    Wrote (⟨dstPtr, dstStride, channels⟩ : Rows).address
      (quarterPixel src srcPtr srcStride channels)
      (stripeElements (dstWidth * channels) 0 dstHeight) dst
      (resizeToQuarterU8Sc vl src srcPtr srcStride (2 * dstWidth) (2 * dstHeight) dstPtr dstStride
        channels dst).2 := by
  have hinj : Set.InjOn (⟨dstPtr, dstStride, channels⟩ : Rows).address {p | p.2 < dstStride} :=
    Rows.address_injOn le_rfl
  have hkChannels : (if channels = 1 then 1 else if channels = 2 then 2 else
      if channels = 3 then 3 else 4) = channels := by
    split_ifs <;> omega
  rw [resizeToQuarterU8Sc]
  dsimp only
  rw [hkChannels]
  generalize hbody : (fun (row : ℕ) dst => ScalableResizeToQuarter.processParallelRows vl channels src
    ((⟨srcPtr, srcStride, channels⟩ : Rows).atOffset row 0) (2 * dstWidth)
    ((⟨dstPtr, dstStride, channels⟩ : Rows).atOffset (row / 2 : ℕ) 0) dst) = body
  have hstart : Unrolled (2 * dstHeight) 2 (fun i dst' => ∃ m, i = 2 * m ∧
      Wrote (⟨dstPtr, dstStride, channels⟩ : Rows).address
        (quarterPixel src srcPtr srcStride channels) (stripeElements (dstWidth * channels) 0 m) dst dst')
      (LoopUnroll2.start (2 * dstHeight) 2, dst) :=
    Unrolled.start ⟨0, rfl, Wrote.refl_of_empty dst fun p hp => absurd hp.2.1 (Nat.not_lt_zero _)⟩
  have hloop : Unrolled _ _ _ (LoopUnroll2.unrollNTimes 1 body _) := hstart.unrollNTimes <| by
    rintro _ dst' hi ⟨m, rfl, h⟩
    refine ⟨m + 1, rfl, ?_⟩
    rw [← hbody]
    refine (h.trans hinj (fun p hp => hp.2.2.trans_le hstride) (block_subset (by omega))
      (pairOfRows_wrote hpos m dst')).congr ?_
    ext p
    simp only [stripeElements, block, Set.mem_union, Set.mem_ofPred_eq]
    omega
  have hle := hloop.le_length
  have hlt := hstart.lt_unrollNTimes 1 body (by decide)
  obtain ⟨m, hm, h⟩ := hloop.holds
  obtain rfl : m = dstHeight := by omega
  exact h

/-- A batch of rows, where the image is halved. -/
theorem resizeToQuarterStripeSc_wrote (vl : VectorLength) (hpos : 0 < channels) (hfour : channels ≤ 4)
    (hstride : dstWidth * channels ≤ dstStride) {dstHeight yBegin yEnd : ℕ} (hle : yBegin ≤ yEnd)
    (hend : yEnd ≤ dstHeight) (hheight : 2 * dstHeight < sizeMod) (dst : ℕ → BitVec 8) :
    Wrote (⟨dstPtr, dstStride, channels⟩ : Rows).address
      (quarterPixel src srcPtr srcStride channels)
      (stripeElements (dstWidth * channels) yBegin yEnd) dst
      (resizeToQuarterStripeSc vl src srcPtr srcStride (2 * dstWidth) (2 * dstHeight) dstPtr dstStride
        channels yBegin yEnd dst).2 := by
  rw [resizeToQuarterStripeSc, Nat.min_eq_right (show yEnd * 2 ≤ 2 * dstHeight by omega),
    sizeSub_eq (by omega) (by omega), show yEnd * 2 - yBegin * 2 = 2 * (yEnd - yBegin) by omega]
  refine (resizeToQuarterU8Sc_wrote vl hpos hfour hstride (yEnd - yBegin) dst).reindex
    (fun p => (p.1 - yBegin, p.2)) ?_ ?_
  · rintro ⟨y, e⟩ ⟨h1, h2, h3⟩
    obtain ⟨d, rfl⟩ := Nat.exists_eq_add_of_le h1
    refine ⟨⟨Nat.zero_le _, by simp only; omega, h3⟩, ?_, ?_⟩
    · simp only [Rows.address, Nat.add_sub_cancel_left]
      ring
    · simp only [quarterPixel, Nat.add_sub_cancel_left]
      congr 1 <;> ring
  · rintro ⟨y, e⟩ ⟨-, h2, h3⟩
    simp only at h2 h3
    exact ⟨(yBegin + y, e), ⟨Nat.le_add_right _ _, by simp only; omega, h3⟩, by
      simp only [Nat.add_sub_cancel_left]⟩

end

end KleidiCV
