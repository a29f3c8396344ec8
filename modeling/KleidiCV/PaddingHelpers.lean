/-
The helpers of `add_padding_by_copy` that write a border, on Neon.

A border is filled with one pixel, or with pixels of the source in reverse order.  Both go through
the border two blocks at a time and then pixel by pixel; memory counts its accesses.

* `ByteCopier.Copies`, `Fills`, `Reverses` — what the helpers have to do;
* `fillRepeatedByBytes_fills`, `copyReversedByBytes_reverses` — pixel by pixel;
* `Neon.fillRepeatedPixel_fills`, `Neon.copyReversedPixels_reverses` — the Neon helpers.
-/
import KleidiCV.Lib.StoredPrefix
import KleidiCV.LoopUnroll2
import KleidiCV.ScalableBlocks

open Loop

namespace KleidiCV

namespace Padding

/-- `copy_contiguous_bytes(src, dst, size)`. -/
abbrev ByteCopier := ℕ → ℕ → ℕ → Tallied U8 → Tallied U8

/-- `std::memcpy`. -/
def memcpy (dst src size : ℕ) (r : Tallied U8) : Tallied U8 :=
  (r.loadRange src size).storeRange dst size fun j => r.mem (src + j)

/-- `fill_repeated_by_bytes`. -/
def fillRepeatedByBytes (copyContiguousBytes : ByteCopier) (pixelSize valueBytes dst rowSize : ℕ)
    (r : Tallied U8) : Tallied U8 :=
  forSteps 0 pixelSize rowSize
    (fun offset => copyContiguousBytes valueBytes (dst + offset) pixelSize) r

/-- `copy_reversed_by_bytes`. -/
def copyReversedByBytes (copyContiguousBytes : ByteCopier) (pixelSize srcLast dst rowSize : ℕ)
    (r : Tallied U8) : Tallied U8 :=
  forSteps 0 pixelSize rowSize
    (fun offset => copyContiguousBytes (srcLast - offset) (dst + offset) pixelSize) r

/-- The choice of a helper by the template parameter `PixelSize`: of one scalar, of three, or of
any number of bytes. -/
def byPixelSize {α : Type} (PixelSize : ℕ) (packed interleaved3 : ℕ → α) (byBytes : α) : α :=
  if PixelSize = 1 then packed 1
  else if PixelSize = 2 then packed 2
  else if PixelSize = 4 then packed 4
  else if PixelSize = 8 then packed 8
  else if PixelSize = 3 * 1 then interleaved3 1
  else if PixelSize = 3 * 2 then interleaved3 2
  else if PixelSize = 3 * 4 then interleaved3 4
  else byBytes

theorem byPixelSize_cases {α : Type} {PixelSize : ℕ} {packed interleaved3 : ℕ → α} {byBytes : α}
    {P : α → Prop} (hpacked : ∀ sz, ScalarSize sz → PixelSize = sz → P (packed sz))
    (hinterleaved : ∀ sz, ScalarSize sz → PixelSize = 3 * sz → P (interleaved3 sz))
    (hbytes : P byBytes) : P (byPixelSize PixelSize packed interleaved3 byBytes) := by
  have hone : ScalarSize 1 := Or.inl rfl
  have htwo : ScalarSize 2 := Or.inr (Or.inl rfl)
  have hfour : ScalarSize 4 := Or.inr (Or.inr (Or.inl rfl))
  have height : ScalarSize 8 := Or.inr (Or.inr (Or.inr rfl))
  unfold byPixelSize
  split
  next h => exact hpacked 1 hone h
  split
  next h => exact hpacked 2 htwo h
  split
  next h => exact hpacked 4 hfour h
  split
  next h => exact hpacked 8 height h
  split
  next h => exact hinterleaved 1 hone h
  split
  next h => exact hinterleaved 2 htwo h
  split
  next h => exact hinterleaved 4 hfour h
  exact hbytes

/-! ### What the helpers have to do -/

/-- Bytes are copied in order. -/
def ByteCopier.Copies (copyContiguousBytes : ByteCopier) : Prop :=
  ∀ src dst size r, RangesApart src size dst size →
    RowStored (Set.Ico src (src + size)) dst size (fun j => r.mem (src + j)) r
      (copyContiguousBytes src dst size r)

/-- A row of `n` pixels is filled with the pixel at `valueBytes`. -/
def Fills (pixelSize : ℕ) (fill : ℕ → ℕ → ℕ → Tallied U8 → Tallied U8) : Prop :=
  ∀ valueBytes dst n r, RangesApart valueBytes pixelSize dst (n * pixelSize) →
    RowStored (Set.Ico valueBytes (valueBytes + pixelSize)) dst (n * pixelSize)
      (fun j => r.mem (valueBytes + j % pixelSize)) r (fill valueBytes dst (n * pixelSize) r)

/-- A row gets the `n` pixels that end at `srcLast`, in reverse order. -/
def Reverses (pixelSize : ℕ) (copyReversed : ℕ → ℕ → ℕ → Tallied U8 → Tallied U8) : Prop :=
  ∀ first srcLast dst n r, srcLast + pixelSize = first + n * pixelSize →
    RangesApart first (n * pixelSize) dst (n * pixelSize) →
      RowStored (Set.Ico first (first + n * pixelSize)) dst (n * pixelSize)
        (fun j => r.mem (first + mirror n pixelSize j)) r
        (copyReversed srcLast dst (n * pixelSize) r)

theorem memcpy_copies : ByteCopier.Copies fun src dst size => memcpy dst src size :=
  fun src dst size r _ => RowStored.load_store src size dst size _ r subset_rfl

section

variable {L : Set ℕ} {p dst n i k : ℕ} {r r' r'' : Tallied U8}

/-- Some more pixels of a border filled with one pixel. -/
theorem filled_append {value : ℕ}
    (h : RowStored L dst (i * p) (fun j => r.mem (value + j % p)) r r')
    (h' : RowStored L (dst + i * p) (k * p) (fun j => r.mem (value + j % p)) r' r'') :
    RowStored L dst ((i + k) * p) (fun j => r.mem (value + j % p)) r r'' := by
  rw [Nat.add_mul]
  refine h.append (h'.congr fun j _ => ?_)
  rw [Nat.add_comm (i * p), Nat.add_mul_mod_self_right]

/-- The rest of a border, filled in another way. -/
theorem filled_rest {value : ℕ} {fill : ℕ → ℕ → ℕ → Tallied U8 → Tallied U8} (hfill : Fills p fill)
    (hp : 0 < p) (hapart : RangesApart value p dst (n * p)) (hi : i < n)
    (h : RowStored (Set.Ico value (value + p)) dst (i * p) (fun j => r.mem (value + j % p)) r r') :
    RowStored (Set.Ico value (value + p)) dst (n * p) (fun j => r.mem (value + j % p)) r
      (fill value (dst + i * p) ((n - i) * p) r') := by
  have hsum : i * p + (n - i) * p = n * p := by rw [← Nat.add_mul, Nat.add_sub_cancel' hi.le]
  have hrest := hfill value (dst + i * p) (n - i) r' (by
    have hpart := hapart.part (i := 0) (m := p) (by omega) hsum.le
    rwa [Nat.add_zero] at hpart)
  have hvalue : RowStored (Set.Ico value (value + p)) (dst + i * p) ((n - i) * p)
      (fun j => r.mem (value + j % p)) r' (fill value (dst + i * p) ((n - i) * p) r') :=
    hrest.congr fun j _ =>
      h.read_apart (fun a ha b hb => hapart a ha b (by omega)) (Nat.mod_lt j hp)
  have hall := filled_append h hvalue
  rwa [Nat.add_sub_cancel' hi.le] at hall

/-- Some more pixels of a border of reversed pixels. -/
theorem reversed_append {first : ℕ} (hapart : RangesApart first (n * p) dst (n * p)) (hin : i + k ≤ n)
    (hp : 0 < p) (h : RowStored L dst (i * p) (fun j => r.mem (first + mirror n p j)) r r')
    (h' : RowStored L (dst + i * p) (k * p)
      (fun j => r'.mem (first + (n - i - k) * p + mirror k p j)) r' r'') :
    RowStored L dst ((i + k) * p) (fun j => r.mem (first + mirror n p j)) r r'' := by
  have hle : i * p ≤ n * p := Nat.mul_le_mul_right p (by omega)
  rw [Nat.add_mul]
  refine h.append (h'.congr fun j hj => ?_)
  have hlt : i * p + j < n * p := by
    have := Nat.mul_le_mul_right p hin
    rw [Nat.add_mul] at this
    omega
  have hmirror := mirror_lt hp hlt
  rw [mirror_block hp hj hin] at hmirror ⊢
  rw [Nat.add_assoc]
  exact h.read_apart (fun a ha b hb => hapart a ha b (by omega)) hmirror

/-- The pixels at the end of the source that a block of a border is made of. -/
theorem block_source {first srcLast : ℕ} (hlast : srcLast + p = first + n * p) (hin : i + k ≤ n) :
    srcLast + p - (i + k) * p = first + (n - i - k) * p := by
  have hsplit : n * p = (n - i - k) * p + (i + k) * p := by
    rw [← Nat.add_mul]
    congr 1
    omega
  omega

/-- They are in the source. -/
theorem block_subset (hin : i + k ≤ n) (first : ℕ) :
    Set.Ico (first + (n - i - k) * p) (first + (n - i - k) * p + k * p) ⊆
      Set.Ico first (first + n * p) := by
  have hle : (n - i - k) * p + k * p ≤ n * p := by
    rw [← Nat.add_mul]
    exact Nat.mul_le_mul_right p (by omega)
  rintro a ⟨h1, h2⟩
  exact ⟨by omega, by omega⟩

/-- The rest of a border of reversed pixels, in another way. -/
theorem reversed_rest {first srcLast : ℕ} {copyReversed : ℕ → ℕ → ℕ → Tallied U8 → Tallied U8}
    (hcopy : Reverses p copyReversed) (hp : 0 < p) (hlast : srcLast + p = first + n * p)
    (hapart : RangesApart first (n * p) dst (n * p)) (hi : i < n)
    (h : RowStored (Set.Ico first (first + n * p)) dst (i * p)
      (fun j => r.mem (first + mirror n p j)) r r') :
    RowStored (Set.Ico first (first + n * p)) dst (n * p) (fun j => r.mem (first + mirror n p j)) r
      (copyReversed (srcLast - i * p) (dst + i * p) ((n - i) * p) r') := by
  have hsum : i * p + (n - i) * p = n * p := by rw [← Nat.add_mul, Nat.add_sub_cancel' hi.le]
  have hpos : p ≤ (n - i) * p := Nat.le_mul_of_pos_left p (by omega)
  have hrest := hcopy first (srcLast - i * p) (dst + i * p) (n - i) r' (by omega) (by
    have hpart := hapart.part (i := 0) (m := (n - i) * p) (by omega) hsum.le
    rwa [Nat.add_zero] at hpart)
  have hall := reversed_append (k := n - i) hapart (by omega) hp h (by
    rw [show n - i - (n - i) = 0 by omega, Nat.zero_mul, Nat.add_zero]
    exact hrest.mono (Set.Ico_subset_Ico_right (by omega)))
  rwa [Nat.add_sub_cancel' hi.le] at hall

/-- The three scalars of a pixel are loaded. -/
theorem loadPixel3_touched (value sz : ℕ) (r : Tallied U8) :
    Touched (Set.Ico value (value + 3 * sz)) ∅ r
      (((r.loadRange value sz).loadRange (value + sz) sz).loadRange (value + 2 * sz) sz) := by
  rw [Tallied.loadRange_append, ← Nat.two_mul, Tallied.loadRange_append, ← Nat.succ_mul]
  exact Touched.loadRange r value (3 * sz)

/-- A loop over pixels. -/
theorem forSteps_pixels (hp : 0 < p) (n : ℕ) (body : ℕ → Tallied U8 → Tallied U8) :
    forSteps 0 p (n * p) body r = forRange n (fun i => body (i * p)) r := by
  have hcount : (n * p - 0 + p - 1) / p = n := by
    rw [Nat.sub_zero, Nat.add_sub_assoc hp, Nat.add_comm, Nat.add_mul_div_right _ _ hp,
      Nat.div_eq_of_lt (by omega), Nat.zero_add]
  rw [forSteps, hcount]
  simp only [Nat.zero_add]

variable {copyContiguousBytes : ByteCopier}

theorem fillRepeatedByBytes_fills (hp : 0 < p) (hcopy : copyContiguousBytes.Copies) :
    Fills p (fillRepeatedByBytes copyContiguousBytes p) := by
  intro value dst n r hapart
  rw [fillRepeatedByBytes, forSteps_pixels hp]
  refine RowStored.forRange fun i hi r' h => ?_
  have hle : i * p + p ≤ n * p := by
    rw [← Nat.succ_mul]
    exact Nat.mul_le_mul_right p hi
  have hpixel := hcopy value (dst + i * p) p r' (by
    have hpart := hapart.part (i := 0) (m := p) (by omega) hle
    rwa [Nat.add_zero] at hpart)
  refine hpixel.congr fun j hj => ?_
  rw [Nat.add_comm (i * p), Nat.add_mul_mod_self_right, Nat.mod_eq_of_lt hj]
  exact h.read_apart (fun a ha b hb => hapart a ha b (by omega)) hj

theorem copyReversedByBytes_reverses (hp : 0 < p) (hcopy : copyContiguousBytes.Copies) :
    Reverses p (copyReversedByBytes copyContiguousBytes p) := by
  intro first srcLast dst n r hlast hapart
  rw [copyReversedByBytes, forSteps_pixels hp]
  refine RowStored.forRange fun i hi r' h => ?_
  have hin : i + 1 ≤ n := hi
  have hsource := block_source hlast hin
  have hsubset := block_subset (p := p) (i := i) (k := 1) hin
  rw [Nat.succ_mul] at hsource
  simp only [Nat.one_mul] at hsubset
  have hsrc : srcLast - i * p = first + (n - i - 1) * p := by omega
  have hsum : (n - i - 1) * p + p ≤ n * p := by
    rw [← Nat.succ_mul]
    exact Nat.mul_le_mul_right p (by omega)
  have hle : i * p + p ≤ n * p := by
    rw [← Nat.succ_mul]
    exact Nat.mul_le_mul_right p hi
  have hpixel := hcopy (srcLast - i * p) (dst + i * p) p r' (by
    rw [hsrc]
    exact hapart.part hsum hle)
  rw [hsrc] at hpixel ⊢
  refine (hpixel.mono (hsubset first)).congr fun j hj => ?_
  have hmirror := mirror_block (w := n) (i := i) (n := 1) hp (by rwa [Nat.one_mul]) hin
  rw [mirror_one hj] at hmirror
  rw [hmirror, Nat.add_assoc]
  exact h.read_apart (fun a ha b hb => hapart a ha b (by omega)) (by omega)

end

/-! ### Neon -/

namespace Neon

/-- `vld1q_dup`. -/
def vld1qDup (sz src : ℕ) (r : Tallied U8) : U8x16 × Tallied U8 :=
  (fun k => r.mem (src + k % sz), r.loadRange src sz)

/-- `VecTraits<T>::load` of two vectors. -/
def vld1qX2 (src : ℕ) (r : Tallied U8) : (U8x16 × U8x16) × Tallied U8 :=
  ((vld1qU8 r.mem src, vld1qU8 r.mem (src + 16)), (r.loadRange src 16).loadRange (src + 16) 16)

/-- `VecTraits<T>::store` of two vectors. -/
def vst1qX2 (dst : ℕ) (v : U8x16 × U8x16) (r : Tallied U8) : Tallied U8 :=
  (r.storeRange dst 16 fun j => v.1 (Fin.ofNat 16 j)).storeRange (dst + 16) 16 fun j =>
    v.2 (Fin.ofNat 16 j)

/-- `vld3q`. -/
def vld3q (sz src : ℕ) (r : Tallied U8) : Vector3 × Tallied U8 :=
  (KleidiCV.vld3q sz r.mem src, r.loadRange src 48)

/-- `vst3q`. -/
def vst3q (sz dst : ℕ) (v : Vector3) (r : Tallied U8) : Tallied U8 :=
  r.storeRange dst 48 fun j =>
    v (Fin.ofNat 3 (j / sz % 3)) (Fin.ofNat 16 (j / sz / 3 * sz + j % sz))

/-- `reverse_packed_vector_lanes`: `vcombine` of the high and the low half. -/
def reversePackedVectorLanes (sz : ℕ) (vectorValue : U8x16) : U8x16 :=
  let reversedVector64 := vrev64q sz vectorValue
  fun k =>
    if k < 8 then reversedVector64 (Fin.ofNat 16 (k + 8)) else reversedVector64 (Fin.ofNat 16 (k - 8))

/-- `reverse_packed_vector2_order_and_lanes`. -/
def reversePackedVector2OrderAndLanes (sz : ℕ) (v : U8x16 × U8x16) : U8x16 × U8x16 :=
  (reversePackedVectorLanes sz v.2, reversePackedVectorLanes sz v.1)

/-- `reverse_interleaved_3_vector_lanes`. -/
def reverseInterleaved3VectorLanes (sz : ℕ) (v : Vector3) : Vector3 := fun c =>
  reversePackedVectorLanes sz (v c)

/-- `copy_contiguous_bytes`. -/
def copyContiguousBytes : ByteCopier := fun src dst size => memcpy dst src size

/-- `fill_single_channel`. -/
def fillSingleChannel (sz valueBytes dst rowSize : ℕ) (r : Tallied U8) : Tallied U8 :=
  let repeatedValue := vld1qDup sz valueBytes r
  ((LoopUnroll2.start rowSize 16, repeatedValue.2) |>
    LoopUnroll2.unrollTwice (fun index => vst1qX2 (dst + index) (repeatedValue.1, repeatedValue.1)) |>
    LoopUnroll2.remaining fun index length =>
      fillRepeatedByBytes copyContiguousBytes sz valueBytes (dst + index) (length - index)).2

/-- `fill_interleaved_3`. -/
def fillInterleaved3 (sz valueBytes dst rowSize : ℕ) (r : Tallied U8) : Tallied U8 :=
  let value0 := vld1qDup sz valueBytes r
  let value1 := vld1qDup sz (valueBytes + sz) value0.2
  let value2 := vld1qDup sz (valueBytes + 2 * sz) value1.2
  let store := fun index => vst3q sz (dst + index) ![value0.1, value1.1, value2.1]
  ((LoopUnroll2.start rowSize 48, value2.2) |>
    LoopUnroll2.unrollTwice (fun index r => store (index + 48) (store index r)) |>
    LoopUnroll2.remaining fun index length =>
      fillRepeatedByBytes copyContiguousBytes (3 * sz) valueBytes (dst + index) (length - index)).2

/-- `RepeatedPixelWriter<PixelSize>::fill_repeated_pixel`. -/
def fillRepeatedPixel (PixelSize pixelSize : ℕ) : ℕ → ℕ → ℕ → Tallied U8 → Tallied U8 :=
  byPixelSize PixelSize fillSingleChannel fillInterleaved3
    (fillRepeatedByBytes copyContiguousBytes pixelSize)

/-- `copy_reversed_packed`. -/
def copyReversedPacked (sz srcLast dst rowSize : ℕ) (r : Tallied U8) : Tallied U8 :=
  ((LoopUnroll2.start rowSize 16, r) |>
    LoopUnroll2.unrollTwice (fun index r =>
      let srcVector := vld1qX2 (srcLast + sz - index - 2 * 16) r
      vst1qX2 (dst + index) (reversePackedVector2OrderAndLanes sz srcVector.1) srcVector.2) |>
    LoopUnroll2.remaining fun index length =>
      copyReversedByBytes copyContiguousBytes sz (srcLast - index) (dst + index)
        (length - index)).2

/-- `copy_reversed_interleaved_3`. -/
def copyReversedInterleaved3 (sz srcLast dst rowSize : ℕ) (r : Tallied U8) : Tallied U8 :=
  let copyBlock := fun index r =>
    let srcVector := vld3q sz (srcLast + 3 * sz - index - 48) r
    vst3q sz (dst + index) (reverseInterleaved3VectorLanes sz srcVector.1) srcVector.2
  ((LoopUnroll2.start rowSize 48, r) |>
    LoopUnroll2.unrollTwice (fun index r => copyBlock (index + 48) (copyBlock index r)) |>
    LoopUnroll2.remaining fun index length =>
      copyReversedByBytes copyContiguousBytes (3 * sz) (srcLast - index) (dst + index)
        (length - index)).2

/-- `ReversedPixelCopier<PixelSize>::copy_reversed_pixels`. -/
def copyReversedPixels (PixelSize pixelSize : ℕ) : ℕ → ℕ → ℕ → Tallied U8 → Tallied U8 :=
  byPixelSize PixelSize copyReversedPacked copyReversedInterleaved3
    (copyReversedByBytes copyContiguousBytes pixelSize)

/-! ### What the Neon helpers do -/

theorem copyContiguousBytes_copies : copyContiguousBytes.Copies := memcpy_copies

section

variable {L : Set ℕ} {sz p dst n : ℕ} {g : ℕ → U8} {r : Tallied U8}

/-- The two ways to reverse a vector. -/
theorem reversePackedVectorLanes_eq (hsz : ScalarSize sz) (v : U8x16) :
    reversePackedVectorLanes sz v = reverseLanes sz v := by
  have hhalf : KleidiCV.numLanes sz / 2 * sz = 8 := by
    rcases hsz with rfl | rfl | rfl | rfl <;> rfl
  funext k
  simp only [reversePackedVectorLanes, reverseLanes, vextq, hhalf]
  by_cases hk : k < 8
  · have hlt : k.val < 8 := hk
    rw [if_pos hk, if_pos (by omega)]
  · have hge : ¬k.val < 8 := hk
    rw [if_neg hk, if_neg (by omega), show k.val + 8 - 16 = k.val - 8 by omega]

theorem storeRange_dup (hsz : ScalarSize sz) (m : Mem) (src : ℕ) (r : Tallied U8) :
    vst1qX2 dst (fun k => m (src + k % sz), fun k => m (src + k % sz)) r =
      r.storeRange dst (2 * KleidiCV.numLanes sz * sz) fun j => m (src + j % sz) := by
  have hmul := hsz.numLanes_mul
  rw [Nat.mul_assoc, hmul, vst1qX2, Tallied.storeRange_append]
  refine Tallied.storeRange_congr fun j hj => ?_
  split
  next hlt => simp only [Fin.val_ofNat, Nat.mod_eq_of_lt hlt]
  next hge =>
    obtain ⟨i, rfl⟩ := Nat.exists_eq_add_of_le (Nat.le_of_not_lt hge)
    have hi : i < 16 := by omega
    rw [Nat.add_sub_cancel_left]
    simp only [Fin.val_ofNat, Nat.mod_eq_of_lt hi]
    rw [← hmul, Nat.add_comm (_ * sz), Nat.add_mul_mod_self_right]

theorem storeRange_dup3 (hsz : ScalarSize sz) (m : Mem) (src : ℕ) (r : Tallied U8) :
    vst3q sz dst ![fun k => m (src + k % sz), fun k => m (src + sz + k % sz),
        fun k => m (src + 2 * sz + k % sz)] r =
      r.storeRange dst (KleidiCV.numLanes sz * (3 * sz)) fun j => m (src + j % (3 * sz)) := by
  have hmul := hsz.numLanes_mul
  have hblock : KleidiCV.numLanes sz * (3 * sz) = 48 := by rw [Nat.mul_left_comm, hmul]
  rw [hblock, vst3q]
  refine Tallied.storeRange_congr fun j hj => ?_
  have hlane : j / sz / 3 < KleidiCV.numLanes sz := Scalable.lane_lt (by rwa [hblock])
  have hbyte : j / sz / 3 * sz + j % sz < 16 := by
    have hle := Nat.mul_le_mul_right sz (Nat.succ_le_of_lt hlane)
    have := Nat.mod_lt j hsz.pos
    rw [Nat.succ_mul, hmul] at hle
    omega
  have hvector : ∀ c : Fin 3, (![fun k => m (src + k % sz), fun k => m (src + sz + k % sz),
      fun k => m (src + 2 * sz + k % sz)] : Vector3) c =
      fun k : Fin 16 => m (src + c * sz + k % sz) := by
    intro c
    fin_cases c
    · simp
    · simp
    · rfl
  have hmod : j % (3 * sz) = j / sz % 3 * sz + j % sz := by
    rw [Nat.mul_comm 3, Nat.mod_mul]
    ring
  rw [hvector, hmod]
  simp only [Fin.val_ofNat, Nat.mod_eq_of_lt hbyte, Nat.mod_mod, Nat.mul_add_mod_self_right]
  rw [Nat.add_assoc]

/-- Two vectors loaded, reversed and stored. -/
theorem store_reversed2 (hsz : ScalarSize sz) (src : ℕ) (r r' : Tallied U8) :
    vst1qX2 dst (reversePackedVector2OrderAndLanes sz (vld1qX2 src r).1) r' =
      r'.storeRange dst (2 * KleidiCV.numLanes sz * sz) fun j =>
        r.mem (src + mirror (2 * KleidiCV.numLanes sz) sz j) := by
  have hone : ∀ (r' : Tallied U8) dst src,
      (r'.storeRange dst 16 fun j => reverseLanes sz (vld1qU8 r.mem src) (Fin.ofNat 16 j)) =
        r'.storeRange dst 16 fun j => r.mem (src + mirror (KleidiCV.numLanes sz) sz j) := by
    intro r' dst src
    refine Tallied.storeRange_congr fun j hj => ?_
    have hlt := mirror_lt hsz.pos (show j < KleidiCV.numLanes sz * sz by rwa [hsz.numLanes_mul])
    rw [hsz.numLanes_mul] at hlt
    rw [reverseLanes_apply hsz, vld1qU8]
    simp only [Fin.val_ofNat, Nat.mod_eq_of_lt hj, Nat.mod_eq_of_lt hlt]
  have htwo := Scalable.storeRange_mirror_two hsz.pos r' dst (KleidiCV.numLanes sz) fun j =>
    r.mem (src + j)
  rw [hsz.numLanes_mul] at htwo
  simp only [vst1qX2, reversePackedVector2OrderAndLanes, vld1qX2, reversePackedVectorLanes_eq hsz,
    hone, ← htwo, Nat.add_assoc]

/-- Three vectors of interleaved scalars loaded, reversed and stored. -/
theorem store_reversed3 (hsz : ScalarSize sz) (src : ℕ) (r r' : Tallied U8) :
    vst3q sz dst (reverseInterleaved3VectorLanes sz (vld3q sz src r).1) r' =
      r'.storeRange dst (KleidiCV.numLanes sz * (3 * sz)) fun j =>
        r.mem (src + mirror (KleidiCV.numLanes sz) (3 * sz) j) := by
  have hblock : KleidiCV.numLanes sz * (3 * sz) = 48 := by
    rw [Nat.mul_left_comm, hsz.numLanes_mul]
  have hlanes : reverseInterleaved3VectorLanes sz (vld3q sz src r).1 =
      reverseLanes3 sz (KleidiCV.vld3q sz r.mem src) :=
    funext fun c => reversePackedVectorLanes_eq hsz _
  rw [hblock, vst3q, hlanes]
  refine Tallied.storeRange_congr fun j hj => ?_
  have hmem := congrFun (vst3q_reverseLanes3 hsz r'.mem r.mem 0 src) (0 + j)
  rw [KleidiCV.vst3q, overwrite_add hj, overwrite_add hj] at hmem
  exact hmem

/-- Blocks of `k` pixels, then what is left, in bytes. -/
theorem blocks_stored {step k : ℕ} {body : ℕ → Tallied U8 → Tallied U8}
    {rest : ℕ → ℕ → Tallied U8 → Tallied U8} {r₀ : Tallied U8} (hp : 0 < p)
    (hblock : 2 * step = k * p) (h0 : RowStored L dst 0 g r r₀)
    (hbody : ∀ i r', i + k ≤ n → RowStored L dst (i * p) g r r' →
      RowStored L dst ((i + k) * p) g r (body (i * p) r'))
    (hrest : ∀ i r', i < n → RowStored L dst (i * p) g r r' →
      RowStored L dst (n * p) g r (rest (i * p) (n * p) r')) :
    RowStored L dst (n * p) g r ((LoopUnroll2.start (n * p) step, r₀) |>
      LoopUnroll2.unrollTwice body |> LoopUnroll2.remaining rest).2 := by
  have hstart : Unrolled (n * p) step (fun i r' => ∃ q, i = q * p ∧ RowStored L dst (q * p) g r r')
      (LoopUnroll2.start (n * p) step, r₀) :=
    Unrolled.start ⟨0, (Nat.zero_mul p).symm, by rwa [Nat.zero_mul]⟩
  refine (hstart.unrollTwice ?_).remaining _ ?_ ?_
  · rintro i r' hi ⟨q, rfl, h⟩
    rw [hblock, ← Nat.add_mul] at hi ⊢
    exact ⟨q + k, rfl, hbody q r' (Nat.le_of_mul_le_mul_right hi hp) h⟩
  · rintro r' ⟨q, heq, h⟩
    rwa [← heq] at h
  · rintro i r' hi ⟨q, rfl, h⟩
    exact hrest q r' (Nat.lt_of_mul_lt_mul_right hi) h

/-- A border filled with a pixel of one scalar. -/
theorem fillSingleChannel_fills (hsz : ScalarSize sz) : Fills sz (fillSingleChannel sz) := by
  intro value dst n r hapart
  have h0 : RowStored (Set.Ico value (value + sz)) dst 0 (fun j => r.mem (value + j % sz)) r
      (r.loadRange value sz) :=
    RowStored.after_loads (Touched.loadRange r value sz) (RowStored.empty _ dst _ _)
  have hblock : 2 * 16 = 2 * KleidiCV.numLanes sz * sz := by rw [Nat.mul_assoc, hsz.numLanes_mul]
  refine blocks_stored hsz.pos hblock h0 (fun i r' hi h => ?_) fun i r' hi h => ?_
  · refine filled_append h ?_
    rw [vld1qDup, storeRange_dup hsz]
    exact RowStored.storeRange _ _ _ _ r'
  · rw [← Nat.sub_mul]
    exact filled_rest (fillRepeatedByBytes_fills hsz.pos copyContiguousBytes_copies) hsz.pos hapart
      hi h

/-- A border filled with a pixel of three scalars. -/
theorem fillInterleaved3_fills (hsz : ScalarSize sz) :
    Fills (3 * sz) (fillInterleaved3 sz) := by
  intro value dst n r hapart
  have hp : 0 < 3 * sz := Nat.mul_pos three_pos hsz.pos
  have h0 : RowStored (Set.Ico value (value + 3 * sz)) dst 0
      (fun j => r.mem (value + j % (3 * sz))) r
      (((r.loadRange value sz).loadRange (value + sz) sz).loadRange (value + 2 * sz) sz) :=
    RowStored.after_loads (loadPixel3_touched value sz r) (RowStored.empty _ dst _ _)
  have hlanes : KleidiCV.numLanes sz * (3 * sz) = 48 := by
    rw [Nat.mul_left_comm, hsz.numLanes_mul]
  have hblock : 2 * 48 = 2 * KleidiCV.numLanes sz * (3 * sz) := by rw [Nat.mul_assoc, hlanes]
  refine blocks_stored hp hblock h0 (fun i r' hi h => ?_) fun i r' hi h => ?_
  · simp only [vld1qDup, Tallied.loadRange_mem, storeRange_dup3 hsz]
    have hone := filled_append h (RowStored.storeRange _ (dst + i * (3 * sz))
      (KleidiCV.numLanes sz * (3 * sz)) _ r')
    have htwo := filled_append hone (RowStored.storeRange _
      (dst + (i + KleidiCV.numLanes sz) * (3 * sz)) (KleidiCV.numLanes sz * (3 * sz)) _ _)
    have hnext : (i + KleidiCV.numLanes sz) * (3 * sz) = i * (3 * sz) + 48 := by
      rw [Nat.add_mul, hlanes]
    rw [Nat.add_assoc i, ← Nat.two_mul, hnext, hlanes] at htwo
    rw [hlanes]
    exact htwo
  · rw [← Nat.sub_mul]
    exact filled_rest (fillRepeatedByBytes_fills hp copyContiguousBytes_copies) hp hapart hi h

/-- A border filled with a pixel. -/
theorem fillRepeatedPixel_fills {PixelSize pixelSize : ℕ} (hp : 0 < pixelSize)
    (hsize : PixelSize = 0 ∨ PixelSize = pixelSize) :
    Fills pixelSize (fillRepeatedPixel PixelSize pixelSize) := by
  refine byPixelSize_cases (fun sz hsz heq => ?_) (fun sz hsz heq => ?_)
    (fillRepeatedByBytes_fills hp copyContiguousBytes_copies)
  · have hpos := hsz.pos
    obtain rfl : pixelSize = sz := by omega
    exact fillSingleChannel_fills hsz
  · have hpos := hsz.pos
    obtain rfl : pixelSize = 3 * sz := by omega
    exact fillInterleaved3_fills hsz

/-- A border of reversed pixels of one scalar. -/
theorem copyReversedPacked_reverses (hsz : ScalarSize sz) :
    Reverses sz (copyReversedPacked sz) := by
  intro first srcLast dst n r hlast hapart
  have hblock : 2 * 16 = 2 * KleidiCV.numLanes sz * sz := by rw [Nat.mul_assoc, hsz.numLanes_mul]
  refine blocks_stored hsz.pos hblock (RowStored.empty _ dst _ r) (fun i r' hi h => ?_)
    fun i r' hi h => ?_
  · have hsource := block_source hlast hi
    rw [Nat.add_mul, ← hblock, ← Nat.sub_sub] at hsource
    refine reversed_append hapart hi hsz.pos h ?_
    simp only [hsource, store_reversed2 hsz]
    have hloads := block_subset (p := sz) hi first
    rw [← hblock] at hloads
    have hload : (vld1qX2 (first + (n - i - 2 * KleidiCV.numLanes sz) * sz) r').2 =
        r'.loadRange (first + (n - i - 2 * KleidiCV.numLanes sz) * sz) (2 * 16) := by
      rw [vld1qX2, Tallied.loadRange_append]
    rw [hload]
    exact RowStored.load_store _ _ _ _ _ r' hloads
  · rw [← Nat.sub_mul]
    exact reversed_rest (copyReversedByBytes_reverses hsz.pos copyContiguousBytes_copies) hsz.pos
      hlast hapart hi h

/-- A border of reversed pixels of three scalars. -/
theorem copyReversedInterleaved3_reverses (hsz : ScalarSize sz) :
    Reverses (3 * sz) (copyReversedInterleaved3 sz) := by
  intro first srcLast dst n r hlast hapart
  have hp : 0 < 3 * sz := Nat.mul_pos three_pos hsz.pos
  have hlanes : KleidiCV.numLanes sz * (3 * sz) = 48 := by
    rw [Nat.mul_left_comm, hsz.numLanes_mul]
  have hblock : 2 * 48 = 2 * KleidiCV.numLanes sz * (3 * sz) := by rw [Nat.mul_assoc, hlanes]
  -- One block.
  have hone : ∀ i r', i + KleidiCV.numLanes sz ≤ n →
      RowStored (Set.Ico first (first + n * (3 * sz))) dst (i * (3 * sz))
        (fun j => r.mem (first + mirror n (3 * sz) j)) r r' →
      RowStored (Set.Ico first (first + n * (3 * sz))) dst ((i + KleidiCV.numLanes sz) * (3 * sz))
        (fun j => r.mem (first + mirror n (3 * sz) j)) r
        (let srcVector := vld3q sz (srcLast + 3 * sz - i * (3 * sz) - 48) r'
        vst3q sz (dst + i * (3 * sz)) (reverseInterleaved3VectorLanes sz srcVector.1)
          srcVector.2) := by
    intro i r' hi h
    have hsource := block_source hlast hi
    rw [Nat.add_mul, hlanes, ← Nat.sub_sub] at hsource
    refine reversed_append hapart hi hp h ?_
    simp only [hsource, store_reversed3 hsz]
    have hloads := block_subset (p := 3 * sz) hi first
    rw [hlanes] at hloads
    exact RowStored.load_store _ _ _ _ _ r' hloads
  refine blocks_stored hp hblock (RowStored.empty _ dst _ r) (fun i r' hi h => ?_)
    fun i r' hi h => ?_
  · have hfirst := hone i r' (by omega) h
    have hsecond := hone (i + KleidiCV.numLanes sz) _ (by omega) hfirst
    have hnext : (i + KleidiCV.numLanes sz) * (3 * sz) = i * (3 * sz) + 48 := by
      rw [Nat.add_mul, hlanes]
    rw [Nat.add_assoc i, ← Nat.two_mul, hnext] at hsecond
    exact hsecond
  · rw [← Nat.sub_mul]
    exact reversed_rest (copyReversedByBytes_reverses hp copyContiguousBytes_copies) hp
      hlast hapart hi h

/-- A border of reversed pixels. -/
theorem copyReversedPixels_reverses {PixelSize pixelSize : ℕ} (hp : 0 < pixelSize)
    (hsize : PixelSize = 0 ∨ PixelSize = pixelSize) :
    Reverses pixelSize (copyReversedPixels PixelSize pixelSize) := by
  refine byPixelSize_cases (fun sz hsz heq => ?_) (fun sz hsz heq => ?_)
    (copyReversedByBytes_reverses hp copyContiguousBytes_copies)
  · have hpos := hsz.pos
    obtain rfl : pixelSize = sz := by omega
    exact copyReversedPacked_reverses hsz
  · have hpos := hsz.pos
    obtain rfl : pixelSize = 3 * sz := by omega
    exact copyReversedInterleaved3_reverses hsz

end

end Neon

end Padding

end KleidiCV
