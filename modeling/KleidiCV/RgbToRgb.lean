/-
Conversions of the colour order: `kleidicv_rgb_to_bgr_u8` and its siblings,
`kleidicv_gray_to_rgb_u8` and `kleidicv_gray_to_rgba_u8`.

Every conversion fills each channel with a channel of the source or with 0xff, by stores and
loads that interleave or, where the build prefers it, by tables.

* `ColourConversion.performs` — what a conversion copies, also in place;
* `runConversions_composed` — conversions, merges and splits one after another.
-/
import KleidiCV.MergeSplit

open Loop

namespace KleidiCV

open Interleave

namespace ColourOrder

/-! ### Permutations -/

section

variable {α β : Type}

/-- `vqtbl1q_u8`; an index out of range gives `zero`. -/
def vqtbl1q (zero : α) (a : Fin 16 → α) (index : Fin 16 → ℕ) : Fin 16 → α := fun k =>
  if index k < 16 then a (Fin.ofNat 16 (index k)) else zero

/-- `vqtbl2q_u8`. -/
def vqtbl2q (zero : α) (a b : Fin 16 → α) (index : Fin 16 → ℕ) : Fin 16 → α := fun k =>
  if index k < 16 then a (Fin.ofNat 16 (index k))
  else if index k < 32 then b (Fin.ofNat 16 (index k)) else zero

theorem vqtbl1q_map (g : α → β) (zero : α) (a : Fin 16 → α) (index : Fin 16 → ℕ) :
    vqtbl1q (g zero) (fun k => g (a k)) index = fun k => g (vqtbl1q zero a index k) := by
  funext k
  unfold vqtbl1q
  split <;> rfl

theorem vqtbl2q_map (g : α → β) (zero : α) (a b : Fin 16 → α) (index : Fin 16 → ℕ) :
    vqtbl2q (g zero) (fun k => g (a k)) (fun k => g (b k)) index =
      fun k => g (vqtbl2q zero a b index k) := by
  funext k
  unfold vqtbl2q
  split_ifs <;> rfl

end

/-- `kRGBToBGRTableIndices`. -/
def kRgbToBgrTableIndices : List ℕ :=
  [2, 1, 0, 5, 4, 3, 8, 7, 6, 11, 10, 9, 14, 13, 12, 17,
   16, 15, 20, 19, 18, 23, 22, 21, 26, 25, 24, 29, 28, 27, 32, 31,
   14, 19, 18, 17, 22, 21, 20, 25, 24, 23, 28, 27, 26, 31, 30, 29]

/-- `kRGBAToBGRATableIndices`. -/
def kRgbaToBgraTableIndices : List ℕ := [2, 1, 0, 3, 6, 5, 4, 7, 10, 9, 8, 11, 14, 13, 12, 15]

/-- `kGrayToRGBTableIndices`. -/
def kGrayToRgbTableIndices : List ℕ :=
  [0, 0, 0, 1, 1, 1, 2, 2, 2, 3, 3, 3, 4, 4, 4, 5,
   5, 5, 6, 6, 6, 7, 7, 7, 8, 8, 8, 9, 9, 9, 10, 10,
   10, 11, 11, 11, 12, 12, 12, 13, 13, 13, 14, 14, 14, 15, 15, 15]

/-- `kGrayToRGBATableIndices`. -/
def kGrayToRgbaTableIndices : List ℕ :=
  [0, 0, 0, 16, 1, 1, 1, 16, 2, 2, 2, 16, 3, 3, 3, 16,
   4, 4, 4, 16, 5, 5, 5, 16, 6, 6, 6, 16, 7, 7, 7, 16,
   8, 8, 8, 16, 9, 9, 9, 16, 10, 10, 10, 16, 11, 11, 11, 16,
   12, 12, 12, 16, 13, 13, 13, 16, 14, 14, 14, 16, 15, 15, 15, 16]

/-- Vector `c` of a table of indices. -/
def vectorOf (table : List ℕ) (c : ℕ) : Fin 16 → ℕ := fun k => table.getD (16 * c + k) 0

/-- The vectors of `RGBToBGR`. -/
def rgbToBgrVectors : VectorMap := fun _ zero src c =>
  match c with
  | 0 => vqtbl2q zero (src 0) (src 1) (vectorOf kRgbToBgrTableIndices 0)
  | 1 => vqtbl3q zero src (vectorOf kRgbToBgrTableIndices 1)
  | _ => vqtbl2q zero (src 1) (src 2) (vectorOf kRgbToBgrTableIndices 2)

/-- The vectors of `RGBAToBGRA`. -/
def rgbaToBgraVectors : VectorMap := fun _ zero src c =>
  vqtbl1q zero (src c) (vectorOf kRgbaToBgraTableIndices 0)

/-- The vectors of `GrayToRGB`. -/
def grayToRgbVectors : VectorMap := fun _ zero src c =>
  vqtbl1q zero (src 0) (vectorOf kGrayToRgbTableIndices c)

/-- The vectors of `GrayToRGBA`, whose second source is `vdupq_n_u8(0xff)`. -/
def grayToRgbaVectors : VectorMap := fun _ zero src c =>
  vqtbl2q zero (src 0) (src 1) (vectorOf kGrayToRgbaTableIndices c)

/-- For each channel of the result, the channel that it is filled with; `none` is 0xff. -/
abbrev ChannelOrder := ℕ → Option ℕ

/-- Blue and red in each other's place, alpha kept. -/
def swapped : ChannelOrder := fun i => some (if i = 0 then 2 else if i = 2 then 0 else i)

def kept : ChannelOrder := some

/-- The first three channels, with an alpha channel added. -/
def withAlpha (order : ChannelOrder) : ChannelOrder := fun i => if i = 3 then none else order i

def gray : ChannelOrder := fun _ => some 0

/-- Where entry `t` of a block of the result comes from. -/
def orderedFrom (order : ChannelOrder) (inN outN t : ℕ) : ℕ × Fin 16 :=
  match order (t % outN) with
  | some j => ((t / outN * inN + j) / 16, Fin.ofNat 16 (t / outN * inN + j))
  | none => (inN, 0)

/-- Vectors that a table puts in order, for every type of entries. -/
structure Orders (vectors : VectorMap) (order : ChannelOrder) (inN outN : ℕ) : Prop where
  natural : Natural vectors
  label : ∀ c < outN, ∀ k : Fin 16, vectors (Option (ℕ × Fin 16)) none labels c k =
    some (orderedFrom order inN outN (16 * c + k))

theorem rgbToBgr_orders : Orders rgbToBgrVectors swapped 3 3 where
  natural := by
    intro α β g z v
    funext c
    unfold rgbToBgrVectors
    split
    · exact vqtbl2q_map g z _ _ _
    · exact vqtbl3q_map g z v _
    · exact vqtbl2q_map g z _ _ _
  label := by decide +kernel

theorem rgbaToBgra_orders : Orders rgbaToBgraVectors swapped 4 4 where
  natural := fun _ _ g z v => funext fun _ => vqtbl1q_map g z _ _
  label := by decide +kernel

theorem grayToRgb_orders : Orders grayToRgbVectors gray 1 3 where
  natural := fun _ _ g z v => funext fun _ => vqtbl1q_map g z _ _
  label := by decide +kernel

theorem grayToRgba_orders : Orders grayToRgbaVectors (withAlpha gray) 1 4 where
  natural := fun _ _ g z v => funext fun _ => vqtbl2q_map g z _ _ _
  label := by decide +kernel

/-! ### Paths -/

/-- The vectors of a block, and a vector of 0xff after them. -/
def loaded (inN : ℕ) (m : Mem) (src : ℕ) : ℕ → U8x16 := fun c =>
  if c < inN then vld1qU8 m (src + c * 16) else fun _ => 0xff

/-- A block whose vectors are loaded, put in order by a table, and stored. -/
def tablePath (vectors : VectorMap) (inN outN src dst : ℕ) (m : Mem) : Mem :=
  storeVectors outN (vectors U8 0 (loaded inN m src)) dst m

/-- A block whose channels are loaded into vectors of their own and stored from vectors of
their own. -/
def interleavingPath (order : ChannelOrder) (inN outN src dst : ℕ) (m : Mem) : Mem :=
  let srcVect := vldNq inN 1 m src
  vstNq outN 1 m dst fun c =>
    match order c with
    | some j => srcVect j
    | none => fun _ => 0xff

/-- `scalar_path` of the conversions that exchange red and blue. -/
def swapScalar (src dst : ℕ) (m : Mem) : Mem :=
  let tmp := m src
  let m := Function.update m dst (m (src + 2))
  let m := Function.update m (dst + 1) (m (src + 1))
  Function.update m (dst + 2) tmp

/-- `memcpy` of three channels. -/
def copyScalar (src dst : ℕ) (m : Mem) : Mem := overwrite m dst 3 fun j => m (src + j)

/-- `dst[0] = dst[1] = dst[2] = src[0]`. -/
def grayScalar (src dst : ℕ) (m : Mem) : Mem :=
  let value := m src
  Function.update (Function.update (Function.update m (dst + 2) value) (dst + 1) value) dst value

/-- An alpha channel after the others. -/
def alphaScalar (scalar : ℕ → ℕ → Mem → Mem) (src dst : ℕ) (m : Mem) : Mem :=
  Function.update (scalar src dst m) (dst + 3) 0xff

/-- The fourth channel after the others. -/
def fourthScalar (scalar : ℕ → ℕ → Mem → Mem) (src dst : ℕ) (m : Mem) : Mem :=
  let m := scalar src dst m
  Function.update m (dst + 3) (m (src + 3))

/-- A conversion from `inN` to `outN` channels. -/
def operation (isUnrolledTwice : Bool) (inN outN : ℕ) (vectorPath scalarPath : ℕ → ℕ → Mem → Mem) :
    PlaneOperation where
  numLanes := 16
  isUnrolledTwice := isUnrolledTwice
  vectorPath2x := fun src dst m =>
    vectorPath (src 0 + 16 * inN) (dst 0 + 16 * outN) (vectorPath (src 0) (dst 0) m)
  vectorPath := fun src dst => vectorPath (src 0) (dst 0)
  scalarPath := fun src dst => scalarPath (src 0) (dst 0)

/-! ### What the paths copy -/

/-- One image of `n` bytes in a pixel. -/
def pixelFormat (n : ℕ) : PixelFormat := ⟨1, fun _ => n⟩

/-- Byte `i` of a converted pixel. -/
def orderMap (order : ChannelOrder) : PixelMap U8 := fun _ i =>
  match order i with
  | some j => .byte 0 j
  | none => .constant 0xff

/-- Every channel is filled with one that there is. -/
def OrderWithin (order : ChannelOrder) (inN outN : ℕ) : Prop :=
  ∀ i < outN, ∀ j, order i = some j → j < inN

section

variable {order : ChannelOrder} {inN outN : ℕ} {inPlace : Prop}

theorem orderMap_between (horder : OrderWithin order inN outN) :
    (orderMap order).Between (pixelFormat inN) (pixelFormat outN) := by
  intro p _ i hi q j hfrom
  unfold orderMap at hfrom
  cases hchannel : order i with
  | some j' =>
    rw [hchannel] at hfrom
    obtain ⟨rfl, rfl⟩ : 0 = q ∧ j' = j := by simpa only [PixelByte.byte.injEq] using hfrom
    exact ⟨Nat.one_pos, horder i hi j' hchannel⟩
  | none =>
    rw [hchannel] at hfrom
    cases hfrom

/-- Byte `t` of the pixels that are made of those at `src`. -/
def orderedByte (order : ChannelOrder) (inN outN : ℕ) (m : Mem) (src t : ℕ) : U8 :=
  (orderMap order).value (fun _ j => m (src + t / outN * inN + j)) 0 (t % outN)

/-- `n` pixels, stored as one range of bytes. -/
theorem pixels_copies (hout : 0 < outN) {n : ℕ} {src dst : ℕ → ℕ}
    (hapart : PixelsApart inPlace (pixelFormat inN) (pixelFormat outN)
      (pixelsFrom (pixelFormat inN).pixel src) (pixelsFrom (pixelFormat outN).pixel dst) n)
    (m : Mem) : Copies (orderMap order) (pixelFormat outN)
      (pixelsFrom (pixelFormat inN).pixel src) (pixelsFrom (pixelFormat outN).pixel dst) 0 n m
      (overwrite m (dst 0) (n * outN) (orderedByte order inN outN m (src 0))) := by
  refine copies_of_range hout hapart m fun t _ => ?_
  unfold orderedByte PixelMap.value orderMap
  cases order (t % outN) <;> rfl

/-- A block that a table puts in order. -/
theorem tablePath_eq {vectors : VectorMap} (h : Orders vectors order inN outN) (hout : 0 < outN)
    (horder : OrderWithin order inN outN) (src dst : ℕ) (m : Mem) :
    tablePath vectors inN outN src dst m =
      overwrite m dst (16 * outN) (orderedByte order inN outN m src) := by
  rw [tablePath, storeVectors_eq, Nat.mul_comm 16]
  refine overwrite_congr fun t ht => ?_
  have hvector : t / 16 < outN := Nat.div_lt_of_lt_mul (by omega)
  have hpixel : t / outN < 16 := Nat.div_lt_of_lt_mul ht
  have hbyte : 16 * (t / 16) + (Fin.ofNat 16 t).val = t := Nat.div_add_mod t 16
  have hlabel := h.label (t / 16) hvector (Fin.ofNat 16 t)
  rw [hbyte] at hlabel
  rw [h.natural.eq_of_label hlabel U8 0]
  unfold orderedByte PixelMap.value orderMap
  cases hchannel : order (t % outN) with
  | some j =>
    have hj := horder _ (Nat.mod_lt t hout) j hchannel
    have hle := Nat.mul_le_mul_right inN (Nat.succ_le_of_lt hpixel)
    rw [Nat.succ_mul] at hle
    have hsource : (t / outN * inN + j) / 16 < inN := Nat.div_lt_of_lt_mul (by omega)
    simp only [loaded, if_pos hsource, vld1qU8, Fin.val_ofNat]
    rw [Nat.add_assoc, Nat.mul_comm _ 16, Nat.div_add_mod, Nat.add_assoc]
  | none => simp only [loaded, lt_irrefl, if_false]

/-- A block whose channels have vectors of their own. -/
theorem interleavingPath_eq (src dst : ℕ) (m : Mem) :
    interleavingPath order inN outN src dst m =
      overwrite m dst (16 * outN) (orderedByte order inN outN m src) := by
  rw [interleavingPath, vstNq, Nat.mul_comm 16]
  refine overwrite_congr fun t ht => ?_
  have hpixel : t / outN < 16 := Nat.div_lt_of_lt_mul ht
  unfold orderedByte PixelMap.value orderMap
  simp only [mergedFrom, Nat.div_one, Nat.mod_one, Nat.mul_one, Nat.add_zero]
  cases hchannel : order (t % outN) with
  | some j =>
    simp only [vldNq, splitFrom, Nat.div_one, Nat.mod_one, Nat.mul_one, Nat.add_zero,
      Fin.val_ofNat, Nat.mod_eq_of_lt hpixel, Nat.add_assoc]
  | none => rfl

/-- A pixel that shares bytes with its source only where they are in its place. -/
def PixelApart (inN outN src dst : ℕ) : Prop :=
  ∀ j < inN, ∀ i < outN, src + j = dst + i → j = i

theorem operation_performs {isUnrolledTwice : Bool} {vectorPath scalarPath : ℕ → ℕ → Mem → Mem}
    (hout : 0 < outN) (horder : OrderWithin order inN outN)
    (hvector : ∀ src dst m, vectorPath src dst m =
      overwrite m dst (16 * outN) (orderedByte order inN outN m src))
    (hscalar : ∀ src dst m, PixelApart inN outN src dst → scalarPath src dst m =
      overwrite m dst outN (orderedByte order inN outN m src)) :
    (operation isUnrolledTwice inN outN vectorPath scalarPath).Performs True (orderMap order)
      (pixelFormat inN) (pixelFormat outN) := by
  have hblock : ∀ src dst m, PixelsApart True (pixelFormat inN) (pixelFormat outN)
      (pixelsFrom (pixelFormat inN).pixel src) (pixelsFrom (pixelFormat outN).pixel dst) 16 →
      Copies (orderMap order) (pixelFormat outN) (pixelsFrom (pixelFormat inN).pixel src)
        (pixelsFrom (pixelFormat outN).pixel dst) 0 16 m (vectorPath (src 0) (dst 0) m) := by
    intro src dst m hapart
    rw [hvector]
    exact pixels_copies hout hapart m
  refine ⟨orderMap_between horder, Nat.succ_pos 15, ?_, hblock, ?_⟩
  · intro src dst m hapart
    exact copies_twice (orderMap_between horder) hblock hapart m
  · intro src dst m hapart
    have hpixel : PixelApart inN outN (src 0) (dst 0) := by
      intro j hj i hi heq
      have hsame := (hapart.apart (0, 0, j) ⟨Nat.one_pos, ⟨le_rfl, Nat.one_pos⟩, hj⟩ (0, 0, i)
        ⟨Nat.one_pos, ⟨le_rfl, Nat.one_pos⟩, hi⟩ (by
          simpa only [byteAt, pixelsFrom, Nat.zero_mul, Nat.add_zero] using heq)).2
      exact congrArg Prod.snd hsame
    show Copies _ _ _ _ _ _ _ (scalarPath (src 0) (dst 0) m)
    rw [hscalar _ _ m hpixel]
    have hcopies : Copies (orderMap order) (pixelFormat outN)
        (pixelsFrom (pixelFormat inN).pixel src) (pixelsFrom (pixelFormat outN).pixel dst) 0 1 m
        (overwrite m (dst 0) (1 * outN) (orderedByte order inN outN m (src 0))) :=
      pixels_copies hout hapart m
    rwa [Nat.one_mul] at hcopies

end

section

variable {src dst : ℕ} {order : ChannelOrder} {inN outN : ℕ}

/-- The bytes of one pixel. -/
theorem orderedByte_pixel {t : ℕ} (ht : t < outN) (m : Mem) :
    orderedByte order inN outN m src t = (order t).elim 0xff fun j => m (src + j) := by
  unfold orderedByte PixelMap.value orderMap
  rw [Nat.div_eq_of_lt ht, Nat.mod_eq_of_lt ht, Nat.zero_mul, Nat.add_zero]
  cases order t <;> rfl

theorem swapScalar_eq (m : Mem) (hapart : src + 1 ≠ dst) :
    swapScalar src dst m =
      overwrite m dst 3 fun t => m (src + if t = 0 then 2 else if t = 2 then 0 else t) := by
  funext a
  simp only [swapScalar, Function.update_apply, if_neg hapart, overwrite]
  grind

theorem grayScalar_eq (m : Mem) : grayScalar src dst m = overwrite m dst 3 fun _ => m src := by
  funext a
  simp only [grayScalar, Function.update_apply, overwrite]
  grind

/-- Three channels, and an alpha channel. -/
theorem alphaScalar_eq {scalar : ℕ → ℕ → Mem → Mem} {m : Mem}
    (h : scalar src dst m = overwrite m dst 3 (orderedByte order inN 3 m src)) :
    alphaScalar scalar src dst m =
      overwrite m dst 4 (orderedByte (withAlpha order) inN 4 m src) := by
  rw [alphaScalar, h, update_overwrite]
  refine overwrite_congr fun t ht => ?_
  rw [orderedByte_pixel ht, withAlpha]
  split
  · rename_i hcolour
    rw [if_neg (Nat.ne_of_lt hcolour), orderedByte_pixel hcolour]
  · rw [if_pos (by omega)]
    rfl

theorem swapScalar_three (m : Mem) (hin : 3 ≤ inN) (hout : 3 ≤ outN)
    (hapart : PixelApart inN outN src dst) :
    swapScalar src dst m = overwrite m dst 3 (orderedByte swapped inN 3 m src) := by
  have hne : src + 1 ≠ dst := fun heq => by
    have hsame := hapart 1 (by omega) 0 (by omega) heq
    omega
  rw [swapScalar_eq m hne]
  refine overwrite_congr fun t ht => ?_
  rw [orderedByte_pixel ht]
  rfl

theorem swapScalar_four (m : Mem) (hapart : PixelApart 4 4 src dst) :
    fourthScalar swapScalar src dst m = overwrite m dst 4 (orderedByte swapped 4 4 m src) := by
  rw [fourthScalar, swapScalar_three m (by omega) (by omega) hapart, update_overwrite]
  refine overwrite_congr fun t ht => ?_
  rw [orderedByte_pixel ht]
  split
  · rename_i hcolour
    rw [orderedByte_pixel hcolour]
  · obtain rfl : t = 3 := by omega
    refine overwrite_of_not_mem fun hmem => ?_
    obtain ⟨i, hi⟩ := Nat.exists_eq_add_of_le hmem.1
    have hsame := hapart 3 (by omega) i (by omega) hi
    omega

theorem copyScalar_eq (m : Mem) :
    copyScalar src dst m = overwrite m dst 3 (orderedByte kept inN 3 m src) := by
  refine overwrite_congr fun t ht => ?_
  rw [orderedByte_pixel ht]
  rfl

theorem grayScalar_three (m : Mem) :
    grayScalar src dst m = overwrite m dst 3 (orderedByte gray 1 3 m src) := by
  rw [grayScalar_eq]
  refine overwrite_congr fun t ht => ?_
  rw [orderedByte_pixel ht]
  rfl

end

/-! ### Conversions -/

section

variable (interleaving : Bool)

/-- `RGBToBGR`, whose `process_row` is that of an operation unrolled once. -/
def rgbToBgr : PlaneOperation := operation false 3 3
  (if interleaving then interleavingPath swapped 3 3 else tablePath rgbToBgrVectors 3 3) swapScalar

/-- `RGBAToBGRA`. -/
def rgbaToBgra : PlaneOperation := operation false 4 4
  (if interleaving then interleavingPath swapped 4 4 else tablePath rgbaToBgraVectors 4 4)
  (fourthScalar swapScalar)

/-- `RGBToBGRA`. -/
def rgbToBgra : PlaneOperation :=
  operation true 3 4 (interleavingPath (withAlpha swapped) 3 4) (alphaScalar swapScalar)

/-- `RGBToRGBA`. -/
def rgbToRgba : PlaneOperation :=
  operation true 3 4 (interleavingPath (withAlpha kept) 3 4) (alphaScalar copyScalar)

/-- `RGBAToBGR`. -/
def rgbaToBgr : PlaneOperation := operation true 4 3 (interleavingPath swapped 4 3) swapScalar

/-- `RGBAToRGB`. -/
def rgbaToRgb : PlaneOperation := operation true 4 3 (interleavingPath kept 4 3) copyScalar

/-- `GrayToRGB`. -/
def grayToRgb : PlaneOperation := operation false 1 3
  (if interleaving then interleavingPath gray 1 3 else tablePath grayToRgbVectors 1 3) grayScalar

/-- `GrayToRGBA`, whose `process_row` is that of an operation unrolled once. -/
def grayToRgba : PlaneOperation := operation false 1 4
  (if interleaving then interleavingPath (withAlpha gray) 1 4
    else tablePath grayToRgbaVectors 1 4) (alphaScalar grayScalar)

end

end ColourOrder

/-- The conversions. -/
inductive ColourConversion
  | rgbToBgr | rgbaToBgra | rgbToBgra | rgbToRgba | rgbaToBgr | rgbaToRgb | grayToRgb | grayToRgba

namespace ColourConversion

open ColourOrder

/-- The channels of the source. -/
def inN : ColourConversion → ℕ
  | rgbToBgr | rgbToBgra | rgbToRgba => 3
  | rgbaToBgra | rgbaToBgr | rgbaToRgb => 4
  | grayToRgb | grayToRgba => 1

/-- The channels of the result. -/
def outN : ColourConversion → ℕ
  | rgbToBgr | rgbaToBgr | rgbaToRgb | grayToRgb => 3
  | rgbaToBgra | rgbToBgra | rgbToRgba | grayToRgba => 4

def operation (interleaving : Bool) : ColourConversion → PlaneOperation
  | rgbToBgr => ColourOrder.rgbToBgr interleaving
  | rgbaToBgra => ColourOrder.rgbaToBgra interleaving
  | rgbToBgra => ColourOrder.rgbToBgra
  | rgbToRgba => ColourOrder.rgbToRgba
  | rgbaToBgr => ColourOrder.rgbaToBgr
  | rgbaToRgb => ColourOrder.rgbaToRgb
  | grayToRgb => ColourOrder.grayToRgb interleaving
  | grayToRgba => ColourOrder.grayToRgba interleaving

/-- What a conversion is meant to fill the channels with. -/
def order : ColourConversion → ChannelOrder
  | rgbToBgr | rgbaToBgra | rgbaToBgr => swapped
  | rgbToBgra => withAlpha swapped
  | rgbToRgba => withAlpha kept
  | rgbaToRgb => kept
  | grayToRgb => gray
  | grayToRgba => withAlpha gray

theorem outN_pos (conversion : ColourConversion) : 0 < conversion.outN := by
  cases conversion <;> decide

theorem order_within (conversion : ColourConversion) :
    OrderWithin conversion.order conversion.inN conversion.outN := by
  unfold OrderWithin
  cases conversion <;> decide +kernel

/-- **What a conversion copies**, in either build, also in place. -/
theorem performs (conversion : ColourConversion) (interleaving : Bool) :
    (conversion.operation interleaving).Performs True (orderMap conversion.order)
      (pixelFormat conversion.inN) (pixelFormat conversion.outN) := by
  have hout := conversion.outN_pos
  have hwithin := conversion.order_within
  have hpath : ∀ {vectors : VectorMap},
      Orders vectors conversion.order conversion.inN conversion.outN → ∀ src dst m,
      (if interleaving then interleavingPath conversion.order conversion.inN conversion.outN
        else tablePath vectors conversion.inN conversion.outN) src dst m =
          overwrite m dst (16 * conversion.outN)
            (orderedByte conversion.order conversion.inN conversion.outN m src) := by
    intro vectors horders src dst m
    cases interleaving with
    | true => exact interleavingPath_eq src dst m
    | false => exact tablePath_eq horders hout hwithin src dst m
  cases conversion with
  | rgbToBgr =>
    exact operation_performs hout hwithin (hpath rgbToBgr_orders) fun _ _ m h =>
      swapScalar_three m (by decide) (by decide) h
  | rgbaToBgra =>
    exact operation_performs hout hwithin (hpath rgbaToBgra_orders) fun _ _ m h =>
      swapScalar_four m h
  | rgbToBgra =>
    exact operation_performs hout hwithin interleavingPath_eq fun _ _ m h =>
      alphaScalar_eq (swapScalar_three m (by decide) (by decide) h)
  | rgbToRgba =>
    exact operation_performs hout hwithin interleavingPath_eq fun _ _ m _ =>
      alphaScalar_eq (copyScalar_eq m)
  | rgbaToBgr =>
    exact operation_performs hout hwithin interleavingPath_eq fun _ _ m h =>
      swapScalar_three m (by decide) (by decide) h
  | rgbaToRgb =>
    exact operation_performs hout hwithin interleavingPath_eq fun _ _ m _ => copyScalar_eq m
  | grayToRgb =>
    exact operation_performs hout hwithin (hpath grayToRgb_orders) fun _ _ m _ =>
      grayScalar_three m
  | grayToRgba =>
    exact operation_performs hout hwithin (hpath grayToRgba_orders) fun _ _ m _ =>
      alphaScalar_eq (grayScalar_three m)

end ColourConversion

/-! ### Calls one after another -/

/-- `kleidicv_rgb_to_bgr_u8` and its siblings. -/
def convertColours (op : PlaneOperation) (inN outN src srcStride dst dstStride width height : ℕ)
    (m : Mem) : KleidicvError × Mem :=
  let error := checkPointerAndStride 1 src srcStride height
  if error ≠ .ok then (error, m)
  else
    let error := checkPointerAndStride 1 dst dstStride height
    if error ≠ .ok then (error, m)
    else if !checkImageSize width height then (.range, m)
    else (.ok, op.applyOperationByRows
      ⟨1, fun _ => ⟨src, srcStride, inN⟩, 1, fun _ => ⟨dst, dstStride, outN⟩⟩ width height m)

/-- A call that succeeds has passed its checks. -/
theorem convertColours_of_ok {op : PlaneOperation}
    {inN outN src srcStride dst dstStride width height : ℕ} {m : Mem}
    (hok : (convertColours op inN outN src srcStride dst dstStride width height m).1 = .ok) :
    width * height < sizeMod ∧
      (convertColours op inN outN src srcStride dst dstStride width height m).2 =
        op.applyOperationByRows
          ⟨1, fun _ => ⟨src, srcStride, inN⟩, 1, fun _ => ⟨dst, dstStride, outN⟩⟩
          width height m := by
  rw [convertColours] at hok ⊢
  dsimp only at hok ⊢
  split_ifs at hok ⊢ with hsrc hdst hsize
  · exact absurd hok hsrc
  · exact absurd hok hdst
  · have himage := checkImageSize_iff.mp (by simpa using hsize)
    exact ⟨himage.trans_lt (by decide), rfl⟩

/-- The planes of an image. -/
structure ImagePlanes where
  base : ℕ → ℕ
  stride : ℕ → ℕ

/-- A call that makes an image of another; in a merge and a split, elements have `sz` bytes. -/
inductive ConversionCall
  | convert (conversion : ColourConversion) (src dst : ImagePlanes)
  | merge (channels sz : ℕ) (src dst : ImagePlanes)
  | split (channels sz : ℕ) (src dst : ImagePlanes)

namespace ConversionCall

variable (width height : ℕ)

/-- The planes and the image of a merge or a split. -/
def planar (channels sz : ℕ) (planes packed : ImagePlanes) : PlanarCall :=
  ⟨planes.base, planes.stride, packed.base 0, packed.stride 0, width, height, channels, sz⟩

def run (interleaving : Bool) : ConversionCall → Mem → KleidicvError × Mem
  | convert conversion src dst => convertColours (conversion.operation interleaving) conversion.inN
      conversion.outN (src.base 0) (src.stride 0) (dst.base 0) (dst.stride 0) width height
  | merge channels sz src dst => (planar width height channels sz src dst).merge interleaving
  | split channels sz src dst => (planar width height channels sz dst src).split interleaving

/-- The images of a call. -/
def rows : ConversionCall → PlaneRows
  | convert conversion src dst =>
    ⟨1, fun _ => ⟨src.base 0, src.stride 0, conversion.inN⟩, 1,
      fun _ => ⟨dst.base 0, dst.stride 0, conversion.outN⟩⟩
  | merge channels sz src dst => (planar 0 0 channels sz src dst).rows
  | split channels sz src dst => (planar 0 0 channels sz dst src).rows.swap

/-- What a call is meant to make of each pixel. -/
def map : ConversionCall → PixelMap U8
  | convert conversion _ _ => ColourOrder.orderMap conversion.order
  | merge _ sz _ _ => Interleave.mergeMap sz
  | split _ sz _ _ => Interleave.splitMap sz

/-- The calls that may work in place. -/
def InPlace : ConversionCall → Prop
  | convert _ _ _ => True
  | merge _ _ _ _ | split _ _ _ _ => False

end ConversionCall

/-- Calls one after another, until one returns an error. -/
def runConversions (interleaving : Bool) (width height : ℕ) : List ConversionCall → Mem →
    KleidicvError × Mem
  | [], m => (.ok, m)
  | call :: calls, m =>
    let (error, m) := call.run width height interleaving m
    if error ≠ .ok then (error, m) else runConversions interleaving width height calls m

/-- An image in planes. -/
structure PlaneImage where
  planes : ℕ
  rows : ℕ → PixelRows

namespace PlaneImage

def format (image : PlaneImage) : PixelFormat := ⟨image.planes, fun p => (image.rows p).pixel⟩

/-- The bytes of the pixel in row `y` and column `x`. -/
def pixel (image : PlaneImage) (m : Mem) (y x : ℕ) : ℕ → ℕ → U8 := fun p i =>
  m ((image.rows p).byteAt (y, x, i))

/-- The image that a call leaves. -/
def of (call : ConversionCall) : PlaneImage := ⟨call.rows.dsts, call.rows.dst⟩

end PlaneImage

/-- The image that calls leave. -/
def lastImage (image : PlaneImage) : List ConversionCall → PlaneImage
  | [] => image
  | call :: calls => lastImage (.of call) calls

/-- What calls are meant to make of each pixel. -/
def composedMap : List ConversionCall → PixelMap U8
  | [] => .identity
  | call :: calls => call.map.andThen (composedMap calls)

/-- Every call reads the image where the one before it left it. -/
def Linked (width height : ℕ) (image : PlaneImage) : List ConversionCall → Prop
  | [] => True
  | call :: calls => call.rows.srcs = image.planes ∧
      (∀ p < image.planes, call.rows.src p = image.rows p) ∧
      call.rows.Placed call.InPlace width height ∧ Linked width height (.of call) calls

section

variable {width height : ℕ} {interleaving : Bool} {image : PlaneImage} {m : Mem}

/-- A call that succeeds maps every pixel. -/
theorem ConversionCall.run_mapped (call : ConversionCall)
    (hok : (call.run width height interleaving m).1 = .ok)
    (hplaced : call.rows.Placed call.InPlace width height) :
    call.map.Between call.rows.srcFormat call.rows.dstFormat ∧
      call.rows.Mapped call.map width height m (call.run width height interleaving m).2 := by
  cases call with
  | convert conversion src dst =>
    have hperforms := conversion.performs interleaving
    refine ⟨hperforms.between, ?_⟩
    rw [ConversionCall.run] at hok ⊢
    obtain ⟨hsize, hresult⟩ := convertColours_of_ok hok
    rw [hresult]
    exact hperforms.mapped hsize hplaced m
  | merge channels sz src dst =>
    rcases PlanarCall.merge_cases (c := planar width height channels sz src dst) interleaving m with
      ⟨haccepted, -⟩ | ⟨-, herror, -⟩
    · exact ⟨Interleave.mergeMap_between haccepted.size.pos,
        (haccepted.merge interleaving m hplaced).2⟩
    · exact absurd hok herror
  | split channels sz src dst =>
    rcases PlanarCall.split_cases (c := planar width height channels sz dst src) interleaving m with
      ⟨haccepted, -⟩ | ⟨-, herror, -⟩
    · exact ⟨Interleave.splitMap_between, (haccepted.split interleaving m hplaced).2⟩
    · exact absurd hok herror

theorem runConversions_cons {call : ConversionCall} (calls : List ConversionCall)
    (hcall : (call.run width height interleaving m).1 = .ok) :
    runConversions interleaving width height (call :: calls) m =
      runConversions interleaving width height calls (call.run width height interleaving m).2 := by
  rw [runConversions]
  simp only [if_neg (not_not.mpr hcall)]

theorem runConversions_head {call : ConversionCall} {calls : List ConversionCall}
    (hok : (runConversions interleaving width height (call :: calls) m).1 = .ok) :
    (call.run width height interleaving m).1 = .ok := by
  by_contra hne
  rw [runConversions] at hok
  simp only [if_pos hne] at hok
  exact hne hok

/-- **Conversions, merges and splits one after another**, each reading the image where the one
before it left it, out of place or, for a conversion, in place: if all succeed, the last image
holds in every pixel what the maps of the calls, composed, make of the first image, every byte
of it comes from a byte that the first image has or is a constant, and no byte outside the
images that the calls leave is written. -/
theorem runConversions_composed {calls : List ConversionCall}
    (hlinked : Linked width height image calls)
    (hok : (runConversions interleaving width height calls m).1 = .ok) :
    (composedMap calls).Between image.format (lastImage image calls).format ∧
    (∀ y < height, ∀ x < width, ∀ p < (lastImage image calls).planes,
      ∀ i < ((lastImage image calls).rows p).pixel,
        (lastImage image calls).pixel (runConversions interleaving width height calls m).2 y x p i =
          (composedMap calls).value (image.pixel m y x) p i) ∧
    ∀ a, (∀ call ∈ calls, ∀ p < call.rows.dsts, a ∉ (call.rows.dst p).bytes width height) →
      (runConversions interleaving width height calls m).2 a = m a := by
  induction calls generalizing image m with
  | nil =>
    refine ⟨?_, fun _ _ _ _ _ _ _ _ => rfl, fun _ _ => rfl⟩
    intro p hp i hi q j hfrom
    obtain ⟨rfl, rfl⟩ : p = q ∧ i = j := by
      simpa only [composedMap, PixelMap.identity, PixelByte.byte.injEq] using hfrom
    exact ⟨hp, hi⟩
  | cons call calls ih =>
    obtain ⟨hplanes, hrows, hplaced, hlinked⟩ := hlinked
    have hcall := runConversions_head hok
    rw [runConversions_cons calls hcall] at hok ⊢
    obtain ⟨hbetween, hmapped⟩ := call.run_mapped hcall hplaced
    obtain ⟨hcomposed, hpixels, hframe⟩ := ih hlinked hok
    have hfirst : call.map.Between image.format (PlaneImage.of call).format := by
      intro p hp i hi q j hfrom
      obtain ⟨hq, hj⟩ := hbetween p hp i hi q j hfrom
      have hq' : q < image.planes := hplanes ▸ hq
      refine ⟨hq', ?_⟩
      show j < (image.rows q).pixel
      rw [← hrows q hq']
      exact hj
    refine ⟨hfirst.andThen hcomposed, fun y hy x hx p hp i hi => ?_, fun a ha => ?_⟩
    · calc _ = (composedMap calls).value ((PlaneImage.of call).pixel
              (call.run width height interleaving m).2 y x) p i := hpixels y hy x hx p hp i hi
        _ = (composedMap calls).value (call.map.value (image.pixel m y x)) p i := by
          refine PixelMap.value_congr hcomposed hp hi fun q hq j hj => ?_
          refine (hmapped.pixel q hq y hy x hx j hj).trans ?_
          refine PixelMap.value_congr hfirst hq hj fun q' hq' j' _ => ?_
          show m _ = m _
          rw [hrows q' hq']
        _ = (composedMap (call :: calls)).value (image.pixel m y x) p i :=
          (PixelMap.value_andThen call.map (composedMap calls) _ p i).symm
    · calc _ = (call.run width height interleaving m).2 a :=
            hframe a fun next hnext => ha next (List.mem_cons_of_mem call hnext)
        _ = m a := hmapped.frame a (ha call List.mem_cons_self)

end

/-- Two rows of seventeen pixels of three bytes. -/
def seventeenColumns (base : ℕ) : PlaneImage := ⟨1, fun _ => ⟨base, 64, 3⟩⟩

/-- Blue first and an alpha channel; the colours exchanged in place; alpha dropped. -/
def thereAndBackCalls : List ConversionCall :=
  let image := fun base => ImagePlanes.mk (fun _ => base) fun _ => 128
  let rgb := fun base => ImagePlanes.mk (fun _ => base) fun _ => 64
  [.convert .rgbToBgra (rgb 1000) (image 2000), .convert .rgbaToBgra (image 2000) (image 2000),
    .convert .rgbaToRgb (image 2000) (rgb 3000)]

theorem runConversions_composed_thereAndBack :
    let m : Mem := fun a => Fin.ofNat 256 a
    ∀ y < 2, ∀ x < 17, ∀ i < 3, (seventeenColumns 3000).pixel
      (runConversions false 17 2 thereAndBackCalls m).2 y x 0 i =
        (seventeenColumns 1000).pixel m y x 0 i := by
  intro m y hy x hx i hi
  have hbytes : ∀ {rows : PixelRows} {a : ℕ}, a ∈ rows.bytes 17 2 → rows.stride ≤ 128 →
      rows.pixel ≤ 4 → rows.base ≤ a ∧ a < rows.base + 256 := by
    rintro rows a ⟨r, hr, j, hj, rfl⟩ hstride hpixel
    have hrow := Nat.mul_le_mul (Nat.le_of_lt_succ hr) hstride
    have hcolumn := Nat.mul_le_mul_left 17 hpixel
    omega
  have hapart : ∀ {rows rows' : PixelRows}, rows.stride ≤ 128 → rows.pixel ≤ 4 →
      rows'.stride ≤ 128 → rows'.pixel ≤ 4 →
      rows.base + 256 ≤ rows'.base → Disjoint (rows.bytes 17 2) (rows'.bytes 17 2) := by
    intro rows rows' h1 h2 h3 h4 hbase
    refine Set.disjoint_left.mpr fun a ha ha' => ?_
    have hlow := hbytes ha h1 h2
    have hhigh := hbytes ha' h3 h4
    omega
  have hone : ∀ {rows : ℕ → PixelRows}, ∀ p < 1, ∀ p' < 1, p ≠ p' →
      Disjoint ((rows p).bytes 17 2) ((rows p').bytes 17 2) := by
    intro rows p hp p' hp' hne
    omega
  have hlinked : Linked 17 2 (seventeenColumns 1000) thereAndBackCalls := by
    refine ⟨rfl, fun _ _ => rfl, ⟨fun _ _ => .inl (by decide : 17 * 4 ≤ 128), hone, ?_⟩,
      rfl, fun _ _ => rfl, ⟨fun _ _ => .inl (by decide : 17 * 4 ≤ 128), hone, ?_⟩,
      rfl, fun _ _ => rfl, ⟨fun _ _ => .inl (by decide : 17 * 3 ≤ 64), hone, ?_⟩, trivial⟩
    · exact fun _ _ _ _ => .inl (hapart (by decide : 64 ≤ 128) (by decide : 3 ≤ 4)
        (by decide : 128 ≤ 128) (by decide : 4 ≤ 4) (by decide : 1000 + 256 ≤ 2000))
    · exact fun _ _ _ _ => .inr ⟨trivial, rfl⟩
    · exact fun _ _ _ _ => .inl (hapart (by decide : 128 ≤ 128) (by decide : 4 ≤ 4)
        (by decide : 64 ≤ 128) (by decide : 3 ≤ 4) (by decide : 2000 + 256 ≤ 3000))
  have hok : (runConversions false 17 2 thereAndBackCalls m).1 = .ok := by
    rw [thereAndBackCalls, runConversions_cons _ rfl, runConversions_cons _ rfl,
      runConversions_cons _ rfl]
    rfl
  have hpixel := (runConversions_composed hlinked hok).2.1 y hy x hx 0 Nat.one_pos i hi
  refine hpixel.trans ?_
  match i, hi with
  | 0, _ => rfl
  | 1, _ => rfl
  | 2, _ => rfl

end KleidiCV
