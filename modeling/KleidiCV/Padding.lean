/-
`kleidicv_add_padding_by_copy`: an image copied into a larger one, with the borders around it
filled.

The rows of a stripe above, beside and below the image are written by different loops, and the
borders beside it by different helpers, which depend on the border type and on how wide they are.
The row pointers, which the source advances with `dst_y`, are computed from it.

* `AddPaddingByCopyParameters.sourcePixel` — where the pixels of the result come from;
* `reflectIndex_eq`, `reverseIndex_eq`, `wrapIndex_eq` — the index maps are the extensions;
* `processStripe_stored` — a stripe, whatever the strategy;
* `addPaddingByCopy_correct` — an accepted call, and every cut of its rows into stripes.
-/
import KleidiCV.BorderTypes
import KleidiCV.Lib.PixelCopies
import KleidiCV.ScalablePaddingHelpers

open Loop

namespace KleidiCV

namespace Padding

/-- The helpers of a backend; those that depend on the template parameter `PixelSize` get it
first. -/
structure Backend where
  copyContiguousBytes : ByteCopier
  fillRepeatedPixel : ℕ → ℕ → ℕ → ℕ → ℕ → Tallied U8 → Tallied U8
  copyReversedPixels : ℕ → ℕ → ℕ → ℕ → ℕ → Tallied U8 → Tallied U8

/-- The helpers do what they have to. -/
structure Backend.Correct (backend : Backend) : Prop where
  copies : backend.copyContiguousBytes.Copies
  fills : ∀ {PixelSize pixelSize : ℕ}, 0 < pixelSize → PixelSize = 0 ∨ PixelSize = pixelSize →
    Fills pixelSize (backend.fillRepeatedPixel PixelSize pixelSize)
  reverses : ∀ {PixelSize pixelSize : ℕ}, 0 < pixelSize → PixelSize = 0 ∨ PixelSize = pixelSize →
    Reverses pixelSize (backend.copyReversedPixels PixelSize pixelSize)

/-- `kleidicv::neon`. -/
def Neon.backend : Backend := ⟨Neon.copyContiguousBytes, Neon.fillRepeatedPixel,
  Neon.copyReversedPixels⟩

/-- `kleidicv::sve2`, `kleidicv::sme` and `kleidicv::sme2`. -/
def scalableBackend (sme : Bool) (vl : VectorLength) : Backend :=
  ⟨Scalable.Padding.copyContiguousBytes sme vl, Scalable.Padding.fillRepeatedPixel sme vl,
    Scalable.Padding.copyReversedPixels sme vl⟩

theorem Neon.backend_correct : Neon.backend.Correct :=
  ⟨Neon.copyContiguousBytes_copies, Neon.fillRepeatedPixel_fills,
    Neon.copyReversedPixels_reverses⟩

theorem scalableBackend_correct (sme : Bool) (vl : VectorLength) :
    (scalableBackend sme vl).Correct :=
  ⟨Scalable.Padding.copyContiguousBytes_copies sme vl,
    Scalable.Padding.fillRepeatedPixel_fills sme vl,
    Scalable.Padding.copyReversedPixels_reverses sme vl⟩

/-! ### Parameters -/

/-- `AddPaddingByCopyParameters`. -/
structure AddPaddingByCopyParameters where
  src : ℕ
  dst : ℕ
  srcStride : ℕ
  dstStride : ℕ
  srcWidth : ℕ
  srcHeight : ℕ
  topPadding : ℕ
  bottomPadding : ℕ
  leftPadding : ℕ
  rightPadding : ℕ
  pixelSize : ℕ
  borderType : BorderType
  borderValue : ℕ

/-- `KLEIDICV_MAXIMUM_TYPE_SIZE`. -/
def kleidicvMaximumTypeSize : ℕ := 8

/-- `add_padding_by_copy_is_implemented`. -/
def addPaddingByCopyIsImplemented (srcWidth srcHeight pixelSize : ℕ) (borderType : BorderType) :
    Bool :=
  if pixelSize = 0 ∨ pixelSize > kleidicvMaximumTypeSize * kleidicvMaximumChannelCount then false
  else if borderType ≠ .constant ∧ borderType ≠ .replicate ∧ borderType ≠ .reflect ∧
      borderType ≠ .wrap ∧ borderType ≠ .reverse then false
  else if borderType ≠ .constant ∧ (srcWidth = 0 ∨ srcHeight = 0) then false
  else true

/-- The type whose alignment `add_padding_by_copy_check_pointer_and_stride` checks, in bytes. -/
def alignedSize (pixelSize : ℕ) : ℕ :=
  if pixelSize = 2 ∨ pixelSize = 3 * 2 then 2
  else if pixelSize = 4 ∨ pixelSize = 3 * 4 then 4
  else if pixelSize = 8 then 8
  else 1

/-- `add_padding_by_copy_check_pointer_and_stride`. -/
def addPaddingByCopyCheckPointerAndStride (pointer stride height pixelSize : ℕ) : KleidicvError :=
  if 1 < alignedSize pixelSize ∧ isMisaligned (alignedSize pixelSize) pointer then .alignment
  else checkPointerAndStride (alignedSize pixelSize) pointer stride height

/-- `add_padding_by_copy_checks`: the height of the result, or an error. -/
def addPaddingByCopyChecks (p : AddPaddingByCopyParameters) : Except KleidicvError ℕ :=
  if !checkImageSize p.srcWidth p.srcHeight then .error .range
  else if !addPaddingByCopyIsImplemented p.srcWidth p.srcHeight p.pixelSize p.borderType then
    .error .notImplemented
  else if addPaddingByCopyCheckPointerAndStride p.src p.srcStride p.srcHeight p.pixelSize ≠ .ok then
    .error (addPaddingByCopyCheckPointerAndStride p.src p.srcStride p.srcHeight p.pixelSize)
  else if p.borderType = .constant ∧ p.borderValue = 0 then .error .nullPointer
  else if p.srcWidth > kleidicvMaxImagePixels ∨ p.srcHeight > kleidicvMaxImagePixels ∨
      p.topPadding > kleidicvMaxImagePixels ∨ p.bottomPadding > kleidicvMaxImagePixels ∨
      p.leftPadding > kleidicvMaxImagePixels ∨ p.rightPadding > kleidicvMaxImagePixels then
    .error .range
  else if p.leftPadding + p.rightPadding > kleidicvMaxImagePixels ∨
      p.topPadding + p.bottomPadding > kleidicvMaxImagePixels then .error .range
  else if p.srcWidth > kleidicvMaxImagePixels - (p.leftPadding + p.rightPadding) ∨
      p.srcHeight > kleidicvMaxImagePixels - (p.topPadding + p.bottomPadding) then .error .range
  else if !checkImageSize (p.srcWidth + (p.leftPadding + p.rightPadding))
      (p.srcHeight + (p.topPadding + p.bottomPadding)) then .error .range
  else if addPaddingByCopyCheckPointerAndStride p.dst p.dstStride
      (p.srcHeight + (p.topPadding + p.bottomPadding)) p.pixelSize ≠ .ok then
    .error (addPaddingByCopyCheckPointerAndStride p.dst p.dstStride
      (p.srcHeight + (p.topPadding + p.bottomPadding)) p.pixelSize)
  else .ok (p.srcHeight + (p.topPadding + p.bottomPadding))

/-- `AddPaddingByCopyBorderStrategy`. -/
inductive AddPaddingByCopyBorderStrategy
  | constant
  | replicate
  | wrapFast
  | reflectFast
  | reverseFast
  | indexed
  deriving DecidableEq

/-- `resolve_border_strategy`. -/
def resolveBorderStrategy (srcWidth leftPadding rightPadding : ℕ) (borderType : BorderType) :
    AddPaddingByCopyBorderStrategy :=
  if borderType = .constant then .constant
  else if borderType = .replicate then .replicate
  else if borderType = .wrap ∧ (leftPadding ≤ srcWidth ∧ rightPadding ≤ srcWidth) then .wrapFast
  else if borderType = .reflect ∧
      (srcWidth > 1 ∧ leftPadding ≤ srcWidth ∧ rightPadding ≤ srcWidth) then .reflectFast
  else if borderType = .reverse ∧
      (srcWidth > 1 ∧ leftPadding < srcWidth ∧ rightPadding < srcWidth) then .reverseFast
  else .indexed

namespace AddPaddingByCopyParameters

variable (p : AddPaddingByCopyParameters)

def dstWidth : ℕ := p.srcWidth + p.leftPadding + p.rightPadding

def dstHeight : ℕ := p.srcHeight + p.topPadding + p.bottomPadding

def leftSize : ℕ := p.leftPadding * p.pixelSize

def innerSize : ℕ := p.srcWidth * p.pixelSize

def rightSize : ℕ := p.rightPadding * p.pixelSize

def innerOffset : ℕ := p.leftPadding * p.pixelSize

def rightOffset : ℕ := (p.leftPadding + p.srcWidth) * p.pixelSize

/-- The template parameter `PixelSize` that `allocate_pixel_size_operation` chooses. -/
def PixelSize : ℕ := if p.pixelSize ∈ [1, 2, 4, 8, 3 * 1, 3 * 2, 3 * 4] then p.pixelSize else 0

/-- `split_body_rows`. -/
def splitBodyRows (dstYBegin dstYEnd : ℕ) : ℕ × ℕ :=
  let bodyBegin := min (max dstYBegin p.topPadding) dstYEnd
  (bodyBegin, max bodyBegin (min dstYEnd (p.topPadding + p.srcHeight)))

end AddPaddingByCopyParameters

/-! ### Index maps -/

/-- `positive_remainder`. -/
def positiveRemainder (value period : ℤ) : ℤ :=
  let remainder := value.tmod period
  if remainder < 0 then remainder + period else remainder

/-- `wrap_index`. -/
def wrapIndex (position : ℤ) (length : ℕ) : ℕ := (positiveRemainder position length).toNat

/-- `reflect_index`. -/
def reflectIndex (position : ℤ) (length : ℕ) : ℕ :=
  if length = 1 then 0
  else
    let period : ℤ := (2 * length : ℕ)
    let reflected := positiveRemainder position period
    (if reflected ≥ length then period - reflected - 1 else reflected).toNat

/-- `reverse_index`. -/
def reverseIndex (position : ℤ) (length : ℕ) : ℕ :=
  if length = 1 then 0
  else
    let period : ℤ := (2 * (length - 1) : ℕ)
    let reflected := positiveRemainder position period
    (if reflected ≥ length then period - reflected else reflected).toNat

/-- `build_coordinate_sequence`. -/
def buildCoordinateSequence (mapIndex : ℤ → ℕ → ℕ) (count : ℕ) (start : ℤ) (length : ℕ) : List ℕ :=
  (List.range count).map fun i : ℕ => mapIndex (start + i) length

/-! ### Rows of a stripe -/

section

variable (backend : Backend) (p : AddPaddingByCopyParameters)

/-- `fill_repeated_pixel` for the pixels of the image. -/
def fillPixel : ℕ → ℕ → ℕ → Tallied U8 → Tallied U8 :=
  backend.fillRepeatedPixel p.PixelSize p.pixelSize

/-- `copy_reversed_pixels` for the pixels of the image. -/
def copyReversed : ℕ → ℕ → ℕ → Tallied U8 → Tallied U8 :=
  backend.copyReversedPixels p.PixelSize p.pixelSize

/-- `process_vertical_mapped_stripe`. -/
def processVerticalMappedStripe (mapIndex : ℤ → ℕ → ℕ)
    (fillRow : ℕ → ℕ → Tallied U8 → Tallied U8) (dstYBegin dstYEnd : ℕ) (r : Tallied U8) :
    Tallied U8 :=
  let topRows := buildCoordinateSequence mapIndex p.topPadding (-p.topPadding) p.srcHeight
  let bottomRows := buildCoordinateSequence mapIndex p.bottomPadding p.srcHeight p.srcHeight
  let (bodyBegin, bodyEnd) := p.splitBodyRows dstYBegin dstYEnd
  let dstRow := fun dstY => p.dst + dstY * p.dstStride
  let r := forFrom dstYBegin (bodyBegin - dstYBegin) (fun dstY =>
    fillRow (p.src + topRows.getD dstY 0 * p.srcStride) (dstRow dstY)) r
  let r := forFrom bodyBegin (bodyEnd - bodyBegin) (fun dstY =>
    fillRow (p.src + (dstY - p.topPadding) * p.srcStride) (dstRow dstY)) r
  let bottomBase := p.topPadding + p.srcHeight
  forFrom bodyEnd (dstYEnd - bodyEnd) (fun dstY =>
    fillRow (p.src + bottomRows.getD (dstY - bottomBase) 0 * p.srcStride) (dstRow dstY)) r

namespace Constant

/-- `fill_constant_rows`. -/
def fillConstantRows (dstYBegin dstYEnd : ℕ) (r : Tallied U8) : Tallied U8 :=
  forFrom dstYBegin (dstYEnd - dstYBegin) (fun dstY =>
    fillPixel backend p p.borderValue (p.dst + dstY * p.dstStride) (p.dstWidth * p.pixelSize)) r

/-- `fill_constant_body_row`. -/
def fillConstantBodyRow (srcRow dstRow : ℕ) (r : Tallied U8) : Tallied U8 :=
  let r := fillPixel backend p p.borderValue dstRow p.leftSize r
  let r := backend.copyContiguousBytes srcRow (dstRow + p.innerOffset) p.innerSize r
  fillPixel backend p p.borderValue (dstRow + p.rightOffset) p.rightSize r

/-- `process_constant_body_rows`. -/
def processConstantBodyRows (dstYBegin dstYEnd : ℕ) (r : Tallied U8) : Tallied U8 :=
  forFrom dstYBegin (dstYEnd - dstYBegin) (fun dstY =>
    fillConstantBodyRow backend p (p.src + (dstY - p.topPadding) * p.srcStride)
      (p.dst + dstY * p.dstStride)) r

/-- `AddPaddingByCopyConstant::process_stripe`. -/
def processStripe (dstYBegin dstYEnd : ℕ) (r : Tallied U8) : Tallied U8 :=
  if p.innerSize = 0 then fillConstantRows backend p dstYBegin dstYEnd r
  else
    let (bodyBegin, bodyEnd) := p.splitBodyRows dstYBegin dstYEnd
    let r := fillConstantRows backend p dstYBegin bodyBegin r
    let r := processConstantBodyRows backend p bodyBegin bodyEnd r
    fillConstantRows backend p bodyEnd dstYEnd r

end Constant

namespace Replicate

/-- `fill_replicate_row`. -/
def fillReplicateRow (srcRow dstRow : ℕ) (r : Tallied U8) : Tallied U8 :=
  let leftmostSrcPixel := srcRow
  let rightmostSrcPixel := srcRow + p.innerSize - p.pixelSize
  let r := fillPixel backend p leftmostSrcPixel dstRow p.leftSize r
  let r := backend.copyContiguousBytes srcRow (dstRow + p.innerOffset) p.innerSize r
  fillPixel backend p rightmostSrcPixel (dstRow + p.rightOffset) p.rightSize r

/-- `fill_replicate_rows`. -/
def fillReplicateRows (srcRow dstYBegin dstYEnd : ℕ) (r : Tallied U8) : Tallied U8 :=
  forFrom dstYBegin (dstYEnd - dstYBegin) (fun dstY =>
    fillReplicateRow backend p srcRow (p.dst + dstY * p.dstStride)) r

/-- `process_replicate_body_rows`. -/
def processReplicateBodyRows (dstYBegin dstYEnd : ℕ) (r : Tallied U8) : Tallied U8 :=
  forFrom dstYBegin (dstYEnd - dstYBegin) (fun dstY =>
    fillReplicateRow backend p (p.src + (dstY - p.topPadding) * p.srcStride)
      (p.dst + dstY * p.dstStride)) r

/-- `AddPaddingByCopyReplicate::process_stripe`. -/
def processStripe (dstYBegin dstYEnd : ℕ) (r : Tallied U8) : Tallied U8 :=
  let (bodyBegin, bodyEnd) := p.splitBodyRows dstYBegin dstYEnd
  let r := fillReplicateRows backend p p.src dstYBegin bodyBegin r
  let r := processReplicateBodyRows backend p bodyBegin bodyEnd r
  fillReplicateRows backend p (p.src + (p.srcHeight - 1) * p.srcStride) bodyEnd dstYEnd r

end Replicate

/-- `AddPaddingByCopyReflect::fill_row`. -/
def Reflect.fillRow (srcRow dstRow : ℕ) (r : Tallied U8) : Tallied U8 :=
  let leftBorderLastSrcPixel := srcRow + if p.leftSize = 0 then 0 else p.leftSize - p.pixelSize
  let r := copyReversed backend p leftBorderLastSrcPixel dstRow p.leftSize r
  let r := backend.copyContiguousBytes srcRow (dstRow + p.innerOffset) p.innerSize r
  let rightmostSrcPixel := srcRow + if p.rightSize = 0 then 0 else p.innerSize - p.pixelSize
  copyReversed backend p rightmostSrcPixel (dstRow + p.rightOffset) p.rightSize r

/-- `AddPaddingByCopyReverse::fill_row`. -/
def Reverse.fillRow (srcRow dstRow : ℕ) (r : Tallied U8) : Tallied U8 :=
  let twoPixelSize := p.pixelSize + p.pixelSize
  let leftBorderLastSrcPixel := srcRow + if p.leftSize = 0 then 0 else p.leftSize
  let r := copyReversed backend p leftBorderLastSrcPixel dstRow p.leftSize r
  let r := backend.copyContiguousBytes srcRow (dstRow + p.innerOffset) p.innerSize r
  let rightBorderLastSrcPixel := srcRow + if p.rightSize = 0 then 0 else p.innerSize - twoPixelSize
  copyReversed backend p rightBorderLastSrcPixel (dstRow + p.rightOffset) p.rightSize r

/-- `AddPaddingByCopyWrap::fill_row`. -/
def Wrap.fillRow (srcRow dstRow : ℕ) (r : Tallied U8) : Tallied U8 :=
  let leftBorderSrc := srcRow + p.innerSize - p.leftSize
  let rightBorderSrc := srcRow
  let r := backend.copyContiguousBytes leftBorderSrc dstRow p.leftSize r
  let r := backend.copyContiguousBytes srcRow (dstRow + p.innerOffset) p.innerSize r
  backend.copyContiguousBytes rightBorderSrc (dstRow + p.rightOffset) p.rightSize r

namespace Indexed

/-- `copy_indexed_pixels_typed`. -/
def copyIndexedPixelsTyped (sz src dst : ℕ) (indices : List ℕ) (r : Tallied U8) : Tallied U8 :=
  forRange indices.length (fun i => memcpy (dst + i * sz) (src + indices.getD i 0 * sz) sz) r

/-- `copy_indexed_pixels_by_bytes`. -/
def copyIndexedPixelsByBytes (src dst : ℕ) (indices : List ℕ) (r : Tallied U8) : Tallied U8 :=
  forRange indices.length (fun i =>
    backend.copyContiguousBytes (src + indices.getD i 0 * p.pixelSize) (dst + i * p.pixelSize)
      p.pixelSize) r

/-- `copy_indexed_pixels_common`. -/
def copyIndexedPixelsCommon (src dst : ℕ) (indices : List ℕ) (r : Tallied U8) : Tallied U8 :=
  if p.PixelSize = 1 then copyIndexedPixelsTyped 1 src dst indices r
  else if p.PixelSize = 2 then copyIndexedPixelsTyped 2 src dst indices r
  else if p.PixelSize = 4 then copyIndexedPixelsTyped 4 src dst indices r
  else if p.PixelSize = 8 then copyIndexedPixelsTyped 8 src dst indices r
  else copyIndexedPixelsByBytes backend p src dst indices r

/-- The index map that `prepare_indexed_maps` chooses. -/
def mapIndex : ℤ → ℕ → ℕ :=
  match p.borderType with
  | .wrap => wrapIndex
  | .reflect => reflectIndex
  | _ => reverseIndex

/-- `AddPaddingByCopyIndexed::fill_row`. -/
def fillRow (srcRow dstRow : ℕ) (r : Tallied U8) : Tallied U8 :=
  let leftIndices := buildCoordinateSequence (mapIndex p) p.leftPadding (-p.leftPadding) p.srcWidth
  let rightIndices := buildCoordinateSequence (mapIndex p) p.rightPadding p.srcWidth p.srcWidth
  let r := backend.copyContiguousBytes srcRow (dstRow + p.innerOffset) p.innerSize r
  let r := copyIndexedPixelsCommon backend p srcRow dstRow leftIndices r
  copyIndexedPixelsCommon backend p srcRow (dstRow + p.rightOffset) rightIndices r

end Indexed

/-- `process_stripe` of the operation that a strategy is created as. -/
def processStripe (strategy : AddPaddingByCopyBorderStrategy) (dstYBegin dstYEnd : ℕ)
    (r : Tallied U8) : Tallied U8 :=
  match strategy with
  | .constant => Constant.processStripe backend p dstYBegin dstYEnd r
  | .replicate => Replicate.processStripe backend p dstYBegin dstYEnd r
  | .wrapFast =>
    processVerticalMappedStripe p wrapIndex (Wrap.fillRow backend p) dstYBegin dstYEnd r
  | .reflectFast =>
    processVerticalMappedStripe p reflectIndex (Reflect.fillRow backend p) dstYBegin dstYEnd r
  | .reverseFast =>
    processVerticalMappedStripe p reverseIndex (Reverse.fillRow backend p) dstYBegin dstYEnd r
  | .indexed =>
    processVerticalMappedStripe p (Indexed.mapIndex p) (Indexed.fillRow backend p) dstYBegin dstYEnd
      r

/-- The strategy of a call. -/
def AddPaddingByCopyParameters.strategy : AddPaddingByCopyBorderStrategy :=
  resolveBorderStrategy p.srcWidth p.leftPadding p.rightPadding p.borderType

/-- `add_padding_by_copy`; `allocated` says whether `std::malloc` succeeds. -/
def addPaddingByCopy (allocated : Bool) (r : Tallied U8) : KleidicvError × Tallied U8 :=
  match addPaddingByCopyChecks p with
  | .error error => (error, r)
  | .ok dstHeight =>
    if allocated then (.ok, processStripe backend p p.strategy 0 dstHeight r)
    else (.allocation, r)

end

/-! ### Extended rows and columns -/

/-- The extension of a range of indices that a border type stands for. -/
def extension : BorderType → Extension
  | .reflect => .halfMirror
  | .wrap => .periodic
  | .reverse => .fullMirror
  | _ => .edge

/-- The index below `length` that stands for `position`. -/
def extendedIndex (e : Extension) (position : ℤ) (length : ℕ) : ℕ :=
  if length = 1 then 0 else (e.index length position).toNat

section

variable {n : ℕ} {position : ℤ}

theorem positiveRemainder_eq {period : ℤ} (hperiod : 0 < period) (value : ℤ) :
    positiveRemainder value period = value % period := by
  have h0 := Int.emod_nonneg value hperiod.ne'
  have h1 := Int.emod_lt_of_pos value hperiod
  simp only [positiveRemainder, Int.tmod_eq_emod]
  split_ifs <;> omega

/-- A single sample stands for every position. -/
theorem extendedIndex_one (e : Extension) (position : ℤ) : extendedIndex e position 1 = 0 :=
  if_pos rfl

theorem extendedIndex_eq {e : Extension} (hn : 2 ≤ n) :
    extendedIndex e position n = (e.index n position).toNat :=
  if_neg (by omega)

theorem extendedIndex_lt {e : Extension} (hn : 0 < n) : extendedIndex e position n < n := by
  obtain rfl | h2 : n = 1 ∨ 2 ≤ n := by omega
  · rw [extendedIndex_one]
    exact Nat.one_pos
  · rw [extendedIndex_eq h2]
    have hmem := Extension.index_mem e (n := (n : ℤ)) (p := position) (by omega)
    omega

/-- Inside, nothing changes. -/
theorem extendedIndex_of_lt {e : Extension} {i : ℕ} (hi : i < n) (hposition : position = i) :
    extendedIndex e position n = i := by
  obtain rfl | h2 : n = 1 ∨ 2 ≤ n := by omega
  · rw [extendedIndex_one]
    omega
  · rw [extendedIndex_eq h2, Extension.index_of_mem e (by omega) (by omega) (by omega)]
    omega

/-- At most one length away. -/
theorem extendedIndex_foldOnce {e : Extension} (he : e ≠ .fullMirror) (hn : 0 < n)
    (h0 : -n ≤ position) (h1 : position < 2 * n) :
    extendedIndex e position n = (e.foldOnce n position).toNat := by
  obtain rfl | h2 : n = 1 ∨ 2 ≤ n := by omega
  · rw [extendedIndex_one]
    cases e with
    | edge => simp only [Extension.foldOnce]; split_ifs <;> omega
    | halfMirror => simp only [Extension.foldOnce]; split_ifs <;> omega
    | periodic => simp only [Extension.foldOnce]; split_ifs <;> omega
    | fullMirror => exact absurd rfl he
  · rw [extendedIndex_eq h2, Extension.index_eq_foldOnce_full he (by omega) h0 h1]

theorem wrapIndex_eq (hn : 0 < n) (position : ℤ) :
    wrapIndex position n = extendedIndex .periodic position n := by
  rw [wrapIndex, positiveRemainder_eq (by omega)]
  obtain rfl | h2 : n = 1 ∨ 2 ≤ n := by omega
  · rw [extendedIndex_one]
    omega
  · rw [extendedIndex_eq h2]
    rfl

theorem reflectIndex_eq (hn : 0 < n) (position : ℤ) :
    reflectIndex position n = extendedIndex .halfMirror position n := by
  unfold reflectIndex
  by_cases h1 : n = 1
  · rw [if_pos h1, h1, extendedIndex_one]
  · have hperiod : ((2 * n : ℕ) : ℤ) = 2 * n := by omega
    rw [if_neg h1, extendedIndex_eq (by omega), hperiod]
    simp only [positiveRemainder_eq (show (0 : ℤ) < 2 * n by omega), Extension.index,
      Extension.foldBack]
    split_ifs <;> omega

theorem reverseIndex_eq (hn : 0 < n) (position : ℤ) :
    reverseIndex position n = extendedIndex .fullMirror position n := by
  unfold reverseIndex
  by_cases h1 : n = 1
  · rw [if_pos h1, h1, extendedIndex_one]
  · have hperiod : ((2 * (n - 1) : ℕ) : ℤ) = 2 * (n - 1) := by omega
    rw [if_neg h1, extendedIndex_eq (by omega), hperiod]
    simp only [positiveRemainder_eq (show (0 : ℤ) < 2 * (n - 1) by omega), Extension.index,
      Extension.foldBack]
    split_ifs <;> omega

end

namespace AddPaddingByCopyParameters

variable (p : AddPaddingByCopyParameters)

/-- The row of the image that stands for row `y` of the result. -/
def sourceRow (y : ℕ) : ℕ :=
  extendedIndex (extension p.borderType) ((y : ℤ) - p.topPadding) p.srcHeight

/-- The column of the image that stands for column `x` of the result. -/
def sourceColumn (x : ℕ) : ℕ :=
  extendedIndex (extension p.borderType) ((x : ℤ) - p.leftPadding) p.srcWidth

/-- Pixel `x` of row `y` of the result is one of the image. -/
def Inside (y x : ℕ) : Prop :=
  (p.topPadding ≤ y ∧ y < p.topPadding + p.srcHeight) ∧
    p.leftPadding ≤ x ∧ x < p.leftPadding + p.srcWidth

instance (y x : ℕ) : Decidable (p.Inside y x) := inferInstanceAs (Decidable (_ ∧ _))

/-- The address that pixel `x` of row `y` of the result is copied from. -/
def sourcePixel (y x : ℕ) : ℕ :=
  if p.borderType = .constant ∧ ¬p.Inside y x then p.borderValue
  else p.src + p.sourceRow y * p.srcStride + p.sourceColumn x * p.pixelSize

/-- The bytes of the image, and those of the border value where there is one. -/
def readBytes : Set ℕ :=
  {a | a ∈ blockAt p.src p.srcStride '' blockPart p.innerSize p.srcHeight ∨
    p.borderType = .constant ∧ a ∈ Set.Ico p.borderValue (p.borderValue + p.pixelSize)}

/-- Rows of the result do not overlap, and they overlap nothing that is read. -/
structure Placement : Prop where
  injOn : Set.InjOn (blockAt p.dst p.dstStride) (blockPart (p.dstWidth * p.pixelSize) p.dstHeight)
  apart : ∀ q ∈ blockPart (p.dstWidth * p.pixelSize) p.dstHeight,
    blockAt p.dst p.dstStride q ∉ p.readBytes

/-- What the checks leave. -/
structure Accepted : Prop where
  pixel_pos : 0 < p.pixelSize
  borderType : p.borderType ∈ [BorderType.constant, .replicate, .reflect, .wrap, .reverse]
  nonempty : p.borderType ≠ .constant → 0 < p.srcWidth ∧ 0 < p.srcHeight

variable {p}

theorem accepted_of_isImplemented
    (h : addPaddingByCopyIsImplemented p.srcWidth p.srcHeight p.pixelSize p.borderType = true) :
    p.Accepted := by
  unfold addPaddingByCopyIsImplemented at h
  split_ifs at h with hpixel hborder hempty
  refine ⟨by omega, ?_, fun hne => ?_⟩
  · simp only [List.mem_cons, List.not_mem_nil, or_false]
    tauto
  · have hzero : ¬(p.srcWidth = 0 ∨ p.srcHeight = 0) := fun hz => hempty ⟨hne, hz⟩
    omega

theorem accepted_of_checks {height : ℕ} (h : addPaddingByCopyChecks p = .ok height) :
    p.Accepted ∧ height = p.dstHeight := by
  unfold addPaddingByCopyChecks at h
  split at h
  · cases h
  split at h
  · cases h
  next himplemented =>
    refine ⟨accepted_of_isImplemented (by simpa using himplemented), ?_⟩
    split_ifs at h
    cases h
    exact (Nat.add_assoc _ _ _).symm

/-- Columns of the image. -/
theorem sourceColumn_inner {x : ℕ} (hx : x < p.srcWidth) : p.sourceColumn (p.leftPadding + x) = x :=
  extendedIndex_of_lt hx (by omega)

theorem sourceRow_body {y : ℕ} (hy : p.topPadding ≤ y) (hy' : y < p.topPadding + p.srcHeight) :
    p.sourceRow y = y - p.topPadding :=
  extendedIndex_of_lt (by omega) (by omega)

end AddPaddingByCopyParameters

/-! ### Rows -/

section

variable {backend : Backend} {p : AddPaddingByCopyParameters} {A : Set ℕ} {s d n : ℕ}

theorem ico_subset (hs : ∀ k < n, s + k ∈ A) : Set.Ico s (s + n) ⊆ A := by
  rintro a ⟨h1, h2⟩
  obtain ⟨k, rfl⟩ := Nat.exists_eq_add_of_le h1
  exact hs k (by omega)

theorem rangesApart_of_notMem {k : ℕ} (hs : ∀ i < n, s + i ∈ A) (hd : ∀ j < k, d + j ∉ A) :
    RangesApart s n d k :=
  fun i hi j hj heq => hd j hj (heq ▸ hs i hi)

theorem pixelSize_cases : p.PixelSize = 0 ∨ p.PixelSize = p.pixelSize := by
  unfold AddPaddingByCopyParameters.PixelSize
  split
  · exact .inr rfl
  · exact .inl rfl

theorem fillPixel_copies (hb : backend.Correct) (hp : p.Accepted)
    (hs : ∀ k < p.pixelSize, s + k ∈ A) (hd : ∀ j < n * p.pixelSize, d + j ∉ A) :
    CopiesPixels A p.pixelSize d n (fun _ => s) (fillPixel backend p s d (n * p.pixelSize)) :=
  fun r => (hb.fills hp.pixel_pos pixelSize_cases s d n r (rangesApart_of_notMem hs hd)).mono
    (ico_subset hs)

theorem copyContiguousBytes_copies (hb : backend.Correct) (hs : ∀ k < n * p.pixelSize, s + k ∈ A)
    (hd : ∀ j < n * p.pixelSize, d + j ∉ A) :
    CopiesPixels A p.pixelSize d n (fun x => s + x * p.pixelSize)
      (backend.copyContiguousBytes s d (n * p.pixelSize)) := by
  intro r
  refine ((hb.copies s d _ r (rangesApart_of_notMem hs hd)).mono (ico_subset hs)).congr
    fun j _ => ?_
  rw [Nat.add_assoc, Nat.div_add_mod']

/-- The last pixel is given; `first` is where the first one is. -/
theorem copyReversed_copies {srcLast : ℕ} (first : ℕ) (hb : backend.Correct) (hp : p.Accepted)
    (hlast : n ≠ 0 → srcLast + p.pixelSize = first + n * p.pixelSize)
    (hs : ∀ k < n * p.pixelSize, first + k ∈ A) (hd : ∀ j < n * p.pixelSize, d + j ∉ A) :
    CopiesPixels A p.pixelSize d n (fun x => first + (n - 1 - x) * p.pixelSize)
      (copyReversed backend p srcLast d (n * p.pixelSize)) := by
  intro r
  obtain rfl | hn := Nat.eq_zero_or_pos n
  · refine (hb.reverses hp.pixel_pos pixelSize_cases (srcLast + p.pixelSize) srcLast d 0 r
      (by rw [Nat.zero_mul]; rfl) ?_).congr (fun j hj => by omega) |>.mono ?_
    · exact fun i hi => by omega
    · rw [Nat.zero_mul, Nat.add_zero, Set.Ico_self]
      exact Set.empty_subset A
  · refine ((hb.reverses hp.pixel_pos pixelSize_cases first srcLast d n r (hlast hn.ne')
      (rangesApart_of_notMem hs hd)).mono (ico_subset hs)).congr fun j _ => ?_
    rw [mirror, Nat.add_assoc]

/-- A row in three pieces, from left to right. -/
theorem row_copies {pix : ℕ → ℕ} {left inner right : Tallied U8 → Tallied U8} (hp : p.Accepted)
    (hpix : ∀ x < p.dstWidth, ∀ i < p.pixelSize, pix x + i ∈ A)
    (hd : ∀ j < p.dstWidth * p.pixelSize, d + j ∉ A)
    (hleft : CopiesPixels A p.pixelSize d p.leftPadding pix left)
    (hinner : CopiesPixels A p.pixelSize (d + p.innerOffset) p.srcWidth
      (fun x => pix (p.leftPadding + x)) inner)
    (hright : CopiesPixels A p.pixelSize (d + p.rightOffset) p.rightPadding
      (fun x => pix (p.leftPadding + p.srcWidth + x)) right) :
    CopiesPixels A p.pixelSize d p.dstWidth pix fun r => right (inner (left r)) := by
  have hwidth : p.dstWidth = p.leftPadding + p.srcWidth + p.rightPadding := by
    unfold AddPaddingByCopyParameters.dstWidth
    omega
  rw [hwidth] at hpix hd ⊢
  have hbefore := hleft.append hp.pixel_pos (fun x hx => hpix x (by omega))
    (fun j hj => hd j (by rw [Nat.add_mul]; omega)) hinner
  exact hbefore.append hp.pixel_pos hpix hd hright

/-- A row of the image is read, and a row that is written is not. -/
structure RowPlace (A : Set ℕ) (p : AddPaddingByCopyParameters) (s d : ℕ) : Prop where
  source : ∀ k < p.innerSize, s + k ∈ A
  dest : ∀ j < p.dstWidth * p.pixelSize, d + j ∉ A

namespace RowPlace

variable (h : RowPlace A p s d)

include h

theorem dest_left : ∀ j < p.leftPadding * p.pixelSize, d + j ∉ A := fun j hj =>
  h.dest j (by unfold AddPaddingByCopyParameters.dstWidth; rw [Nat.add_mul, Nat.add_mul]; omega)

theorem dest_inner : ∀ j < p.srcWidth * p.pixelSize, d + p.innerOffset + j ∉ A := fun j hj => by
  rw [Nat.add_assoc]
  refine h.dest _ ?_
  unfold AddPaddingByCopyParameters.dstWidth AddPaddingByCopyParameters.innerOffset
  rw [Nat.add_mul, Nat.add_mul]
  omega

theorem dest_right : ∀ j < p.rightPadding * p.pixelSize, d + p.rightOffset + j ∉ A := fun j hj => by
  rw [Nat.add_assoc]
  refine h.dest _ ?_
  unfold AddPaddingByCopyParameters.dstWidth AddPaddingByCopyParameters.rightOffset
  rw [Nat.add_mul, Nat.add_mul, Nat.add_mul]
  omega

/-- Some pixels of the row of the image. -/
theorem source_part {c n : ℕ} (hc : c + n ≤ p.srcWidth) :
    ∀ k < n * p.pixelSize, s + c * p.pixelSize + k ∈ A := fun k hk => by
  have hle := Nat.mul_le_mul_right p.pixelSize hc
  rw [Nat.add_mul] at hle
  rw [Nat.add_assoc]
  exact h.source _ (by unfold AddPaddingByCopyParameters.innerSize; omega)

theorem source_pixel {c : ℕ} (hc : c < p.srcWidth) :
    ∀ i < p.pixelSize, s + c * p.pixelSize + i ∈ A := fun i hi =>
  h.source_part (n := 1) hc i (by rwa [Nat.one_mul])

/-- The pixels of the image in a row. -/
theorem inner_copies (hb : backend.Correct) :
    CopiesPixels A p.pixelSize (d + p.innerOffset) p.srcWidth (fun x => s + x * p.pixelSize)
      (backend.copyContiguousBytes s (d + p.innerOffset) p.innerSize) :=
  copyContiguousBytes_copies hb h.source h.dest_inner

end RowPlace

/-- The columns of a row of the result, from a row of the image. -/
def MapsRow (p : AddPaddingByCopyParameters) (fillRow : ℕ → ℕ → Tallied U8 → Tallied U8) : Prop :=
  ∀ A s d, RowPlace A p s d →
    CopiesPixels A p.pixelSize d p.dstWidth (fun x => s + p.sourceColumn x * p.pixelSize)
      (fillRow s d)

/-- The borders of a row of the result, beside a row of the image. -/
theorem mapsRow_of_borders (leftBorder rightBorder : ℕ → ℕ → Tallied U8 → Tallied U8)
    (hb : backend.Correct) (hp : p.Accepted) (hw : 0 < p.srcWidth)
    (hleft : ∀ A s d, RowPlace A p s d →
      CopiesPixels A p.pixelSize d p.leftPadding (fun x => s + p.sourceColumn x * p.pixelSize)
        (leftBorder s d))
    (hright : ∀ A s d, RowPlace A p s d →
      CopiesPixels A p.pixelSize (d + p.rightOffset) p.rightPadding
        (fun x => s + p.sourceColumn (p.leftPadding + p.srcWidth + x) * p.pixelSize)
        (rightBorder s d)) :
    MapsRow p fun s d r => rightBorder s d (backend.copyContiguousBytes s (d + p.innerOffset)
      p.innerSize (leftBorder s d r)) := by
  intro A s d h
  refine row_copies hp (fun x _ => h.source_pixel (extendedIndex_lt hw)) h.dest (hleft A s d h)
    ((h.inner_copies hb).congr fun x hx => ?_) (hright A s d h)
  rw [AddPaddingByCopyParameters.sourceColumn_inner hx]

theorem sourceColumn_eq (x : ℕ) : p.sourceColumn x =
    extendedIndex (extension p.borderType) ((x : ℤ) - p.leftPadding) p.srcWidth := rfl

/-- `fill_replicate_row`. -/
theorem Replicate.fillReplicateRow_maps (hb : backend.Correct) (hp : p.Accepted)
    (hw : 0 < p.srcWidth) (ht : p.borderType = .replicate) :
    MapsRow p (Replicate.fillReplicateRow backend p) := by
  have hcolumn : ∀ position : ℤ, extendedIndex (extension p.borderType) position p.srcWidth =
      (max 0 (min ((p.srcWidth : ℤ) - 1) position)).toNat := by
    intro position
    rw [ht]
    obtain h1 | h2 : p.srcWidth = 1 ∨ 2 ≤ p.srcWidth := by omega
    · rw [h1, extendedIndex_one]
      omega
    · exact extendedIndex_eq h2
  refine mapsRow_of_borders (fun s d => fillPixel backend p s d p.leftSize)
    (fun s d => fillPixel backend p (s + p.innerSize - p.pixelSize) (d + p.rightOffset)
      p.rightSize) hb hp hw ?_ ?_
  · intro A s d h
    have hpixel := h.source_pixel hw
    rw [Nat.zero_mul, Nat.add_zero] at hpixel
    refine (fillPixel_copies hb hp hpixel h.dest_left).congr fun x hx => ?_
    have hfirst : p.sourceColumn x = 0 := by
      rw [sourceColumn_eq, hcolumn]
      omega
    rw [hfirst, Nat.zero_mul, Nat.add_zero]
  · intro A s d h
    have hlast : s + p.innerSize - p.pixelSize = s + (p.srcWidth - 1) * p.pixelSize := by
      obtain ⟨w, hw⟩ := Nat.exists_eq_add_of_lt hw
      rw [AddPaddingByCopyParameters.innerSize, hw, Nat.zero_add, Nat.add_sub_cancel, Nat.succ_mul]
      omega
    have hpixel : ∀ k < p.pixelSize, s + p.innerSize - p.pixelSize + k ∈ A := by
      rw [hlast]
      exact h.source_pixel (by omega)
    refine (fillPixel_copies hb hp hpixel h.dest_right).congr fun x hx => ?_
    have hcol : p.sourceColumn (p.leftPadding + p.srcWidth + x) = p.srcWidth - 1 := by
      rw [sourceColumn_eq, hcolumn]
      omega
    rw [hcol, hlast]

/-- A border of pixels in reverse order, from column `c` of the image on. -/
theorem RowPlace.copyReversed_border {srcLast c : ℕ} (h : RowPlace A p s d) (hb : backend.Correct)
    (hp : p.Accepted) {o : ℕ} {pix : ℕ → ℕ} (hd : ∀ j < n * p.pixelSize, d + o + j ∉ A)
    (hc : n ≠ 0 → c + n ≤ p.srcWidth)
    (hlast : n ≠ 0 → srcLast = s + (c + n - 1) * p.pixelSize)
    (hpix : ∀ x < n, pix x = c + n - 1 - x) :
    CopiesPixels A p.pixelSize (d + o) n (fun x => s + pix x * p.pixelSize)
      (copyReversed backend p srcLast (d + o) (n * p.pixelSize)) := by
  refine (copyReversed_copies (s + c * p.pixelSize) hb hp (fun hn => ?_) ?_ hd).congr
    fun x hx => ?_
  · obtain ⟨k, rfl⟩ := Nat.exists_eq_succ_of_ne_zero hn
    rw [hlast hn, show c + k.succ - 1 = c + k by omega, Nat.succ_mul, Nat.add_mul]
    omega
  · obtain rfl | hn := Nat.eq_zero_or_pos n
    · exact fun k hk => by omega
    · exact h.source_part (hc hn.ne')
  · rw [hpix x hx, show c + n - 1 - x = c + (n - 1 - x) by omega, Nat.add_mul]
    exact Nat.add_assoc _ _ _

theorem leftSize_ne_zero (hp : p.Accepted) (hn : p.leftPadding ≠ 0) : p.leftSize ≠ 0 :=
  Nat.mul_ne_zero hn hp.pixel_pos.ne'

theorem rightSize_ne_zero (hp : p.Accepted) (hn : p.rightPadding ≠ 0) : p.rightSize ≠ 0 :=
  Nat.mul_ne_zero hn hp.pixel_pos.ne'

/-- `AddPaddingByCopyReflect::fill_row`. -/
theorem Reflect.fillRow_maps (hb : backend.Correct) (hp : p.Accepted) (hw : 0 < p.srcWidth)
    (ht : p.borderType = .reflect) (hl : p.leftPadding ≤ p.srcWidth)
    (hr : p.rightPadding ≤ p.srcWidth) : MapsRow p (Reflect.fillRow backend p) := by
  have hcolumn : ∀ position : ℤ, -p.srcWidth ≤ position → position < 2 * p.srcWidth →
      extendedIndex (extension p.borderType) position p.srcWidth =
        (Extension.halfMirror.foldOnce p.srcWidth position).toNat := by
    rw [ht]
    exact fun position h0 h1 => extendedIndex_foldOnce (by decide) hw h0 h1
  refine mapsRow_of_borders
    (fun s d => copyReversed backend p
      (s + if p.leftSize = 0 then 0 else p.leftSize - p.pixelSize) d p.leftSize)
    (fun s d => copyReversed backend p
      (s + if p.rightSize = 0 then 0 else p.innerSize - p.pixelSize) (d + p.rightOffset)
      p.rightSize) hb hp hw ?_ ?_
  · intro A s d h
    refine h.copyReversed_border (o := 0) (c := 0) hb hp h.dest_left (fun _ => by omega)
      (fun hn => ?_) fun x hx => ?_
    · rw [if_neg (leftSize_ne_zero hp hn), Nat.zero_add, Nat.sub_one_mul]
      rfl
    · rw [sourceColumn_eq, hcolumn _ (by omega) (by omega)]
      simp only [Extension.foldOnce]
      omega
  · intro A s d h
    refine h.copyReversed_border (c := p.srcWidth - p.rightPadding) hb hp h.dest_right
      (fun _ => by omega) (fun hn => ?_) fun x hx => ?_
    · rw [if_neg (rightSize_ne_zero hp hn), Nat.sub_add_cancel hr, Nat.sub_one_mul]
      rfl
    · rw [sourceColumn_eq, hcolumn _ (by omega) (by omega)]
      simp only [Extension.foldOnce]
      omega

/-- `AddPaddingByCopyReverse::fill_row`. -/
theorem Reverse.fillRow_maps (hb : backend.Correct) (hp : p.Accepted) (hw : 1 < p.srcWidth)
    (ht : p.borderType = .reverse) (hl : p.leftPadding < p.srcWidth)
    (hr : p.rightPadding < p.srcWidth) : MapsRow p (Reverse.fillRow backend p) := by
  have hcolumn : ∀ position : ℤ, -p.srcWidth < position → position < 2 * p.srcWidth - 1 →
      extendedIndex (extension p.borderType) position p.srcWidth =
        (Extension.fullMirror.foldOnce p.srcWidth position).toNat := by
    intro position h0 h1
    rw [ht, extendedIndex_eq hw]
    exact congrArg Int.toNat (Extension.index_eq_foldOnce _ (by omega) h0 h1)
  refine mapsRow_of_borders
    (fun s d => copyReversed backend p (s + if p.leftSize = 0 then 0 else p.leftSize) d p.leftSize)
    (fun s d => copyReversed backend p
      (s + if p.rightSize = 0 then 0 else p.innerSize - (p.pixelSize + p.pixelSize))
      (d + p.rightOffset) p.rightSize) hb hp (by omega) ?_ ?_
  · intro A s d h
    refine h.copyReversed_border (o := 0) (c := 1) hb hp h.dest_left (fun _ => by omega)
      (fun hn => ?_) fun x hx => ?_
    · rw [if_neg (leftSize_ne_zero hp hn), Nat.add_sub_cancel_left]
      rfl
    · rw [sourceColumn_eq, hcolumn _ (by omega) (by omega)]
      simp only [Extension.foldOnce]
      omega
  · intro A s d h
    refine h.copyReversed_border (c := p.srcWidth - 1 - p.rightPadding) hb hp h.dest_right
      (fun _ => by omega) (fun hn => ?_) fun x hx => ?_
    · rw [if_neg (rightSize_ne_zero hp hn), Nat.sub_add_cancel (by omega), Nat.sub_sub,
        Nat.sub_mul, Nat.two_mul]
      rfl
    · rw [sourceColumn_eq, hcolumn _ (by omega) (by omega)]
      simp only [Extension.foldOnce]
      split_ifs <;> omega

/-- `AddPaddingByCopyWrap::fill_row`. -/
theorem Wrap.fillRow_maps (hb : backend.Correct) (hp : p.Accepted) (hw : 0 < p.srcWidth)
    (ht : p.borderType = .wrap) (hl : p.leftPadding ≤ p.srcWidth)
    (hr : p.rightPadding ≤ p.srcWidth) : MapsRow p (Wrap.fillRow backend p) := by
  have hcolumn : ∀ position : ℤ, -p.srcWidth ≤ position → position < 2 * p.srcWidth →
      extendedIndex (extension p.borderType) position p.srcWidth =
        (Extension.periodic.foldOnce p.srcWidth position).toNat := by
    rw [ht]
    exact fun position h0 h1 => extendedIndex_foldOnce (by decide) hw h0 h1
  refine mapsRow_of_borders
    (fun s d => backend.copyContiguousBytes (s + p.innerSize - p.leftSize) d p.leftSize)
    (fun s d => backend.copyContiguousBytes s (d + p.rightOffset) p.rightSize) hb hp hw ?_ ?_
  · intro A s d h
    have hstart :
        s + p.innerSize - p.leftSize = s + (p.srcWidth - p.leftPadding) * p.pixelSize := by
      rw [Nat.sub_mul]
      exact Nat.add_sub_assoc (Nat.mul_le_mul_right _ hl) s
    rw [hstart]
    refine (copyContiguousBytes_copies hb (h.source_part (by omega)) h.dest_left).congr
      fun x hx => ?_
    have hcol : p.sourceColumn x = p.srcWidth - p.leftPadding + x := by
      rw [sourceColumn_eq, hcolumn _ (by omega) (by omega)]
      simp only [Extension.foldOnce]
      omega
    rw [hcol, Nat.add_mul, Nat.add_assoc]
  · intro A s d h
    have hsource := h.source_part (c := 0) (n := p.rightPadding) (by omega)
    rw [Nat.zero_mul, Nat.add_zero] at hsource
    refine (copyContiguousBytes_copies hb hsource h.dest_right).congr fun x hx => ?_
    have hcol : p.sourceColumn (p.leftPadding + p.srcWidth + x) = x := by
      rw [sourceColumn_eq, hcolumn _ (by omega) (by omega)]
      simp only [Extension.foldOnce]
      omega
    rw [hcol]

/-! ### Rows by index -/

theorem buildCoordinateSequence_getD {mapIndex : ℤ → ℕ → ℕ} {count length i : ℕ} (start : ℤ)
    (hi : i < count) :
    (buildCoordinateSequence mapIndex count start length).getD i 0 =
      mapIndex (start + i) length := by
  rw [buildCoordinateSequence, List.getD_eq_getElem?_getD, List.getElem?_map,
    List.getElem?_range hi, Option.map_some, Option.getD_some]

theorem buildCoordinateSequence_length (mapIndex : ℤ → ℕ → ℕ) (count : ℕ) (start : ℤ)
    (length : ℕ) : (buildCoordinateSequence mapIndex count start length).length = count := by
  rw [buildCoordinateSequence, List.length_map, List.length_range]

/-- Pixels copied one by one, in a loop over their indices. -/
theorem indexed_copies {copy : ByteCopier} (hcopy : copy.Copies) (hp : p.Accepted) {pix : ℕ → ℕ}
    (hs : ∀ i < n, ∀ k < p.pixelSize, pix i + k ∈ A) (hd : ∀ j < n * p.pixelSize, d + j ∉ A) :
    CopiesPixels A p.pixelSize d n pix
      (forRange n fun i => copy (pix i) (d + i * p.pixelSize) p.pixelSize) := by
  intro r
  refine RowStored.forRange fun i hi r' hr => ?_
  have hle := Nat.mul_le_mul_right p.pixelSize (Nat.succ_le_of_lt hi)
  rw [Nat.succ_mul] at hle
  have hdest : ∀ j < p.pixelSize, d + i * p.pixelSize + j ∉ A := fun j hj => by
    rw [Nat.add_assoc]
    exact hd _ (by omega)
  refine ((hcopy (pix i) _ _ r' (rangesApart_of_notMem (hs i hi) hdest)).mono
    (ico_subset (hs i hi))).congr fun j hj => ?_
  have hpixel : (i * p.pixelSize + j) / p.pixelSize = i := by
    rw [Nat.mul_comm, Nat.mul_add_div hp.pixel_pos, Nat.div_eq_of_lt hj, Nat.add_zero]
  rw [hpixel, Nat.mul_add_mod', Nat.mod_eq_of_lt hj]
  exact hr.read fun k hk heq => hd k (by omega) (heq ▸ hs i hi j hj)

/-- `copy_indexed_pixels_common`. -/
theorem Indexed.copyIndexedPixelsCommon_copies (hb : backend.Correct) (hp : p.Accepted)
    {indices : List ℕ}
    (hs : ∀ i < indices.length, ∀ k < p.pixelSize, s + indices.getD i 0 * p.pixelSize + k ∈ A)
    (hd : ∀ j < indices.length * p.pixelSize, d + j ∉ A) :
    CopiesPixels A p.pixelSize d indices.length (fun x => s + indices.getD x 0 * p.pixelSize)
      (Indexed.copyIndexedPixelsCommon backend p s d indices) := by
  have htyped : ∀ sz, 0 < sz → p.PixelSize = sz →
      CopiesPixels A p.pixelSize d indices.length (fun x => s + indices.getD x 0 * p.pixelSize)
        (Indexed.copyIndexedPixelsTyped sz s d indices) := by
    intro sz hsz hsize
    obtain hzero | hsame := pixelSize_cases (p := p)
    · omega
    · obtain rfl : sz = p.pixelSize := by rw [← hsize, hsame]
      exact indexed_copies memcpy_copies hp hs hd
  unfold Indexed.copyIndexedPixelsCommon
  split_ifs with h1 h2 h4 h8
  · exact htyped 1 (by omega) h1
  · exact htyped 2 (by omega) h2
  · exact htyped 4 (by omega) h4
  · exact htyped 8 (by omega) h8
  · exact indexed_copies hb.copies hp hs hd

/-- The index map of a border type that has one. -/
theorem Indexed.mapIndex_eq (ht : p.borderType ∈ [BorderType.reflect, .wrap, .reverse]) (hn : 0 < n)
    (position : ℤ) :
    Indexed.mapIndex p position n = extendedIndex (extension p.borderType) position n := by
  simp only [List.mem_cons, List.not_mem_nil, or_false] at ht
  unfold Indexed.mapIndex
  obtain ht | ht | ht := ht
  · rw [ht]
    exact reflectIndex_eq hn position
  · rw [ht]
    exact wrapIndex_eq hn position
  · rw [ht]
    exact reverseIndex_eq hn position

/-- `AddPaddingByCopyIndexed::fill_row`. -/
theorem Indexed.fillRow_maps (hb : backend.Correct) (hp : p.Accepted) (hw : 0 < p.srcWidth)
    (ht : p.borderType ∈ [BorderType.reflect, .wrap, .reverse]) :
    MapsRow p (Indexed.fillRow backend p) := by
  intro A s d h
  have hleft : ∀ x < p.leftPadding,
      (buildCoordinateSequence (Indexed.mapIndex p) p.leftPadding (-p.leftPadding)
        p.srcWidth).getD x 0 = p.sourceColumn x := by
    intro x hx
    rw [buildCoordinateSequence_getD _ hx, Indexed.mapIndex_eq ht hw, sourceColumn_eq]
    congr 1
    omega
  have hright : ∀ x < p.rightPadding,
      (buildCoordinateSequence (Indexed.mapIndex p) p.rightPadding p.srcWidth
        p.srcWidth).getD x 0 = p.sourceColumn (p.leftPadding + p.srcWidth + x) := by
    intro x hx
    rw [buildCoordinateSequence_getD _ hx, Indexed.mapIndex_eq ht hw, sourceColumn_eq]
    congr 1
    omega
  have hlt : ∀ x, p.sourceColumn x < p.srcWidth := fun x => extendedIndex_lt hw
  have hborder : ∀ {d} n (indices : List ℕ) (column : ℕ → ℕ), indices.length = n →
      (∀ x < n, indices.getD x 0 = p.sourceColumn (column x)) →
      (∀ j < n * p.pixelSize, d + j ∉ A) →
      CopiesPixels A p.pixelSize d n (fun x => s + p.sourceColumn (column x) * p.pixelSize)
        (Indexed.copyIndexedPixelsCommon backend p s d indices) := by
    intro d n indices column hlength hindices hd
    subst hlength
    refine (Indexed.copyIndexedPixelsCommon_copies hb hp (fun i hi => ?_) hd).congr fun x hx => ?_
    · rw [hindices i hi]
      exact h.source_pixel (hlt _)
    · rw [hindices x hx]
  have hwidth : p.dstWidth = p.leftPadding + p.srcWidth + p.rightPadding := by
    unfold AddPaddingByCopyParameters.dstWidth
    omega
  have hlleft := buildCoordinateSequence_length (Indexed.mapIndex p) p.leftPadding (-p.leftPadding)
    p.srcWidth
  have hlright := buildCoordinateSequence_length (Indexed.mapIndex p) p.rightPadding p.srcWidth
    p.srcWidth
  rw [hwidth]
  have hrow := CopiesPixels.of_segments (k := p.srcWidth) (l := p.rightPadding) hp.pixel_pos
    (fun x _ => h.source_pixel (hlt x)) (fun j hj => h.dest j (by rwa [hwidth]))
    ((h.inner_copies hb).congr fun x hx => by
      rw [AddPaddingByCopyParameters.sourceColumn_inner hx])
    (hborder p.leftPadding _ _ hlleft hleft h.dest_left)
    (hborder p.rightPadding _ _ hlright hright h.dest_right)
  exact hrow

/-! ### Stripes -/

theorem sourceRow_lt (hh : 0 < p.srcHeight) (y : ℕ) : p.sourceRow y < p.srcHeight :=
  extendedIndex_lt hh

theorem sourceColumn_lt (hw : 0 < p.srcWidth) (x : ℕ) : p.sourceColumn x < p.srcWidth :=
  extendedIndex_lt hw

/-- A pixel that is not in a border of one value. -/
theorem sourcePixel_of_image {y x : ℕ} (h : ¬(p.borderType = .constant ∧ ¬p.Inside y x)) :
    p.sourcePixel y x = p.src + p.sourceRow y * p.srcStride + p.sourceColumn x * p.pixelSize :=
  if_neg h

/-- A byte of the image. -/
theorem image_mem {y k : ℕ} (hy : y < p.srcHeight) (hk : k < p.innerSize) :
    p.src + y * p.srcStride + k ∈ p.readBytes :=
  Or.inl ⟨(y, k), ⟨hy, hk⟩, rfl⟩

/-- A row of the image, and one of the result. -/
theorem rowPlace (hl : p.Placement) {y y' : ℕ} (hy' : y' < p.srcHeight) (hy : y < p.dstHeight) :
    RowPlace p.readBytes p (p.src + y' * p.srcStride) (p.dst + y * p.dstStride) :=
  ⟨fun _ hk => image_mem hy' hk, fun j hj => hl.apart (y, j) ⟨hy, hj⟩⟩

theorem copyLayout (hp : p.Accepted) (hl : p.Placement) :
    CopyLayout p.readBytes p.pixelSize p.dst p.dstStride p.dstWidth p.dstHeight p.sourcePixel := by
  refine ⟨hp.pixel_pos, hl.injOn, fun y hy x hx i hi => ?_, hl.apart⟩
  by_cases hborder : p.borderType = .constant ∧ ¬p.Inside y x
  · rw [AddPaddingByCopyParameters.sourcePixel, if_pos hborder]
    exact Or.inr ⟨hborder.1, Nat.le_add_right _ _, Nat.add_lt_add_left hi _⟩
  · have hpos : 0 < p.srcWidth ∧ 0 < p.srcHeight := by
      by_cases hc : p.borderType = .constant
      · have hinside : p.Inside y x := by
          by_contra hnot
          exact hborder ⟨hc, hnot⟩
        obtain ⟨⟨h1, h2⟩, h3, h4⟩ := hinside
        omega
      · exact hp.nonempty hc
    rw [sourcePixel_of_image hborder]
    have hplace := rowPlace hl (sourceRow_lt hpos.2 y) hy
    exact hplace.source_pixel (sourceColumn_lt hpos.1 x) i hi

/-- The rows above, beside and below the image. -/
theorem splitRows_copies (top body bottom : ℕ → Tallied U8 → Tallied U8) {b e : ℕ}
    (hp : p.Accepted) (hl : p.Placement) (he : e ≤ p.dstHeight)
    (htop : ∀ y, y < p.topPadding → y < p.dstHeight → CopiesPixels p.readBytes p.pixelSize
      (p.dst + y * p.dstStride) p.dstWidth (p.sourcePixel y) (top y))
    (hbody : ∀ y, p.topPadding ≤ y → y < p.topPadding + p.srcHeight → y < p.dstHeight →
      CopiesPixels p.readBytes p.pixelSize (p.dst + y * p.dstStride) p.dstWidth (p.sourcePixel y)
        (body y))
    (hbottom : ∀ y, p.topPadding + p.srcHeight ≤ y → y < p.dstHeight →
      CopiesPixels p.readBytes p.pixelSize (p.dst + y * p.dstStride) p.dstWidth (p.sourcePixel y)
        (bottom y)) (hbe : b ≤ e) :
    CopiesRows p.readBytes p.pixelSize p.dst p.dstStride p.dstWidth p.sourcePixel b e fun r =>
      forFrom (p.splitBodyRows b e).2 (e - (p.splitBodyRows b e).2) bottom
        (forFrom (p.splitBodyRows b e).1 ((p.splitBodyRows b e).2 - (p.splitBodyRows b e).1) body
          (forFrom b ((p.splitBodyRows b e).1 - b) top r)) := by
  have hlayout := copyLayout hp hl
  have hbegin : (p.splitBodyRows b e).1 = min (max b p.topPadding) e := rfl
  have hend : (p.splitBodyRows b e).2 =
      max (min (max b p.topPadding) e) (min e (p.topPadding + p.srcHeight)) := rfl
  generalize (p.splitBodyRows b e).1 = bodyBegin at hbegin ⊢
  generalize (p.splitBodyRows b e).2 = bodyEnd at hend ⊢
  have habove : CopiesRows p.readBytes p.pixelSize p.dst p.dstStride p.dstWidth p.sourcePixel b
      bodyBegin (forFrom b (bodyBegin - b) top) :=
    CopiesRows.forFrom hlayout (by omega) fun y h1 h2 => htop y (by omega) (by omega)
  have hbeside : CopiesRows p.readBytes p.pixelSize p.dst p.dstStride p.dstWidth p.sourcePixel
      bodyBegin bodyEnd (forFrom bodyBegin (bodyEnd - bodyBegin) body) :=
    CopiesRows.forFrom hlayout (by omega) fun y h1 h2 =>
      hbody y (by omega) (by omega) (by omega)
  have hbelow : CopiesRows p.readBytes p.pixelSize p.dst p.dstStride p.dstWidth p.sourcePixel
      bodyEnd e (forFrom bodyEnd (e - bodyEnd) bottom) :=
    CopiesRows.forFrom hlayout he fun y h1 h2 => hbottom y (by omega) (by omega)
  have hupper := habove.append hlayout (by omega) (by omega) (by omega) hbeside
  exact hupper.append hlayout (by omega) (by omega) he hbelow

/-- A row of the result, from the row of the image that stands for it. -/
theorem mappedRow_copies {fillRow : ℕ → ℕ → Tallied U8 → Tallied U8} {y y' : ℕ} (hl : p.Placement)
    (hh : 0 < p.srcHeight) (hc : p.borderType ≠ .constant) (hfill : MapsRow p fillRow)
    (hy : y < p.dstHeight) (hrow : y' = p.sourceRow y) :
    CopiesPixels p.readBytes p.pixelSize (p.dst + y * p.dstStride) p.dstWidth (p.sourcePixel y)
      (fillRow (p.src + y' * p.srcStride) (p.dst + y * p.dstStride)) := by
  subst hrow
  refine (hfill _ _ _ (rowPlace hl (sourceRow_lt hh y) hy)).congr fun x _ => ?_
  rw [sourcePixel_of_image fun h => hc h.1]

/-- `process_vertical_mapped_stripe`. -/
theorem processVerticalMappedStripe_copies {mapIndex : ℤ → ℕ → ℕ}
    {fillRow : ℕ → ℕ → Tallied U8 → Tallied U8} {b e : ℕ} (hp : p.Accepted) (hl : p.Placement)
    (hc : p.borderType ≠ .constant) (hbe : b ≤ e) (he : e ≤ p.dstHeight)
    (hmap : ∀ position, mapIndex position p.srcHeight =
      extendedIndex (extension p.borderType) position p.srcHeight)
    (hfill : MapsRow p fillRow) :
    CopiesRows p.readBytes p.pixelSize p.dst p.dstStride p.dstWidth p.sourcePixel b e
      (processVerticalMappedStripe p mapIndex fillRow b e) := by
  have hh := (hp.nonempty hc).2
  refine splitRows_copies
    (fun y => fillRow (p.src + (buildCoordinateSequence mapIndex p.topPadding (-p.topPadding)
      p.srcHeight).getD y 0 * p.srcStride) (p.dst + y * p.dstStride))
    (fun y => fillRow (p.src + (y - p.topPadding) * p.srcStride) (p.dst + y * p.dstStride))
    (fun y => fillRow (p.src + (buildCoordinateSequence mapIndex p.bottomPadding p.srcHeight
      p.srcHeight).getD (y - (p.topPadding + p.srcHeight)) 0 * p.srcStride)
        (p.dst + y * p.dstStride))
    hp hl he (fun y h1 h2 => ?_) (fun y h1 h2 h3 => ?_) (fun y h1 h2 => ?_) hbe
  · refine mappedRow_copies hl hh hc hfill h2 ?_
    rw [buildCoordinateSequence_getD _ h1, hmap, AddPaddingByCopyParameters.sourceRow]
    congr 1
    omega
  · exact mappedRow_copies hl hh hc hfill h3
      (AddPaddingByCopyParameters.sourceRow_body h1 h2).symm
  · refine mappedRow_copies hl hh hc hfill h2 ?_
    have hbottom : y - (p.topPadding + p.srcHeight) < p.bottomPadding := by
      unfold AddPaddingByCopyParameters.dstHeight at h2
      omega
    rw [buildCoordinateSequence_getD _ hbottom, hmap, AddPaddingByCopyParameters.sourceRow]
    congr 1
    omega

/-- `AddPaddingByCopyReplicate::process_stripe`. -/
theorem Replicate.processStripe_copies {b e : ℕ} (hb : backend.Correct) (hp : p.Accepted)
    (hl : p.Placement) (ht : p.borderType = .replicate) (hbe : b ≤ e) (he : e ≤ p.dstHeight) :
    CopiesRows p.readBytes p.pixelSize p.dst p.dstStride p.dstWidth p.sourcePixel b e
      (Replicate.processStripe backend p b e) := by
  have hc : p.borderType ≠ .constant := by
    rw [ht]
    decide
  obtain ⟨hw, hh⟩ := hp.nonempty hc
  have hfill := Replicate.fillReplicateRow_maps hb hp hw ht
  have hrow : ∀ y, p.sourceRow y =
      (max 0 (min ((p.srcHeight : ℤ) - 1) ((y : ℤ) - p.topPadding))).toNat := by
    intro y
    rw [AddPaddingByCopyParameters.sourceRow, ht]
    obtain h1 | h2 : p.srcHeight = 1 ∨ 2 ≤ p.srcHeight := by omega
    · rw [h1, extendedIndex_one]
      omega
    · exact extendedIndex_eq h2
  refine splitRows_copies
    (fun y => Replicate.fillReplicateRow backend p p.src (p.dst + y * p.dstStride))
    (fun y => Replicate.fillReplicateRow backend p (p.src + (y - p.topPadding) * p.srcStride)
      (p.dst + y * p.dstStride))
    (fun y => Replicate.fillReplicateRow backend p (p.src + (p.srcHeight - 1) * p.srcStride)
      (p.dst + y * p.dstStride))
    hp hl he (fun y h1 h2 => ?_) (fun y h1 h2 h3 => ?_) (fun y h1 h2 => ?_) hbe
  · have hzero : 0 = p.sourceRow y := by
      rw [hrow]
      omega
    have hcopies := mappedRow_copies hl hh hc hfill h2 hzero
    rwa [Nat.zero_mul, Nat.add_zero] at hcopies
  · exact mappedRow_copies hl hh hc hfill h3
      (AddPaddingByCopyParameters.sourceRow_body h1 h2).symm
  · exact mappedRow_copies hl hh hc hfill h2 (by rw [hrow]; omega)

/-- A row of a border of one value. -/
theorem Constant.borderRow_copies {y : ℕ} (hb : backend.Correct) (hp : p.Accepted)
    (hl : p.Placement) (hc : p.borderType = .constant) (hy : y < p.dstHeight)
    (hborder : ∀ x, ¬p.Inside y x) :
    CopiesPixels p.readBytes p.pixelSize (p.dst + y * p.dstStride) p.dstWidth (p.sourcePixel y)
      (fillPixel backend p p.borderValue (p.dst + y * p.dstStride) (p.dstWidth * p.pixelSize)) := by
  have hvalue : ∀ k < p.pixelSize, p.borderValue + k ∈ p.readBytes := fun k hk =>
    Or.inr ⟨hc, Nat.le_add_right _ _, Nat.add_lt_add_left hk _⟩
  refine (fillPixel_copies hb hp hvalue fun j hj => hl.apart (y, j) ⟨hy, hj⟩).congr fun x _ => ?_
  rw [AddPaddingByCopyParameters.sourcePixel, if_pos ⟨hc, hborder x⟩]

/-- `fill_constant_body_row`. -/
theorem Constant.bodyRow_copies {y : ℕ} (hb : backend.Correct) (hp : p.Accepted)
    (hl : p.Placement) (hc : p.borderType = .constant) (h1 : p.topPadding ≤ y)
    (h2 : y < p.topPadding + p.srcHeight) (hy : y < p.dstHeight) :
    CopiesPixels p.readBytes p.pixelSize (p.dst + y * p.dstStride) p.dstWidth (p.sourcePixel y)
      (Constant.fillConstantBodyRow backend p (p.src + (y - p.topPadding) * p.srcStride)
        (p.dst + y * p.dstStride)) := by
  have hlayout := copyLayout hp hl
  have hrow : y - p.topPadding < p.srcHeight := by omega
  have hplace := rowPlace hl hrow hy
  have hvalue : ∀ k < p.pixelSize, p.borderValue + k ∈ p.readBytes := fun k hk =>
    Or.inr ⟨hc, Nat.le_add_right _ _, Nat.add_lt_add_left hk _⟩
  have hborder : ∀ x, x < p.leftPadding ∨ p.leftPadding + p.srcWidth ≤ x →
      p.borderValue = p.sourcePixel y x := by
    intro x hx
    have hnot : ¬p.Inside y x := fun hinside => by
      obtain ⟨-, h3, h4⟩ := hinside
      omega
    rw [AddPaddingByCopyParameters.sourcePixel, if_pos ⟨hc, hnot⟩]
  refine row_copies hp (fun x hx => hlayout.sources y hy x hx) hplace.dest
    ((fillPixel_copies hb hp hvalue hplace.dest_left).congr fun x hx => hborder x (.inl hx))
    ((hplace.inner_copies hb).congr fun x hx => ?_)
    ((fillPixel_copies hb hp hvalue hplace.dest_right).congr fun x hx =>
      hborder _ (.inr (Nat.le_add_right _ x)))
  have hinside : p.Inside y (p.leftPadding + x) :=
    ⟨⟨h1, h2⟩, Nat.le_add_right _ _, Nat.add_lt_add_left hx _⟩
  rw [sourcePixel_of_image fun h => h.2 hinside,
    AddPaddingByCopyParameters.sourceRow_body h1 h2,
    AddPaddingByCopyParameters.sourceColumn_inner hx]

/-- `AddPaddingByCopyConstant::process_stripe`. -/
theorem Constant.processStripe_copies {b e : ℕ} (hb : backend.Correct) (hp : p.Accepted)
    (hl : p.Placement) (hc : p.borderType = .constant) (hbe : b ≤ e) (he : e ≤ p.dstHeight) :
    CopiesRows p.readBytes p.pixelSize p.dst p.dstStride p.dstWidth p.sourcePixel b e
      (Constant.processStripe backend p b e) := by
  by_cases hinner : p.innerSize = 0
  · have hempty : p.srcWidth = 0 := (Nat.mul_eq_zero.mp hinner).resolve_right hp.pixel_pos.ne'
    have hstripe : Constant.processStripe backend p b e =
        Constant.fillConstantRows backend p b e := funext fun r => if_pos hinner
    rw [hstripe]
    refine CopiesRows.forFrom (copyLayout hp hl) he fun y h1 h2 =>
      Constant.borderRow_copies hb hp hl hc (by omega) fun x hinside => ?_
    obtain ⟨-, h3, h4⟩ := hinside
    omega
  · have hstripe : Constant.processStripe backend p b e = fun r =>
        Constant.fillConstantRows backend p (p.splitBodyRows b e).2 e
          (Constant.processConstantBodyRows backend p (p.splitBodyRows b e).1
            (p.splitBodyRows b e).2 (Constant.fillConstantRows backend p b (p.splitBodyRows b e).1 r)) :=
      funext fun r => if_neg hinner
    rw [hstripe]
    refine splitRows_copies
      (fun y => fillPixel backend p p.borderValue (p.dst + y * p.dstStride)
        (p.dstWidth * p.pixelSize))
      (fun y => Constant.fillConstantBodyRow backend p (p.src + (y - p.topPadding) * p.srcStride)
        (p.dst + y * p.dstStride))
      (fun y => fillPixel backend p p.borderValue (p.dst + y * p.dstStride)
        (p.dstWidth * p.pixelSize))
      hp hl he (fun y h1 h2 => ?_) (fun y h1 h2 h3 => Constant.bodyRow_copies hb hp hl hc h1 h2 h3)
      (fun y h1 h2 => ?_) hbe
    · refine Constant.borderRow_copies hb hp hl hc h2 fun x hinside => ?_
      obtain ⟨⟨h3, h4⟩, -⟩ := hinside
      omega
    · refine Constant.borderRow_copies hb hp hl hc h2 fun x hinside => ?_
      obtain ⟨⟨h3, h4⟩, -⟩ := hinside
      omega

/-- The general strategy, for a border type with an index map. -/
theorem indexed_stripe {b e : ℕ} (hb : backend.Correct) (hp : p.Accepted) (hl : p.Placement)
    (ht : p.borderType ∈ [BorderType.reflect, .wrap, .reverse]) (hbe : b ≤ e)
    (he : e ≤ p.dstHeight) :
    CopiesRows p.readBytes p.pixelSize p.dst p.dstStride p.dstWidth p.sourcePixel b e
      (processStripe backend p .indexed b e) := by
  have hc : p.borderType ≠ .constant := by
    intro hc
    rw [hc] at ht
    revert ht
    decide
  obtain ⟨hw, hh⟩ := hp.nonempty hc
  exact processVerticalMappedStripe_copies hp hl hc hbe he (Indexed.mapIndex_eq ht hh)
    (Indexed.fillRow_maps hb hp hw ht)

/-- **A stripe**, by the strategy of the call. -/
theorem processStripe_stored {b e : ℕ} (hb : backend.Correct) (hp : p.Accepted) (hl : p.Placement)
    (hbe : b ≤ e) (he : e ≤ p.dstHeight) :
    CopiesRows p.readBytes p.pixelSize p.dst p.dstStride p.dstWidth p.sourcePixel b e
      (processStripe backend p p.strategy b e) := by
  unfold AddPaddingByCopyParameters.strategy resolveBorderStrategy
  split_ifs with hconstant hreplicate hwrap hreflect hreverse
  · exact Constant.processStripe_copies hb hp hl hconstant hbe he
  · exact Replicate.processStripe_copies hb hp hl hreplicate hbe he
  · obtain ⟨ht, hleft, hright⟩ := hwrap
    obtain ⟨hw, hh⟩ := hp.nonempty hconstant
    refine processVerticalMappedStripe_copies hp hl hconstant hbe he (fun position => ?_)
      (Wrap.fillRow_maps hb hp hw ht hleft hright)
    rw [ht]
    exact wrapIndex_eq hh position
  · obtain ⟨ht, hw, hleft, hright⟩ := hreflect
    refine processVerticalMappedStripe_copies hp hl hconstant hbe he (fun position => ?_)
      (Reflect.fillRow_maps hb hp (by omega) ht hleft hright)
    rw [ht]
    exact reflectIndex_eq (hp.nonempty hconstant).2 position
  · obtain ⟨ht, hw, hleft, hright⟩ := hreverse
    refine processVerticalMappedStripe_copies hp hl hconstant hbe he (fun position => ?_)
      (Reverse.fillRow_maps hb hp hw ht hleft hright)
    rw [ht]
    exact reverseIndex_eq (hp.nonempty hconstant).2 position
  · refine indexed_stripe hb hp hl ?_ hbe he
    have hall := hp.borderType
    simp only [List.mem_cons, List.not_mem_nil, or_false] at hall ⊢
    tauto

end

/-! ### Accepted calls -/

/-- From `r` to `r'`, rows `b` to `e` of the result were written, every pixel with the one of the
image, or of the border value, that stands for it, and nothing else. -/
structure AddPaddingByCopyParameters.Padded (p : AddPaddingByCopyParameters) (b e : ℕ)
    (r r' : Tallied U8) : Prop where
  pixels : ∀ y, b ≤ y → y < e → ∀ x < p.dstWidth, ∀ k < p.pixelSize,
    r'.mem (p.dst + y * p.dstStride + (x * p.pixelSize + k)) = r.mem (p.sourcePixel y x + k)
  frame : ∀ a, (∀ y, b ≤ y → y < e → ∀ j < p.dstWidth * p.pixelSize,
    p.dst + y * p.dstStride + j ≠ a) → r'.mem a = r.mem a

section

variable {backend : Backend} {p : AddPaddingByCopyParameters} {b e : ℕ} {r r' : Tallied U8}

theorem padded_of_stored (hp : p.Accepted)
    (h : Stored (blockAt p.dst p.dstStride)
      (fun q => r.mem (p.sourcePixel q.1 (q.2 / p.pixelSize) + q.2 % p.pixelSize)) p.readBytes
      {q | (b ≤ q.1 ∧ q.1 < e) ∧ q.2 < p.dstWidth * p.pixelSize} r r') : p.Padded b e r r' := by
  refine ⟨fun y h1 h2 x hx k hk => ?_, fun a ha => h.read ?_⟩
  · have hle := Nat.mul_le_mul_right p.pixelSize (Nat.succ_le_of_lt hx)
    rw [Nat.succ_mul] at hle
    refine (h.wrote.value (y, x * p.pixelSize + k) ⟨⟨h1, h2⟩, by show _ < _; omega⟩).trans ?_
    have hpixel : (x * p.pixelSize + k) / p.pixelSize = x := by
      rw [Nat.mul_comm, Nat.mul_add_div hp.pixel_pos, Nat.div_eq_of_lt hk, Nat.add_zero]
    rw [hpixel, Nat.mul_add_mod', Nat.mod_eq_of_lt hk]
  · rintro ⟨y, j⟩ ⟨hy, hj⟩
    exact ha y hy.1 hy.2 j hj

/-- Every cut of the rows of the result into stripes, in any order. -/
theorem stripes_stored {l : List (ℕ × ℕ)} (hb : backend.Correct) (hp : p.Accepted)
    (hl : p.Placement) (hpartition : IsPartition p.dstHeight l) (r : Tallied U8) :
    Stored (blockAt p.dst p.dstStride)
      (fun q => r.mem (p.sourcePixel q.1 (q.2 / p.pixelSize) + q.2 % p.pixelSize)) p.readBytes
      (blockPart (p.dstWidth * p.pixelSize) p.dstHeight) r
      (l.foldl (fun r s => processStripe backend p p.strategy s.1 s.2 r) r) :=
  CopiesRows.foldl (copyLayout hp hl) hpartition (fun s hs =>
    processStripe_stored hb hp hl (hpartition.bounds s hs).1 (hpartition.bounds s hs).2) r

end

/-- **`add_padding_by_copy`**: the result of an accepted call, on every stripe, by every cut into
stripes, and by the general strategy. -/
theorem addPaddingByCopy_correct {backend : Backend}
    (hbackend : backend = Neon.backend ∨ ∃ sme vl, backend = scalableBackend sme vl)
    {p : AddPaddingByCopyParameters} {dstHeight : ℕ}
    (hok : addPaddingByCopyChecks p = .ok dstHeight) (hl : p.Placement) (r : Tallied U8) :
    (∃ r', addPaddingByCopy backend p true r = (.ok, r') ∧ p.Padded 0 dstHeight r r' ∧
      ∀ l, IsPartition dstHeight l →
        (l.foldl (fun r s => processStripe backend p p.strategy s.1 s.2 r) r).mem = r'.mem) ∧
    ∀ b e, b ≤ e → e ≤ dstHeight →
      p.Padded b e r (processStripe backend p p.strategy b e r) ∧
      (p.borderType ∈ [BorderType.reflect, .wrap, .reverse] →
        (processStripe backend p p.strategy b e r).mem =
          (processStripe backend p .indexed b e r).mem) := by
  have hb : backend.Correct := by
    obtain rfl | ⟨sme, vl, rfl⟩ := hbackend
    · exact Neon.backend_correct
    · exact scalableBackend_correct sme vl
  obtain ⟨hp, rfl⟩ := AddPaddingByCopyParameters.accepted_of_checks hok
  refine ⟨⟨processStripe backend p p.strategy 0 p.dstHeight r, ?_, ?_, fun l hpartition => ?_⟩,
    fun b e hbe he => ⟨?_, fun ht => ?_⟩⟩
  · rw [addPaddingByCopy, hok]
    rfl
  · exact padded_of_stored hp (processStripe_stored hb hp hl (Nat.zero_le _) le_rfl r)
  · have hwhole := stripes_stored hb hp hl (IsPartition.whole p.dstHeight) r
    exact (stripes_stored hb hp hl hpartition r).wrote.eq_of hwhole.wrote
  · exact padded_of_stored hp (processStripe_stored hb hp hl hbe he r)
  · exact (processStripe_stored hb hp hl hbe he r).wrote.eq_of
      (indexed_stripe hb hp hl ht hbe he r).wrote

/-- Two rows of three bytes, reflected into four rows of seven. -/
def reflectedBytes : AddPaddingByCopyParameters :=
  ⟨100, 200, 3, 8, 3, 2, 1, 1, 2, 2, 1, .reflect, 0⟩

theorem addPaddingByCopy_correct_reflectedBytes :
    ∃ r', addPaddingByCopy Neon.backend reflectedBytes true
        ⟨fun a => Fin.ofNat 256 a, fun _ => 0, fun _ => 0⟩ = (.ok, r') ∧
      reflectedBytes.Padded 0 4 ⟨fun a => Fin.ofNat 256 a, fun _ => 0, fun _ => 0⟩ r' := by
  have hok : addPaddingByCopyChecks reflectedBytes = .ok 4 := by decide
  have hplacement : reflectedBytes.Placement := by
    refine ⟨blockAt_injOn 200 4 (by decide), ?_⟩
    rintro ⟨y, j⟩ ⟨hy, hj⟩ (⟨⟨y', j'⟩, ⟨hy', hj'⟩, heq⟩ | ⟨hc, -⟩)
    · have hy'' : y' < 2 := hy'
      have hj'' : j' < 3 := hj'
      simp only [blockAt, reflectedBytes] at heq
      omega
    · exact absurd hc (by decide)
  obtain ⟨⟨r', hrun, hpadded, -⟩, -⟩ := addPaddingByCopy_correct (.inl rfl) hok hplacement
    ⟨fun a => Fin.ofNat 256 a, fun _ => 0, fun _ => 0⟩
  exact ⟨r', hrun, hpadded⟩

end Padding

end KleidiCV
