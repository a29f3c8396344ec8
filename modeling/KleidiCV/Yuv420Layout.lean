/-
The layout of planar 4:2:0 images, as the encoder writes it and as the decoder reads it.

The two are written in different files with different formulas.  The encoder is run
on samples that carry their own names, and the decoder on memory that holds its own
addresses, with pixels that record what they were computed from.

* `LayoutsAgreeOn` — one place for every sample, for the encoder and the decoder;
* `place_eq_decoder`, `place_packed` — the places of an image of even size;
* `even_of_layoutsAgreeOn` — the decoder's samples of other images share bytes;
* `layouts_agree_iff` — which images they agree on.
-/
import KleidiCV.RgbToYuv420
import KleidiCV.Yuv420Decode

open Loop

namespace KleidiCV

open Yuv420Sample

namespace Yuv420Layout

/-- Samples that carry their own names. -/
def names : PixelSamples Yuv420Sample where
  y := luma
  u := fun row column => chroma false (row / 2) (column / 2)
  v := fun row column => chroma true (row / 2) (column / 2)

/-- The encoder on such samples. -/
def encoder : RgbxOrBgrxToYuv420 Yuv420Sample := ⟨names, names, false⟩

/-- The decoder with pixels that are the samples they were computed from. -/
def decoder (bgr kAlpha vFirst : Bool) : Yuv420XToRgbxOrBgrx ℤ (ℤ × ℤ × ℤ) where
  lane := fun y u v _ => (y, u, v)
  scalar := fun y u v _ => (y, u, v)
  zeroChroma := 0
  alpha := (0, 0, 0)
  bgr := bgr
  kAlpha := kAlpha
  vFirst := vFirst

/-- The bytes of a buffer of `(height * 3 + 1) / 2` rows that belong to a plane: the
luma plane comes first, with a row in each row, and the chroma planes follow. -/
def InPlane (buf stride height : ℕ) (address : ℕ) : Yuv420Sample → Prop
  | luma row column => address = buf + stride * row + column
  | chroma _ _ _ => buf + stride * height ≤ address ∧ address < buf + stride * ((height * 3 + 1) / 2)

/-- **The encoder and the decoder agree.**  Every sample of the image has a place of its
own in its plane; the encoder, run in any stripes, stores each sample at its place and
nothing else, and the decoder, run in any stripes, computes each pixel from the luma
sample of its own and the chroma samples of its block. -/
structure LayoutsAgreeOn (src srcStride buf stride width height : ℕ) (vFirst : Bool)
    (place : Yuv420Sample → ℕ) : Prop where
  injOn : Set.InjOn place (ofImage width height)
  inPlane : ∀ s ∈ ofImage width height, InPlane buf stride height (place s) s
  encodes : ∀ l, IsPartition ((height + 1) / 2) l → ∀ m,
    Wrote place id (ofImage width height) m
      (l.foldl (fun m r => (rgbToYuv420pStripe encoder src srcStride buf stride width height vFirst
        r.1 r.2 m).2) m)
  decodes : ∀ (bgr kAlpha : Bool) (rows : Rows), rows.ptr ≠ 0 →
    Set.InjOn rows.address
      {p | p.1 < height ∧ p.2 < (decoder bgr kAlpha vFirst).outputChannels * width} →
    ∀ l, IsPartition ((height + 1) / 2) l → ∀ m, ∀ row < height, ∀ x < width, ∀ k < 3,
      l.foldl (fun m r => (yuv420pToRgbStripe (decoder bgr kAlpha vFirst) id buf stride rows.ptr
          rows.stride width height r.1 r.2 m).2) m
          (rows.address (row, (decoder bgr kAlpha vFirst).outputChannels * x + k)) =
        ((place (luma row x) : ℤ), (place (chroma false (row / 2) (x / 2)) : ℤ),
          (place (chroma true (row / 2) (x / 2)) : ℤ))

theorem value_names : value names = id := by
  funext s
  rcases s with ⟨row, column⟩ | ⟨_ | _, i, j⟩
  · rfl
  · simp only [value, names, id, Nat.mul_div_cancel_left _ Nat.two_pos]
  · simp only [value, names, id, Nat.mul_div_cancel_left _ Nat.two_pos]

section

variable {src srcStride buf stride width height : ℕ} {vFirst : Bool}

/-- What the decoder reads for a pixel. -/
theorem decoder_reads (hbuf : buf ≠ 0) (hsize : width * height ≤ kleidicvMaxImagePixels)
    (bgr kAlpha : Bool) {rows : Rows} (hptr : rows.ptr ≠ 0)
    (hinj : Set.InjOn rows.address
      {p | p.1 < height ∧ p.2 < (decoder bgr kAlpha vFirst).outputChannels * width})
    {l : List (ℕ × ℕ)} (hl : IsPartition ((height + 1) / 2) l) (m : ℕ → ℤ × ℤ × ℤ) {row x k : ℕ}
    (hrow : row < height) (hx : x < width) (hk : k < 3) :
    l.foldl (fun m r => (yuv420pToRgbStripe (decoder bgr kAlpha vFirst) id buf stride rows.ptr
        rows.stride width height r.1 r.2 m).2) m
        (rows.address (row, (decoder bgr kAlpha vFirst).outputChannels * x + k)) =
      (YuvpToRgbxOrBgrx.lumaAt buf stride row x,
        (decoder bgr kAlpha vFirst).swapPlanes
          (YuvpToRgbxOrBgrx.uAt buf stride width height (row / 2) (x / 2))
          (YuvpToRgbxOrBgrx.vAt buf stride width height (row / 2) (x / 2))) := by
  have haccept : YuvpToRgbxOrBgrx.checks buf stride rows.ptr rows.stride width height = .ok :=
    Yuv420Source.planar_checks_ok_iff.mpr ⟨hbuf, hptr, hsize⟩
  have himage : Wrote rows.address (YuvpToRgbxOrBgrx.decoded (decoder bgr kAlpha vFirst) id buf stride
      width height) (stripeElements ((decoder bgr kAlpha vFirst).outputChannels * width) 0 height) m
      (l.foldl (fun m r => (yuv420pToRgbStripe (decoder bgr kAlpha vFirst) id buf stride rows.ptr
        rows.stride width height r.1 r.2 m).2) m) := by
    refine Yuv420XToRgbxOrBgrx.chromaStripes_wrote hinj hl (fun r _ m => ?_) m
    rw [yuv420pToRgbStripe, if_pos haccept]
    exact YuvpToRgbxOrBgrx.yuv2rgbxRows_wrote id rfl hinj r.1 r.2 m
  have hchannels : k < (decoder bgr kAlpha vFirst).outputChannels := by
    rw [Yuv420XToRgbxOrBgrx.outputChannels]
    split <;> omega
  have hfit := Nat.mul_le_mul_left (decoder bgr kAlpha vFirst).outputChannels (Nat.succ_le_of_lt hx)
  rw [Nat.mul_succ] at hfit
  rw [himage.value _ ⟨Nat.zero_le _, hrow, by simp only; omega⟩]
  have hdiv : ((decoder bgr kAlpha vFirst).outputChannels * x + k) /
      (decoder bgr kAlpha vFirst).outputChannels = x := by
    rw [Nat.mul_add_div (decoder bgr kAlpha vFirst).outputChannels_pos, Nat.div_eq_of_lt hchannels,
      Nat.add_zero]
  simp only [YuvpToRgbxOrBgrx.decoded, hdiv, Nat.mul_add_mod, Nat.mod_eq_of_lt hchannels, id,
    Yuv420XToRgbxOrBgrx.pixel, Yuv420XToRgbxOrBgrx.channel, show k ≠ 3 by omega, if_false]
  rfl

/-- The decoder's rows are those of the encoder, if the size of the image is even. -/
theorem place_eq_decoder (hwidth : width % 2 = 0) (hheight : height % 2 = 0) (i j : ℕ) :
    (place buf stride width height vFirst (chroma vFirst i j) : ℤ) =
        YuvpToRgbxOrBgrx.uAt buf stride width height i j ∧
      (place buf stride width height vFirst (chroma (!vFirst) i j) : ℤ) =
        YuvpToRgbxOrBgrx.vAt buf stride width height i j := by
  have hhalf : (width + 1) / 2 = width / 2 := by omega
  have hrow : 2 * i / 4 = i / 2 ∧ 2 * i / 2 % 2 = i % 2 := by omega
  constructor
  · simp only [place, if_true, hrow, hhalf, YuvpToRgbxOrBgrx.uAt, YuvpToRgbxOrBgrx.chromaRow,
      YuvpToRgbxOrBgrx.uvStrides, Matrix.cons_val_zero]
    push_cast
    ring
  · simp only [place, Bool.not_eq_eq_eq_not, Bool.eq_not_self, if_false, RgbxOrBgrxToYuv420.vRow,
      hhalf, YuvpToRgbxOrBgrx.vAt, YuvpToRgbxOrBgrx.vPlane, YuvpToRgbxOrBgrx.chromaRow,
      YuvpToRgbxOrBgrx.vPhase]
    obtain ⟨q, hq⟩ : ∃ q, height = 4 * q ∨ height = 4 * q + 2 := ⟨height / 4, by omega⟩
    obtain ⟨t, ht⟩ : ∃ t, i = 2 * t ∨ i = 2 * t + 1 := ⟨i / 2, by omega⟩
    -- The second plane starts with a whole row, or in the middle of one.
    rcases hq with rfl | rfl
    · rw [if_neg (by omega), show (2 * i + 4 * q + 1) / 4 = q + i / 2 by omega,
        show (2 * i + 4 * q + 1) / 2 % 2 = i % 2 by omega, show 4 * q / 4 = q by omega,
        show 4 * q % 4 / 2 = 0 by omega]
      simp only [YuvpToRgbxOrBgrx.uvStrides, Matrix.cons_val_zero]
      push_cast
      ring
    · rw [if_pos (by omega), show (4 * q + 2) / 4 = q by omega, show (4 * q + 2) % 4 / 2 = 1 by omega]
      simp only [YuvpToRgbxOrBgrx.uvStrides, Matrix.cons_val_one, Matrix.cons_val_zero]
      rcases ht with rfl | rfl
      · rw [show (2 * (2 * t) + (4 * q + 2) + 1) / 4 = q + t by omega,
          show (2 * (2 * t) + (4 * q + 2) + 1) / 2 % 2 = 1 by omega, show 2 * t / 2 = t by omega,
          show 2 * t % 2 = 0 by omega]
        push_cast
        ring
      · rw [show (2 * (2 * t + 1) + (4 * q + 2) + 1) / 4 = q + t + 1 by omega,
          show (2 * (2 * t + 1) + (4 * q + 2) + 1) / 2 % 2 = 0 by omega,
          show (2 * t + 1) / 2 = t by omega, show (2 * t + 1) % 2 = 1 by omega]
        push_cast
        ring

/-- The chroma rows of both planes, packed two to a stride. -/
theorem place_packed (buf stride : ℕ) (vFirst : Bool) (hwidth : width % 2 = 0) (hheight : height % 2 = 0) (isV : Bool) (i j : ℕ) :
    ∃ r, r = (if isV = vFirst then i else height / 2 + i) ∧
      place buf stride width height vFirst (chroma isV i j) =
        buf + stride * height + (r / 2 * stride + (r % 2 * (width / 2) + j)) := by
  refine ⟨_, rfl, ?_⟩
  have hhalf : (width + 1) / 2 = width / 2 := by omega
  simp only [place, hhalf]
  split
  · rw [show 2 * i / 4 = i / 2 by omega, show 2 * i / 2 % 2 = i % 2 by omega]
    ring
  · simp only [RgbxOrBgrxToYuv420.vRow, hhalf]
    rw [show (2 * i + height + 1) / 4 = (height / 2 + i) / 2 by omega,
      show (2 * i + height + 1) / 2 % 2 = (height / 2 + i) % 2 by omega]
    ring

theorem checks_ok_iff : rgbToYuv420pChecks src srcStride buf stride width height = .ok ↔
    src ≠ 0 ∧ buf ≠ 0 ∧ width * height ≤ kleidicvMaxImagePixels := by
  rw [← checkImageSize_iff]
  unfold rgbToYuv420pChecks checkPointerAndStride
  split_ifs <;> simp_all

/-- The encoder's places, where the decoder reads its samples there. -/
theorem layoutsAgreeOn_place
    (haccept : rgbToYuv420pChecks src srcStride buf stride width height = .ok)
    (hinj : Set.InjOn (place buf stride width height vFirst) (ofImage width height))
    (hplane : ∀ s ∈ ofImage width height,
      InPlane buf stride height (place buf stride width height vFirst s) s)
    (hchroma : ∀ i, 2 * i < height → ∀ j, 2 * j < width →
      (place buf stride width height vFirst (chroma vFirst i j) : ℤ) =
          YuvpToRgbxOrBgrx.uAt buf stride width height i j ∧
        (place buf stride width height vFirst (chroma (!vFirst) i j) : ℤ) =
          YuvpToRgbxOrBgrx.vAt buf stride width height i j) :
    LayoutsAgreeOn src srcStride buf stride width height vFirst
      (place buf stride width height vFirst) := by
  obtain ⟨-, hbuf, hsize⟩ := checks_ok_iff.mp haccept
  refine ⟨hinj, hplane, fun l hl m => ?_, ?_⟩
  · rw [← value_names]
    exact RgbxOrBgrxToYuv420.rgbToYuv420pStripes_wrote
      (show encoder.kInterleave = false from rfl) rfl haccept hinj hl m
  · intro bgr kAlpha rows hptr hrows l hl m row hrow x hx k hk
    rw [decoder_reads hbuf hsize bgr kAlpha hptr hrows hl m hrow hx hk]
    have hluma : (place buf stride width height vFirst (luma row x) : ℤ) =
        YuvpToRgbxOrBgrx.lumaAt buf stride row x := by
      simp only [place, YuvpToRgbxOrBgrx.lumaAt]
      push_cast
      rfl
    obtain ⟨hu, hv⟩ := hchroma (row / 2) (by omega) (x / 2) (by omega)
    rw [hluma, ← hu, ← hv]
    cases vFirst with
    | false => rfl
    | true => rfl

/-- The samples of an image of even size, with rows that do not overlap, do not share
bytes. -/
theorem place_injOn (hwidth : width % 2 = 0) (hheight : height % 2 = 0) (hstride : width ≤ stride) :
    Set.InjOn (place buf stride width height vFirst) (ofImage width height) := by
  have hafter : ∀ row column isV i j, row < height → column < width →
      place buf stride width height vFirst (luma row column) <
        place buf stride width height vFirst (chroma isV i j) := by
    intro row column isV i j hrow hcolumn
    obtain ⟨r, -, hr⟩ := place_packed buf stride vFirst hwidth
      hheight isV i j
    have hfit := Nat.mul_le_mul_left stride (Nat.succ_le_of_lt hrow)
    rw [Nat.mul_succ] at hfit
    rw [hr]
    simp only [place]
    omega
  rintro (⟨row, column⟩ | ⟨isV, i, j⟩) hs (⟨row', column'⟩ | ⟨isV', i', j'⟩) ht heq
  · simp only [place, Nat.add_assoc, Nat.add_left_cancel_iff] at heq
    have hpair := eq_of_row_major hstride (p := (row, column)) (q := (row', column')) hs.2 ht.2
      (by rw [Nat.mul_comm row, Nat.mul_comm row']; exact heq)
    simp only [Prod.mk.injEq] at hpair
    rw [hpair.1, hpair.2]
  · exact absurd heq (hafter _ _ _ _ _ hs.1 hs.2).ne
  · exact absurd heq (hafter _ _ _ _ _ ht.1 ht.2).ne'
  · obtain ⟨hi, hj⟩ := hs
    obtain ⟨hi', hj'⟩ := ht
    obtain ⟨r, hr, hplace⟩ := place_packed buf stride vFirst hwidth
      hheight isV i j
    obtain ⟨r', hr', hplace'⟩ := place_packed buf stride vFirst
      hwidth hheight isV' i' j'
    rw [hplace, hplace'] at heq
    -- Two packed rows of half the width have a row of the buffer to themselves.
    have hoffset : ∀ r j, 2 * j < width → r % 2 * (width / 2) + j < width := by
      intro r j hj
      rcases Nat.mod_two_eq_zero_or_one r with h | h
      · rw [h]
        omega
      · rw [h]
        omega
    have hpair := eq_of_row_major hstride (p := (r / 2, r % 2 * (width / 2) + j))
      (q := (r' / 2, r' % 2 * (width / 2) + j')) (hoffset r j hj) (hoffset r' j' hj') (by
        exact Nat.add_left_cancel heq)
    simp only [Prod.mk.injEq] at hpair
    have hhalf := eq_of_row_major (le_refl (width / 2)) (p := (r % 2, j)) (q := (r' % 2, j'))
      (by simp only; omega) (by simp only; omega) hpair.2
    simp only [Prod.mk.injEq] at hhalf
    have hrows : r = r' := by omega
    rw [hr, hr'] at hrows
    have hplane : isV = isV' := by
      by_contra hne
      split at hrows <;> split at hrows
      · exact hne (by simp_all)
      · omega
      · omega
      · exact hne (by revert hne; cases isV <;> cases isV' <;> cases vFirst <;> simp_all)
    subst hplane
    have hi : i = i' := by
      split at hrows <;> omega
    rw [hi, hhalf.2]

/-- The places in the planes of an image of even size. -/
theorem place_inPlane (hwidth : width % 2 = 0) (hheight : height % 2 = 0) (hstride : width ≤ stride) :
    ∀ s ∈ ofImage width height,
      InPlane buf stride height (place buf stride width height vFirst s) s := by
  rintro (⟨row, column⟩ | ⟨isV, i, j⟩) hs
  · rfl
  · obtain ⟨hi, hj⟩ := hs
    obtain ⟨r, hr, hplace⟩ := place_packed buf stride vFirst hwidth
      hheight isV i j
    rw [InPlane, hplace]
    refine ⟨Nat.le_add_right _ _, ?_⟩
    have hlast : r < height := by
      split at hr <;> omega
    have hrows : stride * height + r / 2 * stride + stride ≤ stride * ((height * 3 + 1) / 2) := by
      have hle := Nat.mul_le_mul_left stride (show height + r / 2 + 1 ≤ (height * 3 + 1) / 2 by omega)
      rw [Nat.mul_add, Nat.mul_add, Nat.mul_one, Nat.mul_comm stride (r / 2)] at hle
      exact hle
    have hoffset : r % 2 * (width / 2) + j < width := by
      rcases Nat.mod_two_eq_zero_or_one r with h | h
      · rw [h]
        omega
      · rw [h]
        omega
    omega

/-- The decoder has a place for every sample of an image of even size only. -/
theorem even_of_layoutsAgreeOn (hbuf : buf ≠ 0) (hsize : width * height ≤ kleidicvMaxImagePixels)
    (hw : 0 < width) (hh : 0 < height) {place : Yuv420Sample → ℕ}
    (h : LayoutsAgreeOn src srcStride buf stride width height vFirst place) :
    width % 2 = 0 ∧ height % 2 = 0 ∧ width ≤ stride := by
  -- What the decoder reads is at the place of a sample.
  let rows : Rows := ⟨1, (decoder false false vFirst).outputChannels * width, 1⟩
  have hinj : Set.InjOn rows.address
      {p | p.1 < height ∧ p.2 < (decoder false false vFirst).outputChannels * width} :=
    (Rows.address_injOn le_rfl).mono fun _ hp => hp.2
  have hreads : ∀ row < height, ∀ x < width,
      ((place (luma row x) : ℤ), (place (chroma false (row / 2) (x / 2)) : ℤ),
        (place (chroma true (row / 2) (x / 2)) : ℤ)) =
      (YuvpToRgbxOrBgrx.lumaAt buf stride row x,
        (decoder false false vFirst).swapPlanes
          (YuvpToRgbxOrBgrx.uAt buf stride width height (row / 2) (x / 2))
          (YuvpToRgbxOrBgrx.vAt buf stride width height (row / 2) (x / 2))) := by
    intro row hrow x hx
    rw [← h.decodes false false rows one_ne_zero hinj _ (IsPartition.whole _) (fun _ => (0, 0, 0)) row
      hrow x hx 0 (by decide)]
    exact decoder_reads hbuf hsize false false one_ne_zero hinj (IsPartition.whole _) _ hrow hx
      (by decide)
  have hluma : ∀ row < height, ∀ x < width,
      (place (luma row x) : ℤ) = YuvpToRgbxOrBgrx.lumaAt buf stride row x := fun row hrow x hx =>
    congrArg Prod.fst (hreads row hrow x hx)
  have hplanes : ∀ i, 2 * i < height → ∀ j, 2 * j < width →
      (place (chroma vFirst i j) : ℤ) = YuvpToRgbxOrBgrx.uAt buf stride width height i j ∧
        (place (chroma (!vFirst) i j) : ℤ) = YuvpToRgbxOrBgrx.vAt buf stride width height i j := by
    intro i hi j hj
    have hpair := congrArg Prod.snd (hreads (2 * i) hi (2 * j) hj)
    simp only [Nat.mul_div_cancel_left _ Nat.two_pos] at hpair
    cases vFirst with
    | false => exact ⟨congrArg Prod.fst hpair, congrArg Prod.snd hpair⟩
    | true => exact ⟨congrArg Prod.snd hpair, congrArg Prod.fst hpair⟩
  -- Two samples at one address are one sample.
  have hone : ∀ {s t : Yuv420Sample}, s ∈ ofImage width height → t ∈ ofImage width height →
      (place s : ℤ) = place t → s = t := fun hs ht heq => h.injOn hs ht (by exact_mod_cast heq)
  have hcross : ∀ i i' j j', 2 * i < height → 2 * i' < height → 2 * j < width → 2 * j' < width →
      YuvpToRgbxOrBgrx.uAt buf stride width height i j ≠
        YuvpToRgbxOrBgrx.vAt buf stride width height i' j' := by
    intro i i' j j' hi hi' hj hj' heq
    rw [← (hplanes i hi j hj).1, ← (hplanes i' hi' j' hj').2] at heq
    have hsame := hone (s := chroma vFirst i j) (t := chroma (!vFirst) i' j') ⟨hi, hj⟩ ⟨hi', hj'⟩ heq
    simp at hsame
  have heven : height % 2 = 0 := by
    by_contra hodd
    -- The second plane starts where the last row of the first one does.
    refine hcross ((height - 1) / 2) 0 0 0 (by omega) (by omega) (by omega) (by omega) ?_
    obtain ⟨q, rfl | rfl⟩ : ∃ q, height = 4 * q + 1 ∨ height = 4 * q + 3 := ⟨height / 4, by omega⟩
    · simp only [YuvpToRgbxOrBgrx.uAt, YuvpToRgbxOrBgrx.vAt, YuvpToRgbxOrBgrx.vPlane,
        YuvpToRgbxOrBgrx.chromaRow]
      rw [show (4 * q + 1 - 1) / 2 / 2 = q by omega, show (4 * q + 1 - 1) / 2 % 2 = 0 by omega,
        show (4 * q + 1) / 4 = q by omega, show (4 * q + 1) % 4 / 2 = 0 by omega]
      push_cast
      ring
    · simp only [YuvpToRgbxOrBgrx.uAt, YuvpToRgbxOrBgrx.vAt, YuvpToRgbxOrBgrx.vPlane,
        YuvpToRgbxOrBgrx.chromaRow, YuvpToRgbxOrBgrx.uvStrides, Matrix.cons_val_zero]
      rw [show (4 * q + 3 - 1) / 2 / 2 = q by omega, show (4 * q + 3 - 1) / 2 % 2 = 1 by omega,
        show (4 * q + 3) / 4 = q by omega, show (4 * q + 3) % 4 / 2 = 1 by omega]
      push_cast
      ring
  have hwidth : width % 2 = 0 := by
    by_contra hodd
    -- The last sample of a row is the first one of the next row, which may be in the other plane.
    rcases Nat.lt_or_ge height 4 with hlow | hhigh
    · obtain rfl : height = 2 := by omega
      refine hcross 0 0 (width / 2) 0 (by omega) (by omega) (by omega) (by omega) ?_
      simp only [YuvpToRgbxOrBgrx.uAt, YuvpToRgbxOrBgrx.vAt, YuvpToRgbxOrBgrx.vPlane,
        YuvpToRgbxOrBgrx.chromaRow]
      norm_num
    · have hsame := hone (s := chroma vFirst 0 (width / 2)) (t := chroma vFirst 1 0)
        ⟨by omega, by omega⟩ ⟨by omega, by omega⟩ (by
          rw [(hplanes 0 (by omega) (width / 2) (by omega)).1, (hplanes 1 (by omega) 0 (by omega)).1]
          simp only [YuvpToRgbxOrBgrx.uAt, YuvpToRgbxOrBgrx.chromaRow, YuvpToRgbxOrBgrx.uvStrides,
            Matrix.cons_val_zero]
          norm_num)
      simp at hsame
  refine ⟨hwidth, heven, ?_⟩
  by_contra hstride
  have hsame := hone (s := luma 0 stride) (t := luma 1 0) ⟨hh, by omega⟩ ⟨by omega, hw⟩ (by
    rw [hluma 0 hh stride (by omega), hluma 1 (by omega) 0 hw, YuvpToRgbxOrBgrx.lumaAt,
      YuvpToRgbxOrBgrx.lumaAt]
    push_cast
    ring)
  simp at hsame

/-- **The layouts agree exactly on images of even size**, with rows that do not overlap;
an image without pixels has no samples. -/
theorem layouts_agree_iff
    (haccept : rgbToYuv420pChecks src srcStride buf stride width height = .ok) :
    (∃ place, LayoutsAgreeOn src srcStride buf stride width height vFirst place) ↔
      width = 0 ∨ height = 0 ∨ (width % 2 = 0 ∧ height % 2 = 0 ∧ width ≤ stride) := by
  obtain ⟨-, hbuf, hsize⟩ := checks_ok_iff.mp haccept
  constructor
  · rintro ⟨place, hplace⟩
    rcases Nat.eq_zero_or_pos width with hw | hw
    · exact .inl hw
    rcases Nat.eq_zero_or_pos height with hh | hh
    · exact .inr (.inl hh)
    exact .inr (.inr (even_of_layoutsAgreeOn hbuf hsize hw hh hplace))
  · intro h
    have hempty : width = 0 ∨ height = 0 → ofImage width height = ∅ := by
      rintro h
      refine Set.eq_empty_of_forall_notMem ?_
      rintro (⟨row, column⟩ | ⟨isV, i, j⟩) hs
      · obtain ⟨h1, h2⟩ := hs
        omega
      · obtain ⟨h1, h2⟩ := hs
        omega
    have hnone : width = 0 ∨ height = 0 → LayoutsAgreeOn src srcStride buf stride width height vFirst
        (place buf stride width height vFirst) := by
      intro h
      refine layoutsAgreeOn_place haccept ?_ ?_ fun i hi j hj => by omega
      · rw [hempty h]
        exact Set.injOn_empty _
      · rw [hempty h]
        exact fun s hs => absurd hs (Set.notMem_empty s)
    rcases h with h | h | ⟨hwidth, hheight, hstride⟩
    · exact ⟨_, hnone (.inl h)⟩
    · exact ⟨_, hnone (.inr h)⟩
    · exact ⟨_, layoutsAgreeOn_place haccept (place_injOn hwidth hheight hstride)
        (place_inPlane hwidth hheight hstride) fun i _ j _ => place_eq_decoder hwidth hheight i j⟩

/-- An image of four by two pixels, in rows of eight bytes. -/
theorem layouts_agree_iff_small :
    ∃ place, LayoutsAgreeOn 1 4 1 8 4 2 false place :=
  (layouts_agree_iff (by decide)).mpr (.inr (.inr (by decide)))

/-- **An image of two by three pixels.**  The decoder's second plane starts at the last
row of its first one. -/
theorem layouts_disagree_odd_height :
    rgbToYuv420pChecks 1 6 1 2 2 3 = .ok ∧
      YuvpToRgbxOrBgrx.checks 1 2 1 6 2 3 = .ok ∧
      YuvpToRgbxOrBgrx.uAt 1 2 2 3 1 0 = YuvpToRgbxOrBgrx.vAt 1 2 2 3 0 0 ∧
      ¬ ∃ place, LayoutsAgreeOn 1 6 1 2 2 3 false place := by
  refine ⟨by decide, by decide, by decide, ?_⟩
  rintro ⟨place, hplace⟩
  have heven := (even_of_layoutsAgreeOn (by decide) (by decide) (by decide) (by decide) hplace).2.1
  omega

end

end Yuv420Layout

end KleidiCV
