/-
The pixels that `remap_s16` and `remap_s16point5` write.

An entry of the maps is a point, in steps of 1/32 of a pixel.  The reference interpolates
between the four pixels around it, of the source extended to all integers.

* `SameMix` — two samples of a line and their weights, told from other ones;
* `reference` — the interpolation; `reference_eq_clamped` for a clamped point;
* `remap_correct` — the calls write it.
-/
import KleidiCV.Lib.Extension
import KleidiCV.Remap

namespace KleidiCV

namespace Remap

/-! ### Samples along a line -/

/-- Two samples, weighted by a fraction in 1/32, are the same sum as two others. -/
def SameMix (f i j f' i' j' : ℕ) : Prop :=
  ∀ g : ℕ → ℕ, (32 - f) * g i + f * g j = (32 - f') * g i' + f' * g j'

/-- Both lines of an interpolation. -/
theorem SameMix.interpolated {f i j f' i' j' q k l q' k' l' : ℕ} (hx : SameMix f i j f' i' j')
    (hy : SameMix q k l q' k' l') (g : ℕ → ℕ → ℕ) :
    interpolated f q (g i k) (g j k) (g i l) (g j l) =
      Remap.interpolated f' q' (g i' k') (g j' k') (g i' l') (g j' l') := by
  have hrow := hy fun row => (32 - f') * g i' row + f' * g j' row
  rw [interpolated_eq, interpolated_eq, hx fun column => g column k, hx fun column => g column l,
    Nat.add_assoc, Nat.add_assoc, Nat.mul_comm _ (32 - q), Nat.mul_comm _ q, hrow,
    Nat.mul_comm (32 - q'), Nat.mul_comm q']

/-- All the weight is on one sample. -/
theorem SameMix.of_zero {i j f' i' j' : ℕ} (hf : f' ≤ 32) (hi : i = i') (hj : i = j') :
    SameMix 0 i j f' i' j' := by
  intro g
  rw [← hi, ← hj, ← Nat.add_mul, Nat.sub_add_cancel hf, Nat.zero_mul, Nat.add_zero]

/-- Both samples are the same. -/
theorem SameMix.of_eq {f i f' i' j' : ℕ} (hf : f ≤ 32) (hf' : f' ≤ 32) (hi : i = i') (hj : i = j') :
    SameMix f i i f' i' j' := by
  intro g
  rw [← hi, ← hj, ← Nat.add_mul, ← Nat.add_mul, Nat.sub_add_cancel hf, Nat.sub_add_cancel hf']

theorem SameMix.of_samples {f i j i' j' : ℕ} (hi : i = i') (hj : j = j') : SameMix f i j f i' j' := by
  subst hi hj
  exact fun _ => rfl

section

variable {n f : ℕ}

/-- The coordinates of a replicating kernel, and those of the extension.  Below the source
the weight of the second is zero, beyond the last pixel they are the same; in between the
kernel has the two neighbours. -/
theorem sameMix_replicate (h0 : 0 < n) (h : n ≤ 32768) (hf : f ≤ 32) {x limit : BitVec 16}
    (hlimit : limit = x ∨ limit = clamped x (BitVec.ofNat 16 (sizeSub n 1)))
    {read : BitVec 16 → BitVec 16} (hread : ∀ z, z.toNat < n → read z = z) :
    SameMix (zeroBelow x f) (read (clamped x (BitVec.ofNat 16 (sizeSub n 1)))).toNat
      (read (nextUnless (clamped x (BitVec.ofNat 16 (sizeSub n 1))) limit
        (BitVec.ofNat 16 (sizeSub n 1)))).toNat
      f (Extension.edge.index n x.toInt).toNat (Extension.edge.index n (x.toInt + 1)).toNat := by
  have hclamped := clamped_toNat h0 h x
  have hnext := nextUnless_toNat h0 h x limit
  have hlimitInt : 0 ≤ x.toInt → (limit.toInt < (n : ℤ) - 1 ↔ x.toInt < (n : ℤ) - 1) := by
    intro hx
    rcases hlimit with hlimit | hlimit
    · rw [hlimit]
    · rw [hlimit]
      rcases toInt_cases (clamped x (BitVec.ofNat 16 (sizeSub n 1))) with ⟨h1, h2⟩ | ⟨h1, h2⟩
      · omega
      · omega
  rw [hread _ (clamped_lt h0 h x)]
  simp only [Extension.index]
  by_cases hneg : x.toInt < 0
  · have hzero : zeroBelow x f = 0 := by
      rw [zeroBelow, if_pos]
      exact BitVec.slt_iff_toInt_lt.mpr hneg
    rw [hzero]
    exact .of_zero hf (by omega) (by omega)
  · have hfrac : zeroBelow x f = f := by
      rw [zeroBelow, if_neg]
      exact fun hslt => hneg (BitVec.slt_iff_toInt_lt.mp hslt)
    specialize hlimitInt (by omega)
    rw [hfrac]
    by_cases hlast : x.toInt < (n : ℤ) - 1
    · rw [if_pos (hlimitInt.mpr hlast)] at hnext
      rw [hread _ (by omega), hnext]
      exact .of_samples (by omega) (by omega)
    · rw [if_neg (fun hlt => hlast (hlimitInt.mp hlt)), Nat.add_zero] at hnext
      rw [hread _ (by rw [hnext]; exact clamped_lt h0 h x), hnext]
      exact .of_eq hf hf (by omega) (by omega)

/-- A point of a line of `n` pixels, in 1/32, clamped to the line. -/
def clampedPoint (n : ℕ) (x : ℤ) (f : ℕ) : ℤ := max 0 (min (32 * x + f) (32 * (n - 1)))

/-- The pixels of the extension around a point, and around the clamped point. -/
theorem sameMix_clampedPoint (h0 : 0 < n) (hf : f < 32) (x : ℤ) :
    SameMix f (Extension.edge.index n x).toNat (Extension.edge.index n (x + 1)).toNat
      (clampedPoint n x f % 32).toNat (Extension.edge.index n (clampedPoint n x f / 32)).toNat
      (Extension.edge.index n (clampedPoint n x f / 32 + 1)).toNat := by
  simp only [Extension.index]
  by_cases hneg : x < 0
  · have hpoint : clampedPoint n x f = 0 := by
      rw [clampedPoint]
      omega
    have hfirst : (max 0 (min ((n : ℤ) - 1) x)).toNat = (max 0 (min ((n : ℤ) - 1) (x + 1))).toNat := by
      omega
    rw [hpoint, hfirst]
    intro g
    have hzero : (max 0 (min ((n : ℤ) - 1) (x + 1))).toNat = 0 := by omega
    have hzero' : (max 0 (min ((n : ℤ) - 1) (0 / 32))).toNat = 0 := by omega
    have hfrac : ((0 : ℤ) % 32).toNat = 0 := rfl
    rw [hzero, hzero', hfrac, ← Nat.add_mul, Nat.sub_add_cancel hf.le, Nat.zero_mul, Nat.add_zero]
  · by_cases hlast : x < (n : ℤ) - 1
    · have hpoint : clampedPoint n x f = 32 * x + f := by
        rw [clampedPoint]
        omega
      have hdiv : clampedPoint n x f / 32 = x := by omega
      have hmod : (clampedPoint n x f % 32).toNat = f := by omega
      rw [hdiv, hmod]
      exact .of_samples rfl rfl
    · have hpoint : clampedPoint n x f = 32 * ((n : ℤ) - 1) := by
        rw [clampedPoint]
        omega
      have hdiv : clampedPoint n x f / 32 = (n : ℤ) - 1 := by omega
      have hmod : (clampedPoint n x f % 32).toNat = 0 := by omega
      have hnext : (max 0 (min ((n : ℤ) - 1) (x + 1))).toNat = (max 0 (min ((n : ℤ) - 1) x)).toNat := by
        omega
      rw [hdiv, hmod, hnext]
      exact .of_eq hf.le (by omega) (by omega) (by omega)

end

theorem readLine_of_lt (h0 : 0 < n) (h : n ≤ 32768) {z : BitVec 16} (hz : z.toNat < n) :
    (let low := if (0 : BitVec 16).slt z then z else 0
      if low.ult (BitVec.ofNat 16 (sizeSub n 1)) then low else BitVec.ofNat 16 (sizeSub n 1)) = z := by
  have hmax := max_toNat h0 h
  have hlow : (if (0 : BitVec 16).slt z then z else 0) = z := by
    split
    next => rfl
    next hnot =>
      have hzero : (0 : BitVec 16).toInt = 0 := rfl
      rw [BitVec.slt_iff_toInt_lt, hzero] at hnot
      refine BitVec.eq_of_toNat_eq (Eq.trans (b := 0) rfl ?_)
      rcases toInt_cases z with ⟨hz, hzi⟩ | ⟨hz, hzi⟩
      · omega
      · omega
  simp only [hlow]
  split
  next => rfl
  next hnot =>
    rw [BitVec.ult_iff_lt, BitVec.lt_def] at hnot
    exact BitVec.eq_of_toNat_eq (by omega)

/-! ### Coordinates of a constant border -/

theorem toInt_lt (x : BitVec 16) : -32768 ≤ x.toInt ∧ x.toInt + 1 ≤ 32768 := by
  have := x.isLt
  rcases toInt_cases x with ⟨hx, hxi⟩ | ⟨hx, hxi⟩
  · omega
  · omega

/-- An integer is inside the source if its 16 bits are, without a sign. -/
theorem ult_ofInt {n : ℕ} (h : n ≤ 32768) {i : ℤ} (hlow : -32768 ≤ i) (hhigh : i ≤ 32768) :
    (BitVec.ofInt 16 i).ult (BitVec.ofNat 16 n) ↔ 0 ≤ i ∧ i < n := by
  have hn : (BitVec.ofNat 16 n).toNat = n := by
    rw [BitVec.toNat_ofNat]
    omega
  rw [BitVec.ult_iff_lt, BitVec.lt_def, hn, BitVec.toNat_ofInt]
  omega

theorem ofInt_toNat {i : ℤ} (hlow : 0 ≤ i) (hhigh : i ≤ 32768) :
    (BitVec.ofInt 16 i).toNat = i.toNat := by
  rw [BitVec.toNat_ofInt]
  omega

theorem add_one_eq_ofInt (x : BitVec 16) : x + 1 = BitVec.ofInt 16 (x.toInt + 1) := by
  rw [BitVec.ofInt_add, BitVec.ofInt_toInt]
  rfl

end Remap

/-! ### The reference -/

namespace RemapCall

open Remap

variable {t : RemapType} (c : RemapCall t.bits)

/-- A channel of a pixel of the source. -/
def sourcePixel (x y channel : ℕ) : BitVec t.bits :=
  c.source (c.src + (c.channels * x + y * (c.srcStride / t.size) + channel))

/-- The source, extended to all integers. -/
def extended (x y : ℤ) (channel : ℕ) : BitVec t.bits :=
  if c.borderType = .constant then
    if (0 ≤ x ∧ x < c.srcWidth) ∧ 0 ≤ y ∧ y < c.srcHeight then
      c.sourcePixel x.toNat y.toNat channel
    else c.border channel
  else c.sourcePixel (Extension.edge.index c.srcWidth x).toNat
    (Extension.edge.index c.srcHeight y).toNat channel

/-- The four pixels from a point on, weighted by fractions in 1/32 and rounded. -/
def interpolation (x y : ℤ) (xfrac yfrac channel : ℕ) : ℕ :=
  interpolated xfrac yfrac (c.extended x y channel).toNat (c.extended (x + 1) y channel).toNat
    (c.extended x (y + 1) channel).toNat (c.extended (x + 1) (y + 1) channel).toNat

/-- A channel of the destination, for an entry of the maps. -/
def reference (e : MapEntry) (channel : ℕ) : ℕ :=
  c.interpolation e.x.toInt e.y.toInt (xFractionOf e) (yFractionOf e) channel

/-- The same at a point that was clamped to the source. -/
def clampedReference (e : MapEntry) (channel : ℕ) : ℕ :=
  c.interpolation (clampedPoint c.srcWidth e.x.toInt (xFractionOf e) / 32)
    (clampedPoint c.srcHeight e.y.toInt (yFractionOf e) / 32)
    (clampedPoint c.srcWidth e.x.toInt (xFractionOf e) % 32).toNat
    (clampedPoint c.srcHeight e.y.toInt (yFractionOf e) % 32).toNat channel

variable {c}

theorem xFractionOf_lt (e : MapEntry) : xFractionOf e < 32 := Nat.mod_lt _ (by decide)

theorem yFractionOf_lt (e : MapEntry) : yFractionOf e < 32 := Nat.mod_lt _ (by decide)

/-- Nothing is lost in the reference. -/
theorem reference_lt (e : MapEntry) (channel : ℕ) : c.reference e channel < 2 ^ t.bits := by
  have hpos : 0 < 2 ^ t.bits := Nat.two_pow_pos _
  have hle : ∀ x : BitVec t.bits, x.toNat ≤ 2 ^ t.bits - 1 := fun x => Nat.le_sub_one_of_lt x.isLt
  have h := interpolated_le (xFractionOf_lt e).le (yFractionOf_lt e).le
    (hle (c.extended e.x.toInt e.y.toInt channel))
    (hle (c.extended (e.x.toInt + 1) e.y.toInt channel))
    (hle (c.extended e.x.toInt (e.y.toInt + 1) channel))
    (hle (c.extended (e.x.toInt + 1) (e.y.toInt + 1) channel))
  rw [reference, interpolation]
  omega

/-- **With replicated borders, the point may be clamped first.** -/
theorem reference_eq_clamped (hw : 0 < c.srcWidth) (hh : 0 < c.srcHeight)
    (hreplicate : c.borderType ≠ .constant) (e : MapEntry) (channel : ℕ) :
    c.reference e channel = c.clampedReference e channel := by
  simp only [reference, clampedReference, interpolation, extended, if_neg hreplicate]
  exact (sameMix_clampedPoint hw (xFractionOf_lt e) _).interpolated
    (sameMix_clampedPoint hh (yFractionOf_lt e) _) fun x y => (c.sourcePixel x y channel).toNat

/-! ### The kernels compute the reference -/

variable {channels : ℕ}

theorem sourceAt_eq (h : c.Accepted channels) (x y : BitVec 16) (channel : ℕ) :
    Remap.sourceAt channels c.srcRows (c.elementStride t.size) x y channel =
      c.sourcePixel x.toNat y.toNat channel := by
  rw [Remap.sourceAt, c.elementStride_toNat h, h.channels_eq]
  rfl

theorem sourceOrBorder_eq (h : c.Accepted channels) (hborder : c.borderType = .constant) {i j : ℤ}
    (hi : -32768 ≤ i ∧ i ≤ 32768) (hj : -32768 ≤ j ∧ j ≤ 32768) (channel : ℕ) :
    sourceOrBorder channels c.srcRows (c.elementStride t.size) c.width c.height c.border
        (BitVec.ofInt 16 i) (BitVec.ofInt 16 j) channel = c.extended i j channel := by
  simp only [sourceOrBorder, width, height, ult_ofInt h.srcWidth_le hi.1 hi.2,
    ult_ofInt h.srcHeight_le hj.1 hj.2, extended, if_pos hborder]
  split
  next hin =>
    rw [sourceAt_eq h, ofInt_toNat hin.1.1 hi.2, ofInt_toNat hin.2.1 hj.2]
  next => rfl

/-- `RemapS16Point5ConstantBorder` and `RemapS16Point5Constant4ch`. -/
theorem constantBorder_sum (h : c.Accepted channels) (hborder : c.borderType = .constant)
    (e : MapEntry) (channel : ℕ) :
    (constantBorderPoint5Sampling channels c.srcRows (c.elementStride t.size) c.width c.height
      c.border).sum e channel = c.reference e channel := by
  have hx := toInt_lt e.x
  have hy := toInt_lt e.y
  have hat := fun {i j : ℤ} (hi : i = e.x.toInt ∨ i = e.x.toInt + 1)
      (hj : j = e.y.toInt ∨ j = e.y.toInt + 1) =>
    sourceOrBorder_eq h hborder (i := i) (j := j) (by omega) (by omega) channel
  have hx0 : e.x = BitVec.ofInt 16 e.x.toInt := (BitVec.ofInt_toInt).symm
  have hy0 : e.y = BitVec.ofInt 16 e.y.toInt := (BitVec.ofInt_toInt).symm
  rw [reference, interpolation, ← hat (.inl rfl) (.inl rfl), ← hat (.inr rfl) (.inl rfl),
    ← hat (.inl rfl) (.inr rfl), ← hat (.inr rfl) (.inr rfl), ← add_one_eq_ofInt,
    ← add_one_eq_ofInt, ← hx0, ← hy0]
  rfl

/-- The kernels for replicated borders, whatever they compare and clamp. -/
theorem replicate_sum (h : c.Accepted channels) (hborder : c.borderType ≠ .constant)
    (hw : 0 < c.srcWidth) (hh : 0 < c.srcHeight) {limitX limitY : MapEntry → BitVec 16}
    (hlimitX : ∀ e, limitX e = e.x ∨ limitX e = clamped e.x c.xmax)
    (hlimitY : ∀ e, limitY e = e.y ∨ limitY e = clamped e.y c.ymax)
    {readX readY : BitVec 16 → BitVec 16} (hreadX : ∀ x, x.toNat < c.srcWidth → readX x = x)
    (hreadY : ∀ y, y.toNat < c.srcHeight → readY y = y) (e : MapEntry) (channel : ℕ) :
    (replicatePoint5Sampling channels c.srcRows (c.elementStride t.size) c.xmax c.ymax limitX limitY
      fun x y => (readX x, readY y)).sum e channel = c.reference e channel := by
  have hx := sameMix_replicate hw h.srcWidth_le (xFractionOf_lt e).le (hlimitX e) hreadX
  have hy := sameMix_replicate hh h.srcHeight_le (yFractionOf_lt e).le (hlimitY e) hreadY
  simp only [reference, interpolation, extended, if_neg hborder]
  rw [← hx.interpolated hy fun x y => (c.sourcePixel x y channel).toNat]
  simp only [Sampling.sum, replicatePoint5Sampling, sourceAt_eq h, xmax, ymax]

/-- `remap_s16point5` computes the reference. -/
theorem samplingPoint5_sum (h : c.Accepted channels) (hw : 0 < c.srcWidth) (hh : 0 < c.srcHeight)
    (e : MapEntry) (channel : ℕ) :
    (c.samplingPoint5 channels).sum e channel = c.reference e channel := by
  rw [samplingPoint5]
  split
  next hconstant => exact constantBorder_sum h hconstant e channel
  next hreplicate =>
    split
    next hone =>
      split
      next ht =>
        exact replicate_sum h hreplicate hw hh (fun _ => .inl rfl) (fun _ => .inl rfl)
          (fun _ _ => rfl) (fun _ _ => rfl) e channel
      next ht =>
        exact replicate_sum h hreplicate hw hh (fun _ => .inl rfl) (fun _ => .inl rfl)
          (fun x hx => readLine_of_lt hw h.srcWidth_le hx)
          (fun y hy => readLine_of_lt hh h.srcHeight_le hy) e channel
    next hfour =>
      exact replicate_sum h hreplicate hw hh (fun _ => .inr rfl) (fun _ => .inr rfl)
        (fun _ _ => rfl) (fun _ _ => rfl) e channel

/-- So does `remap_s16`, for entries without fractions. -/
theorem samplingS16_sum (h : c.Accepted channels) (hw : 0 < c.srcWidth) (hh : 0 < c.srcHeight)
    {e : MapEntry} (he : e.frac = 0) (channel : ℕ) :
    (c.samplingS16 channels).sum e channel = c.reference e channel := by
  have hx : xFractionOf e = 0 := by rw [xFractionOf, he]; rfl
  have hy : yFractionOf e = 0 := by rw [yFractionOf, he]; rfl
  rw [reference, hx, hy, interpolation, interpolated_zero, samplingS16]
  split
  next hconstant =>
    have hrange : ∀ x : BitVec 16, -32768 ≤ x.toInt ∧ x.toInt ≤ 32768 := by
      intro x
      have := toInt_lt x
      omega
    rw [← sourceOrBorder_eq h hconstant (hrange _) (hrange _), BitVec.ofInt_toInt, BitVec.ofInt_toInt]
    exact interpolated_zero _ _ _ _
  next hreplicate =>
    have hcolumn : (clamped e.x (BitVec.ofNat 16 (sizeSub c.srcWidth 1))).toNat =
        (max 0 (min ((c.srcWidth : ℤ) - 1) e.x.toInt)).toNat := by
      have := clamped_toNat hw h.srcWidth_le e.x
      omega
    have hrow : (clamped e.y (BitVec.ofNat 16 (sizeSub c.srcHeight 1))).toNat =
        (max 0 (min ((c.srcHeight : ℤ) - 1) e.y.toInt)).toNat := by
      have := clamped_toNat hh h.srcHeight_le e.y
      omega
    simp only [extended, if_neg hreplicate, Extension.index, Sampling.sum, replicateSampling,
      interpolated_zero, sourceAt_eq h, xmax, ymax, hcolumn, hrow]

/-! ### The destination -/

variable (c)

/-- The elements of the destination. -/
def destination : Set (ℕ × ℕ) := stripeElements (c.dstWidth * c.channels) 0 c.dstHeight

/-- An exact run that writes the reference for the entries of the maps, and nothing else,
into a destination whose elements are distinct. -/
def Remapped (entry : ℕ × ℕ → MapEntry) (m : ℕ → BitVec t.bits)
    (s : Traced Tap (ℕ → BitVec t.bits)) : Prop :=
  s.exact ∧ (Set.InjOn (c.dstRows t.size).address c.destination →
    Wrote (c.dstRows t.size).address
      (fun p => BitVec.ofNat t.bits
        (c.reference (entry (p.1, p.2 / c.channels)) (p.2 % c.channels)))
      c.destination m s.value)

variable {c} {k : Sampling t.bits channels} {entry : ℕ × ℕ → MapEntry} {m : ℕ → BitVec t.bits}
  {s : Traced Tap (ℕ → BitVec t.bits)}

theorem Follows.remapped (h : c.Accepted channels)
    (hk : ∀ p channel, k.sum (entry p) channel = c.reference (entry p) channel)
    (hs : c.Follows entry channels k m s) : c.Remapped entry m s := by
  obtain rfl := h.channels_eq
  obtain ⟨hexact, -, hwrote⟩ := hs
  refine ⟨hexact, fun hinj => (hwrote hinj).congr_value fun p _ => ?_⟩
  rw [elementValue, Sampling.value, hk]

theorem remapS16_remapped (hw : 1 ≤ c.srcWidth) (hh : 1 ≤ c.srcHeight)
    (h : (remapS16 t c m).1 = .ok) : c.Remapped c.entryS16 m (remapS16 t c m).2 := by
  obtain ⟨haccepted, hs⟩ := c.remapS16_follows h
  exact hs.remapped haccepted fun p channel => samplingS16_sum haccepted hw hh rfl channel

theorem remapS16Point5_remapped (hw : 1 ≤ c.srcWidth) (hh : 1 ≤ c.srcHeight)
    (h : (remapS16Point5 t c m).1 = .ok) :
    c.Remapped c.entryPoint5 m (remapS16Point5 t c m).2 := by
  obtain ⟨channels, haccepted, hs⟩ := c.remapS16Point5_follows h
  exact hs.remapped haccepted fun p channel => samplingPoint5_sum haccepted hw hh _ channel

/-! ### One channel and four -/

/-- The channel of an image of four channels, as an image of its own: the same maps and
borders, and the channel's elements. -/
structure IsChannel (c₁ c₄ : RemapCall t.bits) (channel : ℕ) : Prop where
  channels_one : c₁.channels = 1
  channels_four : c₄.channels = 4
  channel_lt : channel < 4
  srcWidth_eq : c₁.srcWidth = c₄.srcWidth
  srcHeight_eq : c₁.srcHeight = c₄.srcHeight
  dstWidth_eq : c₁.dstWidth = c₄.dstWidth
  dstHeight_eq : c₁.dstHeight = c₄.dstHeight
  borderType_eq : c₁.borderType = c₄.borderType
  border_eq : c₁.border 0 = c₄.border channel
  entry_eq : ∀ p ∈ pixels c₁.dstWidth c₁.dstHeight, c₁.entryPoint5 p = c₄.entryPoint5 p
  pixel_eq : ∀ x y, x < c₁.srcWidth → y < c₁.srcHeight →
    c₁.sourcePixel x y 0 = c₄.sourcePixel x y channel

variable {c₁ c₄ : RemapCall t.bits} {channel : ℕ}

theorem IsChannel.extended_eq (h : IsChannel c₁ c₄ channel) (hw : 1 ≤ c₁.srcWidth)
    (hh : 1 ≤ c₁.srcHeight) (x y : ℤ) : c₁.extended x y 0 = c₄.extended x y channel := by
  have hedge : ∀ {n : ℕ} (z : ℤ), 1 ≤ n → (Extension.edge.index n z).toNat < n := by
    intro n z hn
    simp only [Extension.index]
    omega
  rw [extended, extended, h.borderType_eq]
  split
  · rw [← h.srcWidth_eq, ← h.srcHeight_eq]
    split
    next hin => exact h.pixel_eq _ _ (by omega) (by omega)
    next => exact h.border_eq
  · rw [← h.srcWidth_eq, ← h.srcHeight_eq]
    exact h.pixel_eq _ _ (hedge x hw) (hedge y hh)

theorem IsChannel.reference_eq (h : IsChannel c₁ c₄ channel) (hw : 1 ≤ c₁.srcWidth)
    (hh : 1 ≤ c₁.srcHeight) (e : MapEntry) : c₁.reference e 0 = c₄.reference e channel := by
  simp only [reference, interpolation, h.extended_eq hw hh]

/-- Where two runs wrote, the channel of a pixel and the element of the channel's image are
the same. -/
theorem IsChannel.written_eq (h : IsChannel c₁ c₄ channel) (hw : 1 ≤ c₁.srcWidth)
    (hh : 1 ≤ c₁.srcHeight) {m₁ m₄ : ℕ → BitVec t.bits} {s₁ s₄ : Traced Tap (ℕ → BitVec t.bits)}
    (h₁ : c₁.Remapped c₁.entryPoint5 m₁ s₁) (h₄ : c₄.Remapped c₄.entryPoint5 m₄ s₄)
    (hinj₁ : Set.InjOn (c₁.dstRows t.size).address c₁.destination)
    (hinj₄ : Set.InjOn (c₄.dstRows t.size).address c₄.destination) {row column : ℕ}
    (hp : (row, column) ∈ pixels c₁.dstWidth c₁.dstHeight) :
    s₁.value ((c₁.dstRows t.size).address (row, column)) =
      s₄.value ((c₄.dstRows t.size).address (row, 4 * column + channel)) := by
  have hrow : row < c₁.dstHeight := hp.1
  have hcolumn : column < c₁.dstWidth := hp.2
  have hlt := h.channel_lt
  have hmem₁ : (row, column) ∈ c₁.destination := by
    rw [destination, h.channels_one]
    exact ⟨Nat.zero_le _, hrow, by simpa using hcolumn⟩
  have hmem₄ : (row, 4 * column + channel) ∈ c₄.destination := by
    rw [destination, h.channels_four]
    refine ⟨Nat.zero_le _, h.dstHeight_eq ▸ hrow, ?_⟩
    have := h.dstWidth_eq ▸ hcolumn
    show 4 * column + channel < c₄.dstWidth * 4
    omega
  have hdiv : (4 * column + channel) / 4 = column := by omega
  have hmod : (4 * column + channel) % 4 = channel := by omega
  rw [(h₁.2 hinj₁).value _ hmem₁, (h₄.2 hinj₄).value _ hmem₄]
  simp only [h.channels_one, h.channels_four, hdiv, hmod, Nat.div_one, Nat.mod_one]
  rw [h.reference_eq hw hh, h.entry_eq _ hp]

end RemapCall

/-- **The pixels that the calls write.**  Every element of the destination is the
interpolation of the extended source at the point of its entry, no intermediate result
overflows, with replicated borders the point may be clamped first, and the kernels for
four channels agree with those for one. -/
theorem remap_correct (t : RemapType) (c : RemapCall t.bits) (m : ℕ → BitVec t.bits)
    (hw : 1 ≤ c.srcWidth) (hh : 1 ≤ c.srcHeight) :
    ((remapS16 t c m).1 = .ok → c.Remapped c.entryS16 m (remapS16 t c m).2) ∧
    ((remapS16Point5 t c m).1 = .ok → c.Remapped c.entryPoint5 m (remapS16Point5 t c m).2) ∧
    (∀ e channel, c.reference e channel < 2 ^ t.bits ∧
      (c.borderType = .replicate → c.reference e channel = c.clampedReference e channel)) ∧
    ∀ (c₄ : RemapCall t.bits) (m₄ : ℕ → BitVec t.bits) (channel : ℕ), c.IsChannel c₄ channel →
      (remapS16Point5 t c m).1 = .ok → (remapS16Point5 t c₄ m₄).1 = .ok →
      Set.InjOn (c.dstRows t.size).address c.destination →
      Set.InjOn (c₄.dstRows t.size).address c₄.destination →
      ∀ row column, (row, column) ∈ pixels c.dstWidth c.dstHeight →
        (remapS16Point5 t c m).2.value ((c.dstRows t.size).address (row, column)) =
          (remapS16Point5 t c₄ m₄).2.value
            ((c₄.dstRows t.size).address (row, 4 * column + channel)) := by
  refine ⟨RemapCall.remapS16_remapped hw hh, RemapCall.remapS16Point5_remapped hw hh,
    fun e channel => ⟨RemapCall.reference_lt e channel, fun hreplicate => ?_⟩, ?_⟩
  · refine RemapCall.reference_eq_clamped hw hh ?_ e channel
    rw [hreplicate]
    decide
  · intro c₄ m₄ channel hchannel h h₄ hinj hinj₄ row column hp
    have hw₄ : 1 ≤ c₄.srcWidth := hchannel.srcWidth_eq ▸ hw
    have hh₄ : 1 ≤ c₄.srcHeight := hchannel.srcHeight_eq ▸ hh
    exact hchannel.written_eq hw hh (RemapCall.remapS16Point5_remapped hw hh h)
      (RemapCall.remapS16Point5_remapped hw₄ hh₄ h₄) hinj hinj₄ hp

theorem remap_correct_eight :
    RemapCall.Remapped (t := .u8) (remapEight 3 2 (-1))
      (RemapCall.entryPoint5 (t := .u8) (remapEight 3 2 (-1))) (fun _ => 0)
      (remapS16Point5 .u8 (remapEight 3 2 (-1)) fun _ => 0).2 :=
  (remap_correct .u8 (remapEight 3 2 (-1)) (fun _ => 0) (by decide) (by decide)).2.1 rfl

end KleidiCV
