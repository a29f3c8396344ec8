/-
Fixed-point interpolation of the Lucas-Kanade tracker.

A window is resampled with four weights of 14 fraction bits.  `int16_t` and `int32_t`
values are integers; `word` says where a register wraps around.

* `Coefficients.Valid` — weights between -1 and `2 ^ 14` that sum up to `2 ^ 14`;
* `lerpLane_eq` — the vector interpolation is the scalar one;
* `pixel_mem`, `scharr_mem` — the range of its results.
-/
import KleidiCV.Utils

namespace KleidiCV

/-- A number in a signed register of `w` bits. -/
def word (w : ℕ) (x : ℤ) : ℤ := x.bmod (2 ^ w)

theorem word_eq {w : ℕ} {x : ℤ} (h1 : -2 ^ (w - 1) ≤ x) (h2 : x < 2 ^ (w - 1)) (hw : 0 < w) :
    word w x = x := by
  obtain ⟨k, rfl⟩ := Nat.exists_eq_add_of_lt hw
  rw [Nat.zero_add, Nat.add_sub_cancel] at *
  refine Int.bmod_eq_of_le ?_ ?_
  · push_cast
    rw [pow_succ]
    omega
  · push_cast
    rw [pow_succ]
    omega

/-- A register holds a number of its width. -/
theorem word_mem {w : ℕ} (x : ℤ) (hw : 0 < w) :
    -2 ^ (w - 1) ≤ word w x ∧ word w x < 2 ^ (w - 1) := by
  obtain ⟨k, rfl⟩ := Nat.exists_eq_add_of_lt hw
  rw [Nat.zero_add, Nat.add_sub_cancel]
  have hpos : 0 < 2 ^ (k + 1) := by positivity
  have h1 := Int.le_bmod (x := x) hpos
  have h2 := Int.bmod_lt (x := x) hpos
  rw [word]
  generalize x.bmod (2 ^ (k + 1)) = b at *
  push_cast at h1 h2
  rw [pow_succ] at h1 h2
  constructor
  · omega
  · omega

namespace LucasKanade

/-- `kLucasKanadeAlgFractionBits`. -/
def fractionBits : ℕ := 14

/-- `round_fixed_point`. -/
def roundFixedPoint (bits : ℕ) (x : ℤ) : ℤ := (x + 2 ^ (bits - 1)) / 2 ^ bits

/-- A lane of `vqrshrn_n_s32`. -/
def vqrshrnN (shift : ℕ) (x : ℤ) : ℤ := max (-2 ^ 15) (min (2 ^ 15 - 1) (roundFixedPoint shift x))

/-- The bilinear weights of a subpixel position. -/
structure Coefficients where
  tl : ℤ
  tr : ℤ
  bl : ℤ
  br : ℤ

/-- A lane of `vmlal_s16`. -/
def vmlalLane (acc a b : ℤ) : ℤ := word 32 (acc + a * b)

/-- A lane of `lerp`. -/
def lerpLane (shift : ℕ) (c : Coefficients) (tl tr bl br : ℤ) : ℤ :=
  vqrshrnN shift (vmlalLane (vmlalLane (vmlalLane (tl * c.tl) tr c.tr) bl c.bl) br c.br)

/-- `round_fixed_point` of a weighted sum. -/
def lerpScalar (shift : ℕ) (c : Coefficients) (tl tr bl br : ℤ) : ℤ :=
  roundFixedPoint shift (tl * c.tl + tr * c.tr + bl * c.bl + br * c.br)

namespace Coefficients

/-- What `get_lerp_params` gives: the last weight may be -1 by rounding. -/
structure Valid (c : Coefficients) : Prop where
  tl_mem : -1 ≤ c.tl ∧ c.tl ≤ 2 ^ 14
  tr_mem : -1 ≤ c.tr ∧ c.tr ≤ 2 ^ 14
  bl_mem : -1 ≤ c.bl ∧ c.bl ≤ 2 ^ 14
  br_mem : -1 ≤ c.br ∧ c.br ≤ 2 ^ 14
  sum_eq : c.tl + c.tr + c.bl + c.br = 2 ^ 14

/-- The four parts of a weighted sum. -/
def sum (c : Coefficients) (tl tr bl br : ℤ) : ℤ := tl * c.tl + tr * c.tr + bl * c.bl + br * c.br

variable {c : Coefficients}

/-- At most two weights are negative. -/
theorem Valid.negatives (h : c.Valid) :
    (if c.tl < 0 then 1 else 0) + (if c.tr < 0 then 1 else 0) + (if c.bl < 0 then 1 else 0) +
      (if c.br < 0 then 1 else 0) ≤ (2 : ℤ) := by
  obtain ⟨h1, h2, h3, h4, hsum⟩ := h
  split_ifs <;> omega

/-- One part, for a value between 0 and `B`. -/
theorem part_mem {w v B : ℤ} (hw : -1 ≤ w) (h0 : 0 ≤ v) (hB : v ≤ B) :
    -(B * if w < 0 then 1 else 0) ≤ v * w ∧ v * w ≤ B * (w + if w < 0 then 1 else 0) := by
  split
  next hneg =>
    obtain rfl : w = -1 := by omega
    constructor
    · omega
    · omega
  next hpos =>
    rw [not_lt] at hpos
    rw [mul_zero, neg_zero, add_zero]
    exact ⟨mul_nonneg h0 hpos, mul_le_mul_of_nonneg_right hB hpos⟩

/-- One part, for a value between `-B` and `B`. -/
theorem part_abs {w v B : ℤ} (hw : -1 ≤ w) (h1 : -B ≤ v) (h2 : v ≤ B) :
    -(B * (w + 2 * if w < 0 then 1 else 0)) ≤ v * w ∧
      v * w ≤ B * (w + 2 * if w < 0 then 1 else 0) := by
  split
  next hneg =>
    obtain rfl : w = -1 := by omega
    constructor
    · omega
    · omega
  next hpos =>
    rw [not_lt] at hpos
    rw [mul_zero, add_zero, ← neg_mul]
    exact ⟨mul_le_mul_of_nonneg_right h1 hpos, mul_le_mul_of_nonneg_right h2 hpos⟩

/-- A weighted sum of values between -`B` and `B`. -/
theorem Valid.sum_abs (h : c.Valid) {B tl tr bl br : ℤ} (hB : 0 ≤ B) (htl : -B ≤ tl ∧ tl ≤ B)
    (htr : -B ≤ tr ∧ tr ≤ B) (hbl : -B ≤ bl ∧ bl ≤ B) (hbr : -B ≤ br ∧ br ≤ B) :
    -(B * (2 ^ 14 + 4)) ≤ c.sum tl tr bl br ∧ c.sum tl tr bl br ≤ B * (2 ^ 14 + 4) := by
  have h1 := part_abs h.tl_mem.1 htl.1 htl.2
  have h2 := part_abs h.tr_mem.1 htr.1 htr.2
  have h3 := part_abs h.bl_mem.1 hbl.1 hbl.2
  have h4 := part_abs h.br_mem.1 hbr.1 hbr.2
  have htotal := mul_le_mul_of_nonneg_left h.negatives hB
  have hsum := congrArg (B * ·) h.sum_eq
  simp only [mul_add] at h1 h2 h3 h4 htotal hsum ⊢
  rw [sum]
  constructor
  · linarith
  · linarith

/-- A weighted sum of values between 0 and `B`. -/
theorem Valid.sum_mem (h : c.Valid) {B tl tr bl br : ℤ} (hB : 0 ≤ B) (htl : 0 ≤ tl ∧ tl ≤ B)
    (htr : 0 ≤ tr ∧ tr ≤ B) (hbl : 0 ≤ bl ∧ bl ≤ B) (hbr : 0 ≤ br ∧ br ≤ B) :
    -(B * 2) ≤ c.sum tl tr bl br ∧ c.sum tl tr bl br ≤ B * (2 ^ 14 + 2) := by
  have h1 := part_mem h.tl_mem.1 htl.1 htl.2
  have h2 := part_mem h.tr_mem.1 htr.1 htr.2
  have h3 := part_mem h.bl_mem.1 hbl.1 hbl.2
  have h4 := part_mem h.br_mem.1 hbr.1 hbr.2
  have htotal := mul_le_mul_of_nonneg_left h.negatives hB
  have hsum := congrArg (B * ·) h.sum_eq
  simp only [mul_add] at h1 h2 h3 h4 htotal hsum ⊢
  rw [sum]
  constructor
  · linarith
  · linarith

end Coefficients

/-- One part of a weighted sum of values of 13 bits. -/
theorem part_lt {w v : ℤ} (hw : -1 ≤ w ∧ w ≤ 2 ^ 14) (h1 : -4080 ≤ v) (h2 : v ≤ 4080) :
    -(4080 * 2 ^ 14) ≤ v * w ∧ v * w ≤ 4080 * 2 ^ 14 := by
  have habs := Coefficients.part_abs hw.1 h1 h2
  split_ifs at habs
  · omega
  · omega

/-- **The vector interpolation is the scalar one**: nothing wraps around and nothing is
saturated. -/
theorem lerpLane_eq {shift : ℕ} {c : Coefficients} (h : c.Valid) {tl tr bl br : ℤ}
    (htl : -4080 ≤ tl ∧ tl ≤ 4080) (htr : -4080 ≤ tr ∧ tr ≤ 4080) (hbl : -4080 ≤ bl ∧ bl ≤ 4080)
    (hbr : -4080 ≤ br ∧ br ≤ 4080)
    (hfit : -2 ^ 15 ≤ lerpScalar shift c tl tr bl br ∧
      lerpScalar shift c tl tr bl br < 2 ^ 15) :
    lerpLane shift c tl tr bl br = lerpScalar shift c tl tr bl br := by
  have h1 := part_lt h.tl_mem htl.1 htl.2
  have h2 := part_lt h.tr_mem htr.1 htr.2
  have h3 := part_lt h.bl_mem hbl.1 hbl.2
  have h4 := part_lt h.br_mem hbr.1 hbr.2
  have hword : ∀ x : ℤ, -2 ^ 31 ≤ x → x < 2 ^ 31 → word 32 x = x := fun x hlo hhi =>
    word_eq hlo hhi (by decide)
  rw [lerpLane, vmlalLane, vmlalLane, vmlalLane, hword (tl * c.tl + tr * c.tr) (by omega) (by omega),
    hword (tl * c.tl + tr * c.tr + bl * c.bl) (by omega) (by omega),
    hword (tl * c.tl + tr * c.tr + bl * c.bl + br * c.br) (by omega) (by omega), vqrshrnN]
  rw [lerpScalar] at hfit ⊢
  omega

/-- A resampled pixel, with 5 fraction bits. -/
theorem pixel_mem {c : Coefficients} (h : c.Valid) {tl tr bl br : ℤ} (htl : 0 ≤ tl ∧ tl ≤ 255)
    (htr : 0 ≤ tr ∧ tr ≤ 255) (hbl : 0 ≤ bl ∧ bl ≤ 255) (hbr : 0 ≤ br ∧ br ≤ 255) :
    -1 ≤ lerpScalar 9 c tl tr bl br ∧ lerpScalar 9 c tl tr bl br ≤ 8161 := by
  have hsum := h.sum_mem (by decide) htl htr hbl hbr
  rw [Coefficients.sum] at hsum
  rw [lerpScalar, roundFixedPoint]
  omega

/-- A resampled derivative. -/
theorem scharr_mem {c : Coefficients} (h : c.Valid) {tl tr bl br : ℤ}
    (htl : -4080 ≤ tl ∧ tl ≤ 4080) (htr : -4080 ≤ tr ∧ tr ≤ 4080) (hbl : -4080 ≤ bl ∧ bl ≤ 4080)
    (hbr : -4080 ≤ br ∧ br ≤ 4080) :
    -4081 ≤ lerpScalar 14 c tl tr bl br ∧ lerpScalar 14 c tl tr bl br ≤ 4081 := by
  have hsum := h.sum_abs (by decide) htl htr hbl hbr
  rw [Coefficients.sum] at hsum
  rw [lerpScalar, roundFixedPoint]
  omega

theorem lerpLane_pixel {c : Coefficients} (h : c.Valid) {tl tr bl br : ℤ}
    (htl : 0 ≤ tl ∧ tl ≤ 255) (htr : 0 ≤ tr ∧ tr ≤ 255) (hbl : 0 ≤ bl ∧ bl ≤ 255)
    (hbr : 0 ≤ br ∧ br ≤ 255) :
    lerpLane 9 c tl tr bl br = lerpScalar 9 c tl tr bl br := by
  have hmem := pixel_mem h htl htr hbl hbr
  exact lerpLane_eq h (by omega) (by omega) (by omega) (by omega) (by omega)

theorem lerpLane_scharr {c : Coefficients} (h : c.Valid) {tl tr bl br : ℤ}
    (htl : -4080 ≤ tl ∧ tl ≤ 4080) (htr : -4080 ≤ tr ∧ tr ≤ 4080) (hbl : -4080 ≤ bl ∧ bl ≤ 4080)
    (hbr : -4080 ≤ br ∧ br ≤ 4080) :
    lerpLane 14 c tl tr bl br = lerpScalar 14 c tl tr bl br := by
  have hmem := scharr_mem h htl htr hbl hbr
  exact lerpLane_eq h htl htr hbl hbr (by omega)

/-! ### Validation -/

/-- `KLEIDICV_MAX_OPTICAL_FLOW_PYR_LK_WINDOW_SIZE`. -/
def maxWindowSize : ℤ := 2047

/-- The arguments of a level: addresses, strides in bytes and `int` sizes. -/
structure LevelArgs where
  prevData : ℕ
  prevDataStride : ℕ
  scharrData : ℕ
  scharrStrideBytes : ℕ
  nextData : ℕ
  nextStride : ℕ
  width : ℤ
  height : ℤ
  channels : ℤ
  prevPoints : ℕ
  nextPoints : ℕ
  pointCount : ℕ
  windowWidth : ℤ
  windowHeight : ℤ

/-- `validate_standalone_lucas_kanade_alg_u8_args`. -/
def validateStandaloneLucasKanadeAlgU8Args (a : LevelArgs) : KleidicvError :=
  let height := a.height.toNat
  let rowElems := a.width.toNat * a.channels.toNat
  if a.width ≤ 0 ∨ a.height ≤ 0 ∨ a.channels ≤ 0 ∨ a.windowWidth ≤ 0 ∨ a.windowHeight ≤ 0 then .range
  else if (kleidicvMaximumChannelCount : ℤ) < a.channels then .notImplemented
  else if ¬checkImageSize a.width.toNat height then .range
  else if a.prevData = 0 ∨ a.scharrData = 0 ∨ a.nextData = 0 then .nullPointer
  else if 0 < a.pointCount ∧ (a.prevPoints = 0 ∨ a.nextPoints = 0) then .nullPointer
  else if checkPointerAndStride 1 a.prevData a.prevDataStride height ≠ .ok then
    checkPointerAndStride 1 a.prevData a.prevDataStride height
  else if checkPointerAndStride 1 a.nextData a.nextStride height ≠ .ok then
    checkPointerAndStride 1 a.nextData a.nextStride height
  else if checkPointerAndStride 2 a.scharrData a.scharrStrideBytes height ≠ .ok then
    checkPointerAndStride 2 a.scharrData a.scharrStrideBytes height
  else if a.scharrStrideBytes % 2 ≠ 0 then .alignment
  else if a.prevDataStride < rowElems ∨ a.nextStride < rowElems then .range
  else if a.scharrStrideBytes < rowElems * 2 * 2 then .range
  else if maxWindowSize < a.windowWidth ∨ maxWindowSize < a.windowHeight then .range
  else .ok

/-- What an accepted call promises about sizes. -/
structure LevelArgs.Accepted (a : LevelArgs) : Prop where
  width : 0 < a.width
  height : 0 < a.height
  channels : 0 < a.channels ∧ a.channels ≤ 4
  windowWidth : 0 < a.windowWidth ∧ a.windowWidth ≤ 2047
  windowHeight : 0 < a.windowHeight ∧ a.windowHeight ≤ 2047

/-- A check that the call has passed. -/
theorem ok_of_guard {P : Prop} [Decidable P] {e x : KleidicvError} (he : P → e ≠ .ok)
    (h : (if P then e else x) = .ok) : ¬P ∧ x = .ok := by
  split at h
  next hP => exact absurd h (he hP)
  next hP => exact ⟨hP, h⟩

theorem accepted_of_ok {a : LevelArgs} (h : validateStandaloneLucasKanadeAlgU8Args a = .ok) :
    a.Accepted := by
  rw [validateStandaloneLucasKanadeAlgU8Args] at h
  obtain ⟨hsizes, h⟩ := ok_of_guard (fun _ => by decide) h
  obtain ⟨hchannels, h⟩ := ok_of_guard (fun _ => by decide) h
  obtain ⟨-, h⟩ := ok_of_guard (fun _ => by decide) h
  obtain ⟨-, h⟩ := ok_of_guard (fun _ => by decide) h
  obtain ⟨-, h⟩ := ok_of_guard (fun _ => by decide) h
  obtain ⟨-, h⟩ := ok_of_guard id h
  obtain ⟨-, h⟩ := ok_of_guard id h
  obtain ⟨-, h⟩ := ok_of_guard id h
  obtain ⟨-, h⟩ := ok_of_guard (fun _ => by decide) h
  obtain ⟨-, h⟩ := ok_of_guard (fun _ => by decide) h
  obtain ⟨-, h⟩ := ok_of_guard (fun _ => by decide) h
  obtain ⟨hwindow, -⟩ := ok_of_guard (fun _ => by decide) h
  simp only [kleidicvMaximumChannelCount] at hchannels
  simp only [maxWindowSize] at hwindow
  exact ⟨by omega, by omega, by omega, by omega, by omega⟩

end LucasKanade

end KleidiCV
