/-
Vector and scalar instructions of the colour conversions, and the rows that they write.

Lanes are words.  An instruction that could lose something is `Tracked`; the saturating ones are
meant to.

* `vmulN_ensures`, `vmlaN_ensures` — products with constants;
* `zeroExtended_toInt`, `widened_toInt` — bytes in wider lanes;
* `written_vector`, `written_pixel` — the pixels of a row, from the left to the right.
-/
import KleidiCV.ResizeToQuarter
import KleidiCV.Sobel
import KleidiCV.Yuv420ToRgb

open Loop

namespace KleidiCV

namespace YuvLanes

/-! ### Permutations -/

section

variable {α : Type} {n k : ℕ}

/-- `vqtbl1q_u8` and `vqtbl2q_u8`, for a table of `n` bytes: zero where the index is out of range. -/
def vqtblU8 (table : Fin n → BitVec 8) (index : Fin k → ℕ) : Fin k → BitVec 8 := fun lane =>
  if h : index lane < n then table ⟨index lane, h⟩ else 0

theorem vqtblU8_of_lt {table : Fin n → BitVec 8} {index : Fin k → ℕ} {lane : Fin k} {i : ℕ}
    (hi : index lane = i) (h : i < n) : vqtblU8 table index lane = table ⟨i, h⟩ := by
  subst hi
  exact dif_pos h

theorem vqtblU8_of_le {table : Fin n → BitVec 8} {index : Fin k → ℕ} {lane : Fin k}
    (h : n ≤ index lane) : vqtblU8 table index lane = 0 := dif_neg (Nat.not_lt.mpr h)

/-- `vzip1q`: the lower halves, lane by lane. -/
def vzip1 (a b : Fin (2 * n) → α) : Fin (2 * n) → α := fun lane =>
  if lane.val % 2 = 0 then a ⟨lane / 2, by omega⟩ else b ⟨lane / 2, by omega⟩

/-- `vzip2q`: the upper halves. -/
def vzip2 (a b : Fin (2 * n) → α) : Fin (2 * n) → α := fun lane =>
  if lane.val % 2 = 0 then a ⟨n + lane / 2, by omega⟩ else b ⟨n + lane / 2, by omega⟩

/-- `vuzp1q`: the even lanes of the first vector, then those of the second. -/
def vuzp1 (a b : Fin (2 * n) → α) : Fin (2 * n) → α :=
  vcombine (fun lane => a ⟨2 * lane, evenLane_lt lane⟩) fun lane => b ⟨2 * lane, evenLane_lt lane⟩

/-- `vuzp2q`: the odd lanes. -/
def vuzp2 (a b : Fin (2 * n) → α) : Fin (2 * n) → α :=
  vcombine (fun lane => a ⟨2 * lane + 1, oddLane_lt lane⟩) fun lane => b ⟨2 * lane + 1, oddLane_lt lane⟩

/-- `vtrn1q`: the even lanes of both vectors, in turn. -/
def vtrn1 (a b : Fin (2 * n) → α) : Fin (2 * n) → α := fun lane =>
  if lane.val % 2 = 0 then a lane else b ⟨lane - 1, by omega⟩

/-- `vtrn2q`: the odd lanes of both vectors, in turn. -/
def vtrn2 (a b : Fin (2 * n) → α) : Fin (2 * n) → α := fun lane =>
  if h : lane.val % 2 = 0 then a ⟨lane + 1, by omega⟩ else b lane

/-- `vreinterpretq_s32_u8` and `vreinterpretq_u32_u8`, little endian. -/
def vreinterpretqS32U8 (a : Fin (4 * n) → BitVec 8) : Fin n → BitVec 32 := fun lane =>
  a ⟨4 * lane + 3, by omega⟩ ++ a ⟨4 * lane + 2, by omega⟩ ++ a ⟨4 * lane + 1, by omega⟩ ++
    a ⟨4 * lane, by omega⟩

/-- `vreinterpretq_s16_s32`, little endian. -/
def vreinterpretqS16S32 (a : Fin n → BitVec 32) : Fin (2 * n) → BitVec 16 := fun lane =>
  (a ⟨lane / 2, halvedLane_lt lane⟩).extractLsb' (16 * (lane % 2)) 16

/-- `vld3q_u8` and `vld4q_u8`: lane `i` of vector `k` is byte `n * i + k`. -/
def vldInterleaved (n : ℕ) (src : ℕ → BitVec 8) (ptr k : ℕ) : Fin 16 → BitVec 8 := fun lane =>
  src (ptr + (n * lane + k))

/-- The even lanes of bytes in a row. -/
theorem vuzp1_row (src : ℕ → α) (a : ℕ) (lane : Fin (2 * n)) :
    vuzp1 (fun i : Fin (2 * n) => src (a + i)) (fun i : Fin (2 * n) => src (a + 2 * n + i)) lane =
      src (a + 2 * lane) := by
  refine GaussianBlur.vcombine_cases (P := fun lane x => x = src (a + 2 * lane))
    (fun i => rfl) (fun i => ?_) lane
  exact congrArg src (by simp only; omega)

/-- The odd lanes. -/
theorem vuzp2_row (src : ℕ → α) (a : ℕ) (lane : Fin (2 * n)) :
    vuzp2 (fun i : Fin (2 * n) => src (a + i)) (fun i : Fin (2 * n) => src (a + 2 * n + i)) lane =
      src (a + 2 * lane + 1) := by
  refine GaussianBlur.vcombine_cases (P := fun lane x => x = src (a + 2 * lane + 1))
    (fun i => rfl) (fun i => ?_) lane
  exact congrArg src (by simp only; omega)

end

/-! ### Arithmetic -/

section

variable {n v w : ℕ}

/-- `vmull_n` and `vmulq_n`, into words of `w` bits; the factor is converted to a lane. -/
def vmulN (w : ℕ) (a : Fin n → BitVec v) (c : ℤ) : Tracked (Fin n → BitVec w) := do
  let c ← Tracked.sword v c
  Tracked.slanes w fun lane => (a lane).toInt * c.toInt

/-- `vmlal_n` and `vmlaq_n`. -/
def vmlaN (acc : Fin n → BitVec w) (a : Fin n → BitVec v) (c : ℤ) : Tracked (Fin n → BitVec w) := do
  let c ← Tracked.sword v c
  Tracked.slanes w fun lane => (acc lane).toInt + (a lane).toInt * c.toInt

/-- `vmull_n_u16`. -/
def vmullNU16 (a : Fin n → BitVec 16) (c : ℕ) : Tracked (Fin n → BitVec 32) := do
  let c ← Tracked.word 16 c
  Tracked.lanes 32 fun lane => (a lane).toNat * c.toNat

/-- `vdupq_n_s32`. -/
def vdupqNS32 (x : ℤ) : Tracked (Fin n → BitVec 32) := Tracked.slanes 32 fun _ => x

/-- `vqshrun_n_s32`. -/
def vqshrunNS32 (shift : ℕ) (a : Fin n → BitVec 32) : Fin n → BitVec 16 := fun lane =>
  BitVec.ofInt 16 (max 0 (min ((a lane).toInt / 2 ^ shift) 65535))

/-- `vrshrn_n_s32`; the constant for rounding does not wrap. -/
def vrshrnNS32 (shift : ℕ) (a : Fin n → BitVec 32) : Tracked (Fin n → BitVec 16) :=
  Tracked.slanes 16 fun lane => ((a lane).toInt + 2 ^ (shift - 1)) / 2 ^ shift

/-- `vshrn_n_u32`. -/
def vshrnNU32 (shift : ℕ) (a : Fin n → BitVec 32) : Tracked (Fin n → BitVec 16) :=
  Tracked.lanes 16 fun lane => (a lane).toNat / 2 ^ shift

/-- `vshrn_n_s32`.  The halfwords are only read as bytes: nothing is lost of a number that is not
negative and fits their sixteen bits. -/
def vshrnNS32 (shift : ℕ) (a : Fin n → BitVec 32) : Tracked (Fin n → BitVec 16) :=
  ⟨fun lane => ((a lane).sshiftRight shift).setWidth 16, ∀ lane,
    0 ≤ (a lane).toInt / 2 ^ shift ∧ (a lane).toInt / 2 ^ shift < 2 ^ 16⟩

/-- `vqsubq_s16`. -/
def vqsubqS16 (a b : Fin n → BitVec 16) : Fin n → BitVec 16 := fun lane =>
  BitVec.ofInt 16 (max (-32768) (min ((a lane).toInt - (b lane).toInt) 32767))

/-- `vqmovun_s16`. -/
def vqmovunS16 (a : Fin n → BitVec 16) : Fin n → BitVec 8 := fun lane => Yuv420.vqmovun (a lane)

theorem sword_ensures {x : ℤ} (hw : 0 < w) (h : -2 ^ (w - 1) ≤ x ∧ x < 2 ^ (w - 1)) :
    (Tracked.sword w x).Ensures fun c => c.toInt = x := Tracked.sword_ensures hw h.1 h.2

/-- A factor and a product that fit. -/
theorem vmulN_ensures {a : Fin n → BitVec v} {f : Fin n → ℤ} {c : ℤ} (hv : 0 < v) (hw : 0 < w)
    (ha : ∀ lane, (a lane).toInt = f lane) (hc : -2 ^ (v - 1) ≤ c ∧ c < 2 ^ (v - 1))
    (h : ∀ lane, -2 ^ (w - 1) ≤ f lane * c ∧ f lane * c < 2 ^ (w - 1)) :
    (vmulN w a c).Ensures fun s => ∀ lane, (s lane).toInt = f lane * c := by
  refine (sword_ensures hv hc).bind fun c' hc' => ?_
  simp only [ha, hc']
  exact Tracked.slanes_ensures hw h

theorem vmlaN_ensures {acc : Fin n → BitVec w} {a : Fin n → BitVec v} {f g : Fin n → ℤ} {c : ℤ}
    (hv : 0 < v) (hw : 0 < w) (hacc : ∀ lane, (acc lane).toInt = g lane)
    (ha : ∀ lane, (a lane).toInt = f lane) (hc : -2 ^ (v - 1) ≤ c ∧ c < 2 ^ (v - 1))
    (h : ∀ lane, -2 ^ (w - 1) ≤ g lane + f lane * c ∧ g lane + f lane * c < 2 ^ (w - 1)) :
    (vmlaN acc a c).Ensures fun s => ∀ lane, (s lane).toInt = g lane + f lane * c := by
  refine (sword_ensures hv hc).bind fun c' hc' => ?_
  simp only [hacc, ha, hc']
  exact Tracked.slanes_ensures hw h

theorem vaddqS_ensures {a b : Fin n → BitVec w} {f g : Fin n → ℤ} (hw : 0 < w)
    (ha : ∀ lane, (a lane).toInt = f lane) (hb : ∀ lane, (b lane).toInt = g lane)
    (h : ∀ lane, -2 ^ (w - 1) ≤ f lane + g lane ∧ f lane + g lane < 2 ^ (w - 1)) :
    (vaddqS a b).Ensures fun s => ∀ lane, (s lane).toInt = f lane + g lane := by
  simp only [vaddqS, ha, hb]
  exact Tracked.slanes_ensures hw h

/-- A product that is not negative as a signed number either. -/
theorem vmullNU16_ensures {a : Fin n → BitVec 16} {f : Fin n → ℕ} {c : ℕ}
    (ha : ∀ lane, (a lane).toNat = f lane) (hc : c < 2 ^ 16) (h : ∀ lane, f lane * c < 2 ^ 31) :
    (vmullNU16 a c).Ensures fun s => ∀ lane, (s lane).toInt = f lane * c := by
  refine (Tracked.word_ensures hc).bind fun c' hc' => ?_
  simp only [ha, hc']
  refine (Tracked.lanes_ensures fun lane => (h lane).trans (by decide)).imp fun s hs lane => ?_
  have := h lane
  rw [BitVec.toInt_eq_toNat_of_lt (by rw [hs]; omega), hs]
  push_cast
  rfl

theorem vrshrnNS32_ensures {shift : ℕ} {a : Fin n → BitVec 32} {f : Fin n → ℤ}
    (ha : ∀ lane, (a lane).toInt = f lane)
    (h : ∀ lane, -32768 ≤ (f lane + 2 ^ (shift - 1)) / 2 ^ shift ∧
      (f lane + 2 ^ (shift - 1)) / 2 ^ shift < 32768) :
    (vrshrnNS32 shift a).Ensures fun s => ∀ lane,
      (s lane).toInt = (f lane + 2 ^ (shift - 1)) / 2 ^ shift := by
  simp only [vrshrnNS32, ha]
  exact Tracked.slanes_ensures (by decide) h

theorem vqmovunS16_eq {a : Fin n → BitVec 16} {f : Fin n → ℤ} (ha : ∀ lane, (a lane).toInt = f lane)
    (lane : Fin n) : vqmovunS16 a lane = Yuv420.saturatingCast (f lane) := by
  rw [vqmovunS16, Yuv420.vqmovun, ha, Yuv420.saturatingCast]

theorem vqsubqS16_toInt {a b : Fin n → BitVec 16} {f g : Fin n → ℤ}
    (ha : ∀ lane, (a lane).toInt = f lane) (hb : ∀ lane, (b lane).toInt = g lane)
    (h : ∀ lane, -32768 ≤ f lane - g lane ∧ f lane - g lane ≤ 32767) (lane : Fin n) :
    (vqsubqS16 a b lane).toInt = f lane - g lane := by
  obtain ⟨h1, h2⟩ := h lane
  rw [vqsubqS16, ha, hb, min_eq_left h2, max_eq_right h1]
  exact BitVec.toInt_ofInt_eq_self (by decide) h1 (by omega)

/-- An unsigned halfword with a saturated number. -/
theorem vqshrunNS32_toNat {shift : ℕ} {a : Fin n → BitVec 32} {f : Fin n → ℤ}
    (ha : ∀ lane, (a lane).toInt = f lane) (lane : Fin n) :
    ((vqshrunNS32 shift a lane).toNat : ℤ) = max 0 (min (f lane / 2 ^ shift) 65535) := by
  rw [vqshrunNS32, ha, BitVec.toNat_ofInt]
  omega

theorem vshrnNU32_ensures {shift : ℕ} {a : Fin n → BitVec 32} {f : Fin n → ℕ}
    (ha : ∀ lane, (a lane).toNat = f lane) (h : ∀ lane, f lane / 2 ^ shift < 2 ^ 16) :
    (vshrnNU32 shift a).Ensures fun s => ∀ lane, (s lane).toNat = f lane / 2 ^ shift := by
  simp only [vshrnNU32, ha]
  exact Tracked.lanes_ensures h

theorem vshrnNS32_ensures {shift : ℕ} {a : Fin n → BitVec 32} {f : Fin n → ℤ}
    (ha : ∀ lane, (a lane).toInt = f lane)
    (h : ∀ lane, 0 ≤ f lane / 2 ^ shift ∧ f lane / 2 ^ shift < 2 ^ 16) :
    (vshrnNS32 shift a).Ensures fun s => ∀ lane, ((s lane).toNat : ℤ) = f lane / 2 ^ shift := by
  simp only [← ha] at h ⊢
  refine ⟨h, fun lane => ?_⟩
  obtain ⟨h1, h2⟩ := h lane
  have hshift : ((a lane).sshiftRight shift).toInt = (a lane).toInt / 2 ^ shift := by
    rw [BitVec.toInt_sshiftRight, Int.shiftRight_eq_div_pow]
    norm_cast
  have hnat : ((((a lane).sshiftRight shift).toNat : ℕ) : ℤ) = (a lane).toInt / 2 ^ shift := by
    have hlt := ((a lane).sshiftRight shift).isLt
    rw [← hshift, BitVec.toInt_eq_toNat_cond]
    rw [← hshift, BitVec.toInt_eq_toNat_cond] at h1
    split at h1 <;> split <;> omega
  show (((((a lane).sshiftRight shift).setWidth 16).toNat : ℕ) : ℤ) = _
  rw [BitVec.toNat_setWidth, ← hnat]
  omega

/-- The upper halves of words, which are the odd halfwords. -/
theorem vuzp2_toInt {a b : Fin n → BitVec 32} {f : Fin (2 * n) → ℤ}
    (ha : ∀ lane : Fin n, (a lane).toInt = f ⟨lane, lowLane_lt lane⟩)
    (hb : ∀ lane : Fin n, (b lane).toInt = f ⟨n + lane, highLane_lt lane⟩) (lane : Fin (2 * n)) :
    (vuzp2 (vreinterpretqS16S32 a) (vreinterpretqS16S32 b) lane).toInt = f lane / 65536 := by
  have hupper : ∀ x : BitVec 32, (x.extractLsb' 16 16).toInt = x.toInt / 65536 := by
    intro x
    have hx := x.isLt
    have hnat : (x.extractLsb' 16 16).toNat = x.toNat / 65536 := by
      rw [BitVec.extractLsb'_toNat, Nat.shiftRight_eq_div_pow]
      omega
    rw [BitVec.toInt_eq_toNat_cond, BitVec.toInt_eq_toNat_cond, hnat]
    split_ifs <;> omega
  have hodd : ∀ (c : Fin n → BitVec 32) (lane : Fin n),
      vreinterpretqS16S32 c ⟨2 * lane + 1, by omega⟩ = (c lane).extractLsb' 16 16 := by
    intro c lane
    have hmod : (2 * lane.val + 1) % 2 = 1 := by omega
    have hdiv : (2 * lane.val + 1) / 2 = lane := by omega
    simp only [vreinterpretqS16S32, hmod, hdiv, Nat.mul_one]
  refine GaussianBlur.vcombine_cases (P := fun lane (x : BitVec 16) => x.toInt = f lane / 65536)
    (fun i => ?_) (fun i => ?_) lane
  · rw [hodd, hupper, ha]
  · rw [hodd, hupper, hb]

/-- The lower byte of a halfword whose number is a byte. -/
theorem lowByte_eq {x : BitVec 16} {f : ℤ} (hx : (x.toNat : ℤ) = max 0 (min f 65535))
    (hf : 0 ≤ f ∧ f ≤ 255) : x.extractLsb' 0 8 = Yuv420.saturatingCast f := by
  apply BitVec.eq_of_toNat_eq
  rw [BitVec.extractLsb'_toNat, Yuv420.saturatingCast, BitVec.toNat_ofInt, Nat.shiftRight_zero]
  omega

/-- The upper byte of a saturated halfword is saturated. -/
theorem highByte_eq {x : BitVec 16} {f : ℤ} (hx : (x.toNat : ℤ) = max 0 (min f 65535)) :
    x.extractLsb' 8 8 = Yuv420.saturatingCast (f / 256) := by
  apply BitVec.eq_of_toNat_eq
  rw [BitVec.extractLsb'_toNat, Yuv420.saturatingCast, BitVec.toNat_ofInt,
    Nat.shiftRight_eq_div_pow]
  omega

/-- The upper byte of a halfword. -/
theorem highByte_of_lt {x : BitVec 16} {f : ℤ} (hx : (x.toNat : ℤ) = f) :
    x.extractLsb' 8 8 = Yuv420.saturatingCast (f / 256) :=
  highByte_eq (hx.trans (by have := x.isLt; omega))

/-- A byte with zeros above it. -/
theorem zeroExtended_toInt (x : BitVec 8) : ((0 : BitVec 8) ++ x : BitVec 16).toInt = x.toNat := by
  have hx := x.isLt
  have hnat : ((0 : BitVec 8) ++ x : BitVec 16).toNat = x.toNat := by
    rw [BitVec.toNat_append]
    simp
  rw [BitVec.toInt_eq_toNat_of_lt (by omega), hnat]

/-- Every other byte is zero. -/
theorem halfword_toInt {a : Fin (2 * n) → BitVec 8} {lane : Fin n} {x : BitVec 8}
    (h0 : a ⟨2 * lane, evenLane_lt lane⟩ = x) (h1 : a ⟨2 * lane + 1, oddLane_lt lane⟩ = 0) :
    (ResizeToQuarter.vreinterpretqU16U8 a lane).toInt = x.toNat := by
  rw [ResizeToQuarter.vreinterpretqU16U8, h0, h1]
  exact zeroExtended_toInt x

theorem vzip1_toInt {k : ℕ} (a : Fin (2 * k) → BitVec 8) (lane : Fin k) :
    (ResizeToQuarter.vreinterpretqU16U8 (vzip1 a fun _ => 0) lane).toInt =
      (a ⟨lane, lowLane_lt lane⟩).toNat := by
  refine halfword_toInt ?_ ?_
  · rw [vzip1, if_pos (Nat.mul_mod_right 2 lane)]
    exact congrArg a (Fin.ext (Nat.mul_div_cancel_left lane Nat.two_pos))
  · rw [vzip1, if_neg (by simp only; omega)]

theorem vzip2_toInt {k : ℕ} (a : Fin (2 * k) → BitVec 8) (lane : Fin k) :
    (ResizeToQuarter.vreinterpretqU16U8 (vzip2 a fun _ => 0) lane).toInt =
      (a ⟨k + lane, highLane_lt lane⟩).toNat := by
  refine halfword_toInt ?_ ?_
  · rw [vzip2, if_pos (Nat.mul_mod_right 2 lane)]
    exact congrArg a (Fin.ext (congrArg (k + ·) (Nat.mul_div_cancel_left lane Nat.two_pos)))
  · rw [vzip2, if_neg (by simp only; omega)]

/-- The even and the odd lanes. -/
theorem vtrn1_toInt (a : Fin (2 * n) → BitVec 8) (lane : Fin n) :
    (ResizeToQuarter.vreinterpretqU16U8 (vtrn1 a fun _ => 0) lane).toInt =
      (a ⟨2 * lane, evenLane_lt lane⟩).toNat := by
  refine halfword_toInt ?_ ?_
  · rw [vtrn1, if_pos (Nat.mul_mod_right 2 lane)]
  · rw [vtrn1, if_neg (by simp only; omega)]

theorem vtrn2_toInt (a : Fin (2 * n) → BitVec 8) (lane : Fin n) :
    (ResizeToQuarter.vreinterpretqU16U8 (vtrn2 a fun _ => 0) lane).toInt =
      (a ⟨2 * lane + 1, oddLane_lt lane⟩).toNat := by
  refine halfword_toInt ?_ ?_
  · rw [vtrn2, dif_pos (Nat.mul_mod_right 2 lane)]
  · rw [vtrn2, dif_neg (by simp only; omega)]

/-- The four bytes of pixels in a row; the last one is left out. -/
theorem rgba_toInt (src : ℕ → BitVec 8) (a : ℕ) (lane : Fin (2 * k)) :
    let low : Fin (2 * (2 * k)) → BitVec 8 := fun i => src (a + i)
    let high : Fin (2 * (2 * k)) → BitVec 8 := fun i => src (a + 2 * (2 * k) + i)
    (ResizeToQuarter.vreinterpretqU16U8 (vtrn1 (vuzp1 low high) fun _ => 0) lane).toInt =
        (src (a + 4 * lane)).toNat ∧
      (ResizeToQuarter.vreinterpretqU16U8 (vtrn1 (vuzp2 low high) fun _ => 0) lane).toInt =
        (src (a + 4 * lane + 1)).toNat ∧
      (ResizeToQuarter.vreinterpretqU16U8 (vtrn2 (vuzp1 low high) fun _ => 0) lane).toInt =
        (src (a + 4 * lane + 2)).toNat := by
  have hmul : 4 * lane.val = 2 * (2 * lane.val) := by omega
  intro low high
  refine ⟨?_, ?_, ?_⟩
  · rw [vtrn1_toInt, vuzp1_row, hmul]
  · rw [vtrn1_toInt, vuzp2_row, hmul]
  · rw [vtrn2_toInt, vuzp1_row, hmul]
    rfl

/-- Bytes in lanes of 32 bits. -/
theorem widened_toNat {a : Fin (4 * n) → BitVec 8} {f : Fin n → BitVec 8}
    (h0 : ∀ lane : Fin n, a ⟨4 * lane, by omega⟩ = f lane)
    (h1 : ∀ i, i.val % 4 ≠ 0 → a i = 0) (lane : Fin n) :
    (vreinterpretqS32U8 a lane).toNat = (f lane).toNat := by
  rw [vreinterpretqS32U8, h0, h1 _ (by simp only; omega), h1 _ (by simp only; omega),
    h1 _ (by simp only; omega), BitVec.toNat_append]
  simp

theorem widened_toInt {a : Fin (4 * n) → BitVec 8} {f : Fin n → BitVec 8}
    (h0 : ∀ lane : Fin n, a ⟨4 * lane, by omega⟩ = f lane)
    (h1 : ∀ i, i.val % 4 ≠ 0 → a i = 0) (lane : Fin n) :
    (vreinterpretqS32U8 a lane).toInt = (f lane).toNat := by
  have hx := (f lane).isLt
  have hnat := widened_toNat h0 h1 lane
  rw [BitVec.toInt_eq_toNat_of_lt (by omega), hnat]

/-- The odd bytes of halfwords. -/
theorem upperByte_eq (v : Fin n → BitVec 16) (i : ℕ) (hi : i < n) :
    ResizeToQuarter.vreinterpretqU8U16 v ⟨2 * i + 1, by omega⟩ = (v ⟨i, hi⟩).extractLsb' 8 8 := by
  have hdiv : (2 * i + 1) / 2 = i := by omega
  have hmod : (2 * i + 1) % 2 = 1 := by omega
  simp only [ResizeToQuarter.vreinterpretqU8U16, hdiv, hmod, Nat.mul_one]

end

/-! ### Scalars -/

/-- A result of `int`, which must not overflow. -/
def int32 (x : ℤ) : Tracked ℤ := ⟨x, -2147483648 ≤ x ∧ x < 2147483648⟩

theorem int32_ensures {x : ℤ} (h : -2147483648 ≤ x ∧ x < 2147483648) :
    (int32 x).Ensures (· = x) := ⟨h, rfl⟩

/-- `a * wa + b * wb + c * wc`. -/
def weighRgb (a wa b wb c wc : ℤ) : Tracked ℤ := do
  let x ← int32 (a * wa)
  let y ← int32 (b * wb)
  let xy ← int32 (x + y)
  let z ← int32 (c * wc)
  int32 (xy + z)

/-- Samples of up to nine bits and weights of up to 21 bits. -/
theorem sample_mul_bounds {x w : ℤ} (hx : 0 ≤ x ∧ x ≤ 510) (hw : |w| ≤ 1000000) :
    -510000000 ≤ x * w ∧ x * w ≤ 510000000 := by
  have habs : |x * w| ≤ 510 * 1000000 := by
    rw [abs_mul, abs_of_nonneg hx.1]
    exact mul_le_mul hx.2 hw (abs_nonneg w) (by norm_num)
  obtain ⟨h1, h2⟩ := abs_le.mp habs
  exact ⟨by linarith, by linarith⟩

theorem weighRgb_ensures {a wa b wb c wc : ℤ} (ha : 0 ≤ a ∧ a ≤ 510) (hb : 0 ≤ b ∧ b ≤ 510)
    (hc : 0 ≤ c ∧ c ≤ 510) (hwa : |wa| ≤ 1000000) (hwb : |wb| ≤ 1000000) (hwc : |wc| ≤ 1000000) :
    (weighRgb a wa b wb c wc).Ensures (· = a * wa + b * wb + c * wc) := by
  have h1 := sample_mul_bounds ha hwa
  have h2 := sample_mul_bounds hb hwb
  have h3 := sample_mul_bounds hc hwc
  refine (int32_ensures (by omega)).bind fun x hx => ?_
  refine (int32_ensures (by omega)).bind fun y hy => ?_
  subst hx hy
  refine (int32_ensures (by omega)).bind fun xy hxy => ?_
  refine (int32_ensures (by omega)).bind fun z hz => ?_
  subst hxy hz
  exact int32_ensures (by omega)

/-- `rounding_shift_right`, for `int32_t`. -/
def roundingShiftRight (value : ℤ) (shift : ℕ) : Tracked ℤ := do
  let sum ← int32 (value + 2 ^ (shift - 1))
  pure (sum / 2 ^ shift)

theorem roundingShiftRight_ensures {value : ℤ} {shift : ℕ}
    (h : -2147483648 ≤ value + 2 ^ (shift - 1) ∧ value + 2 ^ (shift - 1) < 2147483648) :
    (roundingShiftRight value shift).Ensures (· = (value + 2 ^ (shift - 1)) / 2 ^ shift) := by
  refine (int32_ensures h).bind fun sum hsum => .pure ?_
  rw [hsum]

/-! ### Rows -/

/-- The memory with `n` pixels of `channels` bytes at `dst`. -/
def written (dst channels : ℕ) (out : ℕ → ℕ → BitVec 8) (n : ℕ) (m : ℕ → BitVec 8) : ℕ → BitVec 8 :=
  overwrite m dst (n * channels) fun j => out (j / channels) (j % channels)

section

variable {dst channels : ℕ} {out : ℕ → ℕ → BitVec 8} {m : ℕ → BitVec 8}

theorem written_zero : written dst channels out 0 m = m := by
  rw [written, Nat.zero_mul, overwrite_zero]

/-- Pixels from `i` on, of which some may be there already. -/
theorem written_overwrite {i j k : ℕ} {g : ℕ → BitVec 8} (hij : i ≤ j) (hj : j ≤ i + k)
    (hg : ∀ l < k * channels, g l = out (i + l / channels) (l % channels)) (hpos : 0 < channels) :
    overwrite (written dst channels out j m) (dst + i * channels) (k * channels) g =
      written dst channels out (i + k) m := by
  have hle := Nat.mul_le_mul_right channels hij
  have hle' := Nat.mul_le_mul_right channels hj
  rw [Nat.add_mul] at hle'
  funext a
  simp only [written, overwrite, Nat.add_mul]
  by_cases hnew : dst + i * channels ≤ a ∧ a < dst + i * channels + k * channels
  · obtain ⟨l, rfl⟩ := Nat.exists_eq_add_of_le hnew.1
    rw [if_pos hnew, if_pos (by omega), Nat.add_sub_cancel_left, hg l (by omega), Nat.add_assoc,
      Nat.add_sub_cancel_left, Nat.add_comm (i * channels), Nat.add_mul_div_right _ _ hpos,
      Nat.add_mul_mod_self_right, Nat.add_comm i]
  · rw [if_neg hnew]
    by_cases hold : dst ≤ a ∧ a < dst + j * channels
    · rw [if_pos hold, if_pos (by omega)]
    · rw [if_neg hold, if_neg (by omega)]

/-- A vector of pixels. -/
theorem written_vector {i j lanes : ℕ} {v : ℕ → Fin lanes → BitVec 8} (hpos : 0 < channels)
    (hij : i ≤ j) (hj : j ≤ i + lanes) (hv : ∀ lane : Fin lanes, ∀ k < channels,
      v k lane = out (i + lane) k) :
    vstInterleaved channels v (dst + i * channels) (written dst channels out j m) =
      written dst channels out (i + lanes) m := by
  obtain ⟨g, heq, hg⟩ := vstInterleaved_eq v (dst + i * channels) (written dst channels out j m) hpos
  rw [heq, Nat.mul_comm channels]
  refine written_overwrite hij hj (fun l hl => ?_) hpos
  have hlane : l / channels < lanes := Nat.div_lt_of_lt_mul (by rwa [Nat.mul_comm])
  have hval := hg ⟨l / channels, hlane⟩ (l % channels) (Nat.mod_lt _ hpos)
  rw [Nat.div_add_mod] at hval
  rw [hval, hv _ _ (Nat.mod_lt _ hpos)]

/-- Three bytes. -/
theorem overwrite_three (m : ℕ → BitVec 8) (ptr : ℕ) (g : ℕ → BitVec 8) :
    Function.update (Function.update (Function.update m ptr (g 0)) (ptr + 1) (g 1)) (ptr + 2) (g 2) =
      overwrite m ptr 3 g := forRange_update 3 m

/-- Four bytes in any order. -/
theorem overwrite_four_of_order {i₀ i₁ i₂ i₃ : ℕ} (h₀ : i₀ < 4) (h₁ : i₁ < 4) (h₂ : i₂ < 4)
    (h₃ : i₃ < 4) (hall : ∀ j < 4, j = i₀ ∨ j = i₁ ∨ j = i₂ ∨ j = i₃) (m : ℕ → BitVec 8) (ptr : ℕ)
    (g : ℕ → BitVec 8) :
    Function.update (Function.update (Function.update (Function.update m (ptr + i₀) (g i₀))
      (ptr + i₁) (g i₁)) (ptr + i₂) (g i₂)) (ptr + i₃) (g i₃) = overwrite m ptr 4 g := by
  funext a
  simp only [Function.update_apply]
  split_ifs with ha ha ha ha
  · rw [ha, overwrite_add h₃]
  · rw [ha, overwrite_add h₂]
  · rw [ha, overwrite_add h₁]
  · rw [ha, overwrite_add h₀]
  · refine (overwrite_of_not_mem fun hrange => ?_).symm
    have := hall (a - ptr) (by omega)
    omega

/-- The bytes of a pixel from red to blue, whichever comes first, and alpha. -/
theorem overwrite_rgba {r b : ℕ} (hrb : (r = 0 ∧ b = 2) ∨ (r = 2 ∧ b = 0)) (alpha : Bool)
    (m : ℕ → BitVec 8) (ptr : ℕ) (g : ℕ → BitVec 8) :
    let rgb := Function.update (Function.update (Function.update m (ptr + r) (g r)) (ptr + 1) (g 1))
      (ptr + b) (g b)
    (if alpha then Function.update rgb (ptr + 3) (g 3) else rgb) =
      overwrite m ptr (if alpha then 4 else 3) g := by
  intro rgb
  cases alpha with
  | true =>
    refine overwrite_four_of_order ?_ ?_ ?_ ?_ ?_ m ptr g
    all_goals omega
  | false =>
    rcases hrb with ⟨rfl, rfl⟩ | ⟨rfl, rfl⟩
    · exact overwrite_three m ptr g
    · refine Eq.trans ?_ (overwrite_three m ptr g)
      show Function.update (Function.update (Function.update m (ptr + 2) _) (ptr + 1) _) ptr _ = _
      rw [Function.update_comm (show ptr + 2 ≠ ptr + 1 by omega),
        Function.update_comm (show ptr + 2 ≠ ptr by omega),
        Function.update_comm (show ptr + 1 ≠ ptr by omega)]

/-- A single pixel. -/
theorem written_pixel {i : ℕ} {g : ℕ → BitVec 8} (hpos : 0 < channels)
    (hg : ∀ k < channels, g k = out i k) :
    overwrite (written dst channels out i m) (dst + i * channels) channels g =
      written dst channels out (i + 1) m := by
  have hone : overwrite (written dst channels out i m) (dst + i * channels) (1 * channels) g =
      written dst channels out (i + 1) m := by
    refine written_overwrite (le_refl i) (Nat.le_add_right i 1) (fun l hl => ?_) hpos
    rw [Nat.one_mul] at hl
    rw [hg l hl, Nat.div_eq_of_lt hl, Nat.mod_eq_of_lt hl, Nat.add_zero]
  rwa [Nat.one_mul] at hone

end

end YuvLanes

end KleidiCV
