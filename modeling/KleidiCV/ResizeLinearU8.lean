/-
`resize_linear` by 2 and by 4, of `uint8_t` images on Neon.

The kernels have their own coefficients for vectors, for single columns, for
edge rows and for edge columns; all of them give the bilinear interpolation at
the centre of the pixel, rounded half up.

* `resize2x2U8_rounds`, `resize4x4U8_rounds` — the coefficients are the weights
  of the interpolation;
* `pixelAt_eq` — the value of a pixel, edges and corners included;
* `resizeFixedScaleU8_correct` — a whole call, and a call in batches.
-/
import KleidiCV.Lib.Bilinear
import KleidiCV.Lib.Extension
import KleidiCV.Neon
import KleidiCV.ResizeFixedScale

open Bilinear

namespace KleidiCV

/-! ### Vectors of eight elements -/

/-- `uint8x8_t`. -/
abbrev U8x8 := Fin 8 → U8

/-- `uint16x8_t`. -/
abbrev U16x8 := Fin 8 → U16

/-- `vdup_n_u8`. -/
def vdupNU8 (value : ℕ) : U8x8 := fun _ => Fin.ofNat 256 value

/-- `vdupq_n_u16`. -/
def vdupqNU16 (value : ℕ) : U16x8 := fun _ => Fin.ofNat 65536 value

/-- `vaddl_u8`. -/
def vaddlU8 (a b : U8x8) : U16x8 := fun lane => Fin.ofNat 65536 ((a lane).val + (b lane).val)

/-- `vmull_u8`. -/
def vmullU8 (a b : U8x8) : U16x8 := fun lane => Fin.ofNat 65536 ((a lane).val * (b lane).val)

/-- `vaddq_u16`; the sum wraps. -/
def vaddqU16 (a b : U16x8) : U16x8 := fun lane => a lane + b lane

/-- `vmlaq_u16`; product and sum wrap. -/
def vmlaqU16 (acc a b : U16x8) : U16x8 := fun lane => acc lane + a lane * b lane

/-- `vshrn_n_u16`. -/
def vshrnNU16 (v : U16x8) (n : ℕ) : U8x8 := fun lane => Fin.ofNat 256 ((v lane).val >>> n)

/-- `lerp2d_vector_p_q_q_1<P, Q, Bias, Shift>`. -/
def lerp2dVectorPQQ1 (p q bias shift : ℕ) (a b c d : U8x8) : U8x8 :=
  let bc := vaddlU8 b c
  let ap := vmullU8 a (vdupNU8 p)
  let apBcq := vmlaqU16 ap bc (vdupqNU16 q)
  let dBias := vaddlU8 d (vdupNU8 bias)
  vshrnNU16 (vaddqU16 apBcq dBias) shift

/-- `lerp2d_vector_p_q_q_r<P, Q, R, Bias, Shift>`. -/
def lerp2dVectorPQQR (p q r bias shift : ℕ) (a b c d : U8x8) : U8x8 :=
  let bc := vaddlU8 b c
  let ap := vmullU8 a (vdupNU8 p)
  let dr := vmullU8 d (vdupNU8 r)
  let apBcq := vmlaqU16 ap bc (vdupqNU16 q)
  let drBias := vaddqU16 dr (vdupqNU16 bias)
  vshrnNU16 (vaddqU16 apBcq drBias) shift

/-! ### By two -/

namespace Resize2x2

def lerp1dScalar (near far : U8) : U8 := Fin.ofNat 256 ((near.val * 3 + far.val + 2) >>> 2)

def lerp1dVector (near far : U8x8) : U8x8 :=
  let near3 := vmullU8 near (vdupNU8 3)
  let far2 := vaddlU8 far (vdupNU8 2)
  vshrnNU16 (vaddqU16 near3 far2) 2

def lerp2dScalar (near midA midB far : U8) : U8 :=
  Fin.ofNat 256 ((near.val * 9 + (midA.val + midB.val) * 3 + far.val + 8) >>> 4)

def lerp2dVector (a b c d : U8x8) : U8x8 := lerp2dVectorPQQ1 9 3 8 4 a b c d

end Resize2x2

open Resize2x2 in
/-- `kleidicv_resize_2x2_stripe_u8`. -/
def resize2x2U8 : FixedScale U8 where
  half := 1
  lanes := 8
  edgeScalar := fun i left right =>
    match i with
    | 0 => lerp1dScalar left right
    | _ => lerp1dScalar right left
  edgeVector := fun i left right =>
    match i with
    | 0 => lerp1dVector left right
    | _ => lerp1dVector right left
  rowScalar := fun j i tl tr bl br =>
    match j, i with
    | 0, 0 => lerp2dScalar tl tr bl br
    | 0, _ => lerp2dScalar tr tl br bl
    | _, 0 => lerp2dScalar bl tl br tr
    | _, _ => lerp2dScalar br tr bl tl
  rowVector := fun j i tl tr bl br =>
    match j, i with
    | 0, 0 => lerp2dVector tl tr bl br
    | 0, _ => lerp2dVector tr tl br bl
    | _, 0 => lerp2dVector bl tl br tr
    | _, _ => lerp2dVector br tr bl tl
  half_eq := FixedScale.half_eq_one
  lanes_pos := eight_lanes_pos

/-! ### By four -/

namespace Resize4x4

def lerp1dScalar (coeffA : ℕ) (a : U8) (coeffB : ℕ) (b : U8) : U8 :=
  Fin.ofNat 256 ((coeffA * a.val + coeffB * b.val + 4) >>> 3)

def lerp1dVector (coeffA : ℕ) (a : U8x8) (coeffB : ℕ) (b : U8x8) : U8x8 :=
  let a1 := vmullU8 a (vdupNU8 coeffA)
  let b1 := vmullU8 b (vdupNU8 coeffB)
  vshrnNU16 (vaddqU16 (vaddqU16 a1 b1) (vdupqNU16 4)) 3

def lerp2dScalar (coeffA : ℕ) (a : U8) (coeffB : ℕ) (b : U8) (coeffC : ℕ) (c : U8) (coeffD : ℕ)
    (d : U8) : U8 :=
  Fin.ofNat 256
    ((coeffA * a.val + coeffB * b.val + coeffC * c.val + coeffD * d.val + 32) >>> 6)

def lerp2dVector (coeffA : ℕ) (a : U8x8) (coeffB : ℕ) (b : U8x8) (coeffC : ℕ) (c : U8x8)
    (coeffD : ℕ) (d : U8x8) : U8x8 :=
  let a1 := vmullU8 a (vdupNU8 coeffA)
  let b1 := vmullU8 b (vdupNU8 coeffB)
  let c1 := vmullU8 c (vdupNU8 coeffC)
  let d1 := vmullU8 d (vdupNU8 coeffD)
  vshrnNU16 (vaddqU16 (vaddqU16 (vaddqU16 a1 b1) (vaddqU16 c1 d1)) (vdupqNU16 32)) 6

def lerp2dVector_49_7_7_1 (a b c d : U8x8) : U8x8 := lerp2dVectorPQQ1 49 7 32 6 a b c d

def lerp2dVector_25_15_15_9 (a b c d : U8x8) : U8x8 := lerp2dVectorPQQR 25 15 9 32 6 a b c d

end Resize4x4

open Resize4x4 in
/-- `kleidicv_resize_4x4_stripe_u8`. -/
def resize4x4U8 : FixedScale U8 where
  half := 2
  lanes := 8
  edgeScalar := fun i a b =>
    match i with
    | 0 => lerp1dScalar 7 a 1 b
    | 1 => lerp1dScalar 5 a 3 b
    | 2 => lerp1dScalar 3 a 5 b
    | _ => lerp1dScalar 1 a 7 b
  edgeVector := fun i a b =>
    match i with
    | 0 => lerp1dVector 7 a 1 b
    | 1 => lerp1dVector 5 a 3 b
    | 2 => lerp1dVector 3 a 5 b
    | _ => lerp1dVector 1 a 7 b
  rowScalar := fun j i a b c d =>
    match j, i with
    | 0, 0 => lerp2dScalar 49 a 7 b 7 c 1 d
    | 0, 1 => lerp2dScalar 35 a 21 b 5 c 3 d
    | 0, 2 => lerp2dScalar 21 a 35 b 3 c 5 d
    | 0, _ => lerp2dScalar 7 a 49 b 1 c 7 d
    | 1, 0 => lerp2dScalar 35 a 5 b 21 c 3 d
    | 1, 1 => lerp2dScalar 25 a 15 b 15 c 9 d
    | 1, 2 => lerp2dScalar 15 a 25 b 9 c 15 d
    | 1, _ => lerp2dScalar 5 a 35 b 3 c 21 d
    | 2, 0 => lerp2dScalar 21 a 3 b 35 c 5 d
    | 2, 1 => lerp2dScalar 15 a 9 b 25 c 15 d
    | 2, 2 => lerp2dScalar 9 a 15 b 15 c 25 d
    | 2, _ => lerp2dScalar 3 a 21 b 5 c 35 d
    | _, 0 => lerp2dScalar 7 a 1 b 49 c 7 d
    | _, 1 => lerp2dScalar 5 a 3 b 35 c 21 d
    | _, 2 => lerp2dScalar 3 a 5 b 21 c 35 d
    | _, _ => lerp2dScalar 1 a 7 b 7 c 49 d
  rowVector := fun j i a b c d =>
    match j, i with
    | 0, 0 => lerp2dVector_49_7_7_1 a b c d
    | 0, 1 => lerp2dVector 35 a 21 b 5 c 3 d
    | 0, 2 => lerp2dVector 21 a 35 b 3 c 5 d
    | 0, _ => lerp2dVector_49_7_7_1 b a d c
    | 1, 0 => lerp2dVector 35 a 5 b 21 c 3 d
    | 1, 1 => lerp2dVector_25_15_15_9 a b c d
    | 1, 2 => lerp2dVector_25_15_15_9 b a d c
    | 1, _ => lerp2dVector 5 a 35 b 3 c 21 d
    | 2, 0 => lerp2dVector 21 a 3 b 35 c 5 d
    | 2, 1 => lerp2dVector_25_15_15_9 c a d b
    | 2, 2 => lerp2dVector_25_15_15_9 d b c a
    | 2, _ => lerp2dVector 3 a 21 b 5 c 35 d
    | _, 0 => lerp2dVector_49_7_7_1 c a d b
    | _, 1 => lerp2dVector 5 a 3 b 35 c 21 d
    | _, 2 => lerp2dVector 3 a 5 b 21 c 35 d
    | _, _ => lerp2dVector_49_7_7_1 d b c a
  half_eq := FixedScale.half_eq_two
  lanes_pos := eight_lanes_pos

/-! ### Coefficients -/

theorem vshrnNU16_val {v : U16x8} {lane : Fin 8} {x : ℕ} (n : ℕ) (hx : (v lane).val = x)
    (hlt : x / 2 ^ n < 256) : (vshrnNU16 v n lane).val = x / 2 ^ n := by
  rw [vshrnNU16, Fin.val_ofNat, hx, Nat.shiftRight_eq_div_pow, Nat.mod_eq_of_lt hlt]

theorem scalar_val {x : ℕ} (n : ℕ) (hlt : x / 2 ^ n < 256) :
    (Fin.ofNat 256 (x >>> n) : U8).val = x / 2 ^ n := by
  rw [Fin.val_ofNat, Nat.shiftRight_eq_div_pow, Nat.mod_eq_of_lt hlt]

section

variable {a b c d : U8x8} {lane : Fin 8}

variable (a) (lane) in
theorem vmullU8_val {p : ℕ} (hp : p < 256) :
    (vmullU8 a (vdupNU8 p) lane).val = p * (a lane).val := by
  have ha := (a lane).isLt
  have hprod : (a lane).val * p ≤ 255 * 255 := Nat.mul_le_mul (by omega) (by omega)
  rw [vmullU8, vdupNU8, Fin.val_ofNat, Fin.val_ofNat, Nat.mod_eq_of_lt hp,
    Nat.mod_eq_of_lt (by omega), Nat.mul_comm]

variable (a b lane) in
theorem vaddlU8_val : (vaddlU8 a b lane).val = (a lane).val + (b lane).val := by
  have ha := (a lane).isLt
  have hb := (b lane).isLt
  rw [vaddlU8, Fin.val_ofNat, Nat.mod_eq_of_lt (by omega)]

theorem vaddqU16_val {v w : U16x8} {x y : ℕ} (hv : (v lane).val = x) (hw : (w lane).val = y)
    (hlt : x + y < 65536) : (vaddqU16 v w lane).val = x + y := by
  rw [vaddqU16, Fin.val_add, hv, hw, Nat.mod_eq_of_lt hlt]

theorem vmlaqU16_val {v w : U16x8} {x y q : ℕ} (hv : (v lane).val = x) (hw : (w lane).val = y)
    (hlt : x + q * y < 65536) (hq : q < 65536) :
    (vmlaqU16 v w (vdupqNU16 q) lane).val = x + q * y := by
  rw [vmlaqU16, Fin.val_add, Fin.val_mul, vdupqNU16, Fin.val_ofNat, hv, hw, Nat.mod_eq_of_lt hq,
    Nat.mul_comm, Nat.mod_eq_of_lt (show q * y < 65536 by omega), Nat.mod_eq_of_lt hlt]

variable (lane) in
theorem vdupNU8_val {p : ℕ} (hp : p < 256) : (vdupNU8 p lane).val = p := Nat.mod_eq_of_lt hp

variable (lane) in
theorem vdupqNU16_val {p : ℕ} (hp : p < 65536) : (vdupqNU16 p lane).val = p := Nat.mod_eq_of_lt hp

/-- A weighted mean of four elements, with less than one added for rounding. -/
theorem mean_lt {n p q r t bias : ℕ} (w x y z : U8) (hsum : p + q + r + t = 2 ^ n)
    (hbias : bias < 2 ^ n) :
    (p * w.val + q * x.val + r * y.val + t * z.val + bias) / 2 ^ n < 256 := by
  have h1 := Nat.mul_le_mul_left p (Nat.le_of_lt_succ w.isLt)
  have h2 := Nat.mul_le_mul_left q (Nat.le_of_lt_succ x.isLt)
  have h3 := Nat.mul_le_mul_left r (Nat.le_of_lt_succ y.isLt)
  have h4 := Nat.mul_le_mul_left t (Nat.le_of_lt_succ z.isLt)
  exact Nat.div_lt_of_lt_mul (by omega)

/-- With weights that add up to `2 ^ shift`, nothing overflows. -/
theorem lerp2dVectorPQQ1_val {p q bias shift : ℕ} (hsum : p + q + q + 1 = 2 ^ shift)
    (hbias : bias < 2 ^ shift) (hshift : 2 ^ shift ≤ 64) :
    (lerp2dVectorPQQ1 p q bias shift a b c d lane).val =
      (p * (a lane).val + q * (b lane).val + q * (c lane).val + 1 * (d lane).val + bias) /
        2 ^ shift := by
  have ha := Nat.mul_le_mul_left p (Nat.le_of_lt_succ (a lane).isLt)
  have hb := Nat.mul_le_mul_left q (Nat.le_of_lt_succ (b lane).isLt)
  have hc := Nat.mul_le_mul_left q (Nat.le_of_lt_succ (c lane).isLt)
  have hd := (d lane).isLt
  have hbc : q * ((b lane).val + (c lane).val) = q * (b lane).val + q * (c lane).val :=
    Nat.mul_add ..
  have hap := vmlaqU16_val (vmullU8_val a lane (show p < 256 by omega))
    (vaddlU8_val b c lane) (q := q) (by omega) (by omega)
  have hdb : (vaddlU8 d (vdupNU8 bias) lane).val = (d lane).val + bias := by
    rw [vaddlU8_val, vdupNU8_val lane (by omega)]
  refine (vshrnNU16_val shift (vaddqU16_val hap hdb (by omega)) ?_).trans ?_
  · have := mean_lt (a lane) (b lane) (c lane) (d lane) hsum hbias
    rwa [hbc, show ∀ x y z w : ℕ, x + (y + z) + (w + bias) = x + y + z + 1 * w + bias by omega]
  · congr 1
    omega

theorem lerp2dVectorPQQR_val {p q r bias shift : ℕ} (hsum : p + q + q + r = 2 ^ shift)
    (hbias : bias < 2 ^ shift) (hshift : 2 ^ shift ≤ 64) :
    (lerp2dVectorPQQR p q r bias shift a b c d lane).val =
      (p * (a lane).val + q * (b lane).val + q * (c lane).val + r * (d lane).val + bias) /
        2 ^ shift := by
  have ha := Nat.mul_le_mul_left p (Nat.le_of_lt_succ (a lane).isLt)
  have hb := Nat.mul_le_mul_left q (Nat.le_of_lt_succ (b lane).isLt)
  have hc := Nat.mul_le_mul_left q (Nat.le_of_lt_succ (c lane).isLt)
  have hd := Nat.mul_le_mul_left r (Nat.le_of_lt_succ (d lane).isLt)
  have hbc : q * ((b lane).val + (c lane).val) = q * (b lane).val + q * (c lane).val :=
    Nat.mul_add ..
  have hap := vmlaqU16_val (vmullU8_val a lane (show p < 256 by omega))
    (vaddlU8_val b c lane) (q := q) (by omega) (by omega)
  have hdb := vaddqU16_val (vmullU8_val d lane (show r < 256 by omega))
    (vdupqNU16_val lane (show bias < 65536 by omega)) (by omega)
  refine (vshrnNU16_val shift (vaddqU16_val hap hdb (by omega)) ?_).trans ?_
  · have := mean_lt (a lane) (b lane) (c lane) (d lane) hsum hbias
    rwa [hbc, show ∀ x y z w : ℕ, x + (y + z) + (w + bias) = x + y + z + w + bias by omega]
  · congr 1
    omega

theorem Resize2x2.lerp1dVector_val :
    (Resize2x2.lerp1dVector a b lane).val = (3 * (a lane).val + (b lane).val + 2) / 4 := by
  have ha := (a lane).isLt
  have hb := (b lane).isLt
  have hfar : (vaddlU8 b (vdupNU8 2) lane).val = (b lane).val + 2 := by
    rw [vaddlU8_val, vdupNU8_val lane (by decide)]
  have hnear := vmullU8_val a lane (show 3 < 256 by decide)
  have hsum := vaddqU16_val hnear hfar (by omega)
  rw [← Nat.add_assoc] at hsum
  exact vshrnNU16_val 2 hsum (by omega)

theorem Resize4x4.lerp1dVector_val {p q : ℕ} (hsum : p + q = 8) :
    (Resize4x4.lerp1dVector p a q b lane).val =
      (p * (a lane).val + q * (b lane).val + 4) / 8 := by
  have ha := Nat.mul_le_mul_left p (Nat.le_of_lt_succ (a lane).isLt)
  have hb := Nat.mul_le_mul_left q (Nat.le_of_lt_succ (b lane).isLt)
  have hab := vaddqU16_val (vmullU8_val a lane (show p < 256 by omega))
    (vmullU8_val b lane (show q < 256 by omega)) (by omega)
  exact vshrnNU16_val 3 (vaddqU16_val hab (vdupqNU16_val lane (by decide)) (by omega)) (by omega)

theorem Resize4x4.lerp2dVector_val {p q r t : ℕ} (hsum : p + q + r + t = 64) :
    (Resize4x4.lerp2dVector p a q b r c t d lane).val =
      (p * (a lane).val + q * (b lane).val + r * (c lane).val + t * (d lane).val + 32) / 64 := by
  have ha := Nat.mul_le_mul_left p (Nat.le_of_lt_succ (a lane).isLt)
  have hb := Nat.mul_le_mul_left q (Nat.le_of_lt_succ (b lane).isLt)
  have hc := Nat.mul_le_mul_left r (Nat.le_of_lt_succ (c lane).isLt)
  have hd := Nat.mul_le_mul_left t (Nat.le_of_lt_succ (d lane).isLt)
  have hab := vaddqU16_val (vmullU8_val a lane (show p < 256 by omega))
    (vmullU8_val b lane (show q < 256 by omega)) (by omega)
  have hcd := vaddqU16_val (vmullU8_val c lane (show r < 256 by omega))
    (vmullU8_val d lane (show t < 256 by omega)) (by omega)
  have hall := vaddqU16_val (vaddqU16_val hab hcd (by omega))
    (vdupqNU16_val lane (show 32 < 65536 by decide)) (by omega)
  rw [← Nat.add_assoc (_ + _)] at hall
  exact vshrnNU16_val 6 hall (mean_lt _ _ _ _ hsum (by decide))

theorem Resize2x2.lerp2dVector_val :
    (Resize2x2.lerp2dVector a b c d lane).val =
      (9 * (a lane).val + 3 * (b lane).val + 3 * (c lane).val + 1 * (d lane).val + 8) / 16 :=
  lerp2dVectorPQQ1_val (by decide) (by decide) (by decide)

theorem Resize4x4.lerp2dVector_49_7_7_1_val :
    (Resize4x4.lerp2dVector_49_7_7_1 a b c d lane).val =
      (49 * (a lane).val + 7 * (b lane).val + 7 * (c lane).val + 1 * (d lane).val + 32) / 64 :=
  lerp2dVectorPQQ1_val (by decide) (by decide) (by decide)

theorem Resize4x4.lerp2dVector_25_15_15_9_val :
    (Resize4x4.lerp2dVector_25_15_15_9 a b c d lane).val =
      (25 * (a lane).val + 15 * (b lane).val + 15 * (c lane).val + 9 * (d lane).val + 32) / 64 :=
  lerp2dVectorPQQR_val (by decide) (by decide) (by decide)

end

section

variable {a b c d : U8}

theorem Resize2x2.lerp1dScalar_val :
    (Resize2x2.lerp1dScalar a b).val = (3 * a.val + b.val + 2) / 4 := by
  have ha := a.isLt
  have hb := b.isLt
  rw [Resize2x2.lerp1dScalar, scalar_val 2 (by omega), Nat.mul_comm]
  norm_num

theorem Resize2x2.lerp2dScalar_val :
    (Resize2x2.lerp2dScalar a b c d).val =
      (9 * a.val + 3 * b.val + 3 * c.val + d.val + 8) / 16 := by
  have ha := a.isLt
  have hb := b.isLt
  have hc := c.isLt
  have hd := d.isLt
  rw [Resize2x2.lerp2dScalar, scalar_val 4 (by omega)]
  congr 1
  omega

theorem Resize4x4.lerp1dScalar_val {p q : ℕ} (hsum : p + q = 8) :
    (Resize4x4.lerp1dScalar p a q b).val = (p * a.val + q * b.val + 4) / 8 := by
  have ha := Nat.mul_le_mul_left p (Nat.le_of_lt_succ a.isLt)
  have hb := Nat.mul_le_mul_left q (Nat.le_of_lt_succ b.isLt)
  exact scalar_val 3 (by omega)

theorem Resize4x4.lerp2dScalar_val {p q r t : ℕ} (hsum : p + q + r + t = 64) :
    (Resize4x4.lerp2dScalar p a q b r c t d).val =
      (p * a.val + q * b.val + r * c.val + t * d.val + 32) / 64 :=
  scalar_val 6 (mean_lt _ _ _ _ hsum (by decide))

end

/-- The coefficients are those of the interpolation, rounded half up. -/
structure FixedScale.Rounds (scale : FixedScale U8) : Prop where
  edgeScalar : ∀ i < scale.ratio, ∀ a b, (scale.edgeScalar i a b).val =
    (weighted scale.ratio i a b + scale.ratio) / (2 * scale.ratio)
  edgeVector : ∀ i < scale.ratio, ∀ a b lane, (scale.edgeVector i a b lane).val =
    (weighted scale.ratio i (a lane) (b lane) + scale.ratio) / (2 * scale.ratio)
  rowScalar : ∀ j < scale.ratio, ∀ i < scale.ratio, ∀ a b c d,
    (scale.rowScalar j i a b c d).val = quotient scale.ratio j i a b c d
  rowVector : ∀ j < scale.ratio, ∀ i < scale.ratio, ∀ a b c d lane,
    (scale.rowVector j i a b c d lane).val =
      quotient scale.ratio j i (a lane) (b lane) (c lane) (d lane)

theorem resize2x2U8_rounds : resize2x2U8.Rounds := by
  have hratio : resize2x2U8.ratio = 2 := rfl
  constructor
  all_goals rw [hratio]
  · intro i hi a b
    interval_cases i <;>
      simp only [resize2x2U8, Resize2x2.lerp1dScalar_val, weighted, Nat.reduceMul, Nat.reduceAdd,
        Nat.reduceSub] <;> omega
  · intro i hi (a : U8x8) (b : U8x8) (lane : Fin 8)
    interval_cases i <;>
      simp only [resize2x2U8, Resize2x2.lerp1dVector_val, weighted, Nat.reduceMul, Nat.reduceAdd,
        Nat.reduceSub] <;> omega
  · intro j hj i hi a b c d
    interval_cases j <;> interval_cases i <;>
      simp only [resize2x2U8, Resize2x2.lerp2dScalar_val, quotient, weighted, Nat.reduceMul,
        Nat.reduceAdd, Nat.reduceSub] <;> omega
  · intro j hj i hi (a : U8x8) (b : U8x8) (c : U8x8) (d : U8x8) (lane : Fin 8)
    interval_cases j <;> interval_cases i <;>
      simp only [resize2x2U8, Resize2x2.lerp2dVector_val, quotient, weighted, Nat.reduceMul,
        Nat.reduceAdd, Nat.reduceSub] <;> omega

theorem resize4x4U8_rounds : resize4x4U8.Rounds := by
  have hratio : resize4x4U8.ratio = 4 := rfl
  constructor
  all_goals rw [hratio]
  · intro i hi a b
    interval_cases i <;>
      simp (disch := decide) only [resize4x4U8, Resize4x4.lerp1dScalar_val, weighted,
        Nat.reduceMul, Nat.reduceAdd, Nat.reduceSub]
  · intro i hi (a : U8x8) (b : U8x8) (lane : Fin 8)
    interval_cases i <;>
      simp (disch := decide) only [resize4x4U8, Resize4x4.lerp1dVector_val, weighted,
        Nat.reduceMul, Nat.reduceAdd, Nat.reduceSub]
  · intro j hj i hi a b c d
    interval_cases j <;> interval_cases i <;>
      simp (disch := decide) only [resize4x4U8, Resize4x4.lerp2dScalar_val, quotient, weighted,
        Nat.reduceMul, Nat.reduceAdd, Nat.reduceSub] <;> omega
  · intro j hj i hi (a : U8x8) (b : U8x8) (c : U8x8) (d : U8x8) (lane : Fin 8)
    interval_cases j <;> interval_cases i <;>
      simp (disch := decide) only [resize4x4U8, Resize4x4.lerp2dVector_val,
        Resize4x4.lerp2dVector_49_7_7_1_val, Resize4x4.lerp2dVector_25_15_15_9_val, quotient,
        weighted, Nat.reduceMul, Nat.reduceAdd, Nat.reduceSub] <;> omega

/-! ### Pixels -/

/-- The element at `(y, x)` of an image continued beyond its edges. -/
def sourceAt (src : ℕ → U8) (srcPtr srcStride srcWidth srcHeight : ℕ) (y x : ℤ) : U8 :=
  src (srcPtr + srcStride * (Extension.edge.index srcHeight y).toNat +
    (Extension.edge.index srcWidth x).toNat)

namespace FixedScale

variable {scale : FixedScale U8} {src : ℕ → U8} {srcPtr srcStride srcWidth srcHeight : ℕ}

/-- The elements of a row, by the source elements they lie between. -/
theorem lineAt_val {left right : U8} {vector : ℕ → ℕ → Fin scale.lanes → U8}
    {scalar : ℕ → ℕ → U8} (value : ℕ → ℕ → ℕ) (hw : 0 < srcWidth)
    (hleft : ∀ i < scale.ratio, left.val = value 0 i)
    (hright : ∀ i < scale.ratio, right.val = value srcWidth i)
    (hvector : ∀ i < scale.ratio, ∀ srcX lane, srcX + lane.val + 1 < srcWidth →
      (vector i srcX lane).val = value (srcX + lane + 1) i)
    (hscalar : ∀ i < scale.ratio, ∀ srcX, srcX + 1 < srcWidth →
      (scalar i srcX).val = value (srcX + 1) i)
    {c n i : ℕ} (hc : c < srcWidth * scale.ratio) (hi : i < scale.ratio)
    (hn : c + scale.half = n * scale.ratio + i) :
    (scale.lineAt srcWidth left right vector scalar c).val = value n i := by
  obtain ⟨n', i', hi', hn', hcase⟩ := position_cases hw hc
  obtain ⟨rfl, rfl⟩ : n' = n ∧ i' = i := by
    have heq : n' * scale.ratio + i' = n * scale.ratio + i := by omega
    have hdiv := congrArg (· / scale.ratio) heq
    have hmod := congrArg (· % scale.ratio) heq
    simp only [Nat.mul_comm _ scale.ratio, Nat.mul_add_div scale.ratio_pos, Nat.div_eq_of_lt hi,
      Nat.div_eq_of_lt hi', Nat.mul_add_mod, Nat.mod_eq_of_lt hi, Nat.mod_eq_of_lt hi'] at hdiv hmod
    exact ⟨hdiv, hmod⟩
  rw [lineAt]
  rcases hcase with ⟨hfirst, rfl⟩ | ⟨hfirst, hlast, rfl⟩ | ⟨hfirst, hlast, hpos, hlt, hdiv, hmod⟩
  · rw [if_pos hfirst, hleft _ hi]
  · rw [if_neg hfirst, if_pos hlast, hright _ hi]
  · rw [if_neg hfirst, if_neg hlast]
    simp only [hdiv, hmod]
    have hx : (n' - 1) / scale.lanes * scale.lanes + (n' - 1) % scale.lanes = n' - 1 :=
      Nat.div_add_mod' _ _
    split
    · rw [hvector i' hi _ _ (by simp only; omega)]
      simp only [hx]
      rw [Nat.sub_add_cancel hpos]
    · rw [hscalar i' hi _ (by omega), Nat.sub_add_cancel hpos]

/-- The elements of the edge row above or below one source row. -/
theorem edgeAt_val (hscale : scale.Rounds) (hw : 0 < srcWidth) {srcRow j c n i : ℕ}
    (hj : j < scale.ratio) (hc : c < srcWidth * scale.ratio) (hi : i < scale.ratio)
    (hn : c + scale.half = n * scale.ratio + i) :
    (scale.edgeAt src srcWidth srcRow c).val =
      quotient scale.ratio j i (src (srcRow + (n - 1))) (src (srcRow + min n (srcWidth - 1)))
        (src (srcRow + (n - 1))) (src (srcRow + min n (srcWidth - 1))) := by
  refine lineAt_val (fun n i => quotient scale.ratio j i (src (srcRow + (n - 1)))
    (src (srcRow + min n (srcWidth - 1))) (src (srcRow + (n - 1)))
    (src (srcRow + min n (srcWidth - 1)))) hw ?_ ?_ ?_ ?_ hc hi hn
  · intro i hi
    rw [show min 0 (srcWidth - 1) = 0 from Nat.zero_min _]
    exact (quotient_samples hj hi _).symm
  · intro i hi
    rw [show min srcWidth (srcWidth - 1) = srcWidth - 1 by omega]
    exact (quotient_samples hj hi _).symm
  · intro i hi srcX lane hx
    rw [hscale.edgeVector i hi, Nat.min_eq_left (by omega), Nat.add_sub_cancel]
    simp only [vld1q, Nat.add_assoc, Nat.add_comm 1]
    exact (quotient_rows hj i _ _).symm
  · intro i hi srcX hx
    rw [hscale.edgeScalar i hi, Nat.min_eq_left (by omega), Nat.add_sub_cancel]
    exact (quotient_rows hj i _ _).symm

/-- The elements of a row between two source rows. -/
theorem rowAt_val (hscale : scale.Rounds) (hw : 0 < srcWidth) {srcRow0 srcRow1 j c n i : ℕ}
    (hj : j < scale.ratio) (hc : c < srcWidth * scale.ratio) (hi : i < scale.ratio)
    (hn : c + scale.half = n * scale.ratio + i) :
    (scale.rowAt src srcWidth srcRow0 srcRow1 j c).val =
      quotient scale.ratio j i (src (srcRow0 + (n - 1))) (src (srcRow0 + min n (srcWidth - 1)))
        (src (srcRow1 + (n - 1))) (src (srcRow1 + min n (srcWidth - 1))) := by
  refine lineAt_val (fun n i => quotient scale.ratio j i (src (srcRow0 + (n - 1)))
    (src (srcRow0 + min n (srcWidth - 1))) (src (srcRow1 + (n - 1)))
    (src (srcRow1 + min n (srcWidth - 1)))) hw ?_ ?_ ?_ ?_ hc hi hn
  · intro i hi
    rw [hscale.edgeScalar j hj, show min 0 (srcWidth - 1) = 0 from Nat.zero_min _]
    exact (quotient_columns hi j _ _).symm
  · intro i hi
    rw [hscale.edgeScalar j hj, show min srcWidth (srcWidth - 1) = srcWidth - 1 by omega]
    exact (quotient_columns hi j _ _).symm
  · intro i hi srcX lane hx
    rw [hscale.rowVector j hj i hi, Nat.min_eq_left (by omega), Nat.add_sub_cancel]
    simp only [vld1q, Nat.add_assoc, Nat.add_comm 1]
  · intro i hi srcX hx
    rw [hscale.rowScalar j hj i hi, Nat.min_eq_left (by omega), Nat.add_sub_cancel]
    rfl

/-- The source elements on both sides of a position. -/
theorem edge_index {w n : ℕ} (hw : 0 < w) (hn : n ≤ w) :
    (Extension.edge.index w (n - 1)).toNat = n - 1 ∧
      (Extension.edge.index w n).toNat = min n (w - 1) := by
  simp only [Extension.index]
  omega

/-- **Every pixel is the interpolation of the source continued beyond its edges.** -/
theorem pixelAt_eq (hscale : scale.Rounds) (hw : 0 < srcWidth) (hh : 0 < srcHeight) {r c : ℕ}
    (hr : r < srcHeight * scale.ratio) (hc : c < srcWidth * scale.ratio) :
    ((scale.pixelAt src srcPtr srcStride srcWidth srcHeight (r, c)).val : ℤ) =
      roundHalfUp (bilinear
        (fun y x => ((sourceAt src srcPtr srcStride srcWidth srcHeight y x).val : ℕ))
        (centre scale.ratio r) (centre scale.ratio c)) := by
  obtain ⟨n, j, hj, hn, hrow⟩ := position_cases hh hr
  obtain ⟨n', i, hi, hn', hcolumn⟩ := position_cases hw hc
  have hrows := edge_index hh (show n ≤ srcHeight by omega)
  have hcolumns := edge_index hw (show n' ≤ srcWidth by omega)
  have hround := roundHalfUp_bilinear (k := r) (l := c) (i := i) (j := j)
    (fun y x => (sourceAt src srcPtr srcStride srcWidth srcHeight y x).val) hj hn hi hn'
  refine Eq.trans (congrArg Nat.cast ?_) hround.symm
  simp only [sourceAt, hrows, hcolumns, pixelAt]
  rcases hrow with ⟨hfirst, rfl⟩ | ⟨hfirst, hlast, rfl⟩ | ⟨hfirst, hlast, hpos, hlt, hdiv, hmod⟩
  · rw [if_pos hfirst, edgeAt_val hscale hw hj hc hi hn', Nat.zero_min]
    rfl
  · rw [if_neg hfirst, if_pos hlast, edgeAt_val hscale hw hj hc hi hn',
      show min n (n - 1) = n - 1 from Nat.min_eq_right (Nat.sub_le _ _)]
    rfl
  · have hnext : srcPtr + srcStride * (n - 1) + srcStride = srcPtr + srcStride * n := by
      rw [Nat.add_assoc, ← Nat.mul_succ, Nat.succ_eq_add_one, Nat.sub_add_cancel hpos]
    rw [if_neg hfirst, if_neg hlast, hdiv, hmod, rowAt_val hscale hw hj hc hi hn', hnext,
      show min n (srcHeight - 1) = n by omega]
    rfl

end FixedScale

/-! ### The threaded entry point -/

/-- The callback of `kleidicv_thread_resize_linear_fixed_scale_u8`. -/
def FixedScale.batch {α : Type} (scale : FixedScale α) (src : ℕ → α)
    (srcPtr srcStride srcWidth srcHeight dst dstStride yBegin yEnd : ℕ) (m : ℕ → α) :
    KleidicvError × (ℕ → α) :=
  scale.stripe src srcPtr srcStride srcWidth srcHeight yBegin (min srcHeight (yEnd + 1)) dst
    dstStride m

/-- `kleidicv_thread_resize_linear_fixed_scale_u8`. -/
def kleidicvThreadResizeLinearFixedScaleU8 (scale : FixedScale U8) (src : Mem)
    (srcPtr srcStride srcWidth srcHeight dst dstStride : ℕ)
    (mt : Multithreading (taskCount (max 1 (srcHeight - 1)) 1)) (m : Mem) : KleidicvError × Mem :=
  runParallelBatches (scale.batch src srcPtr srcStride srcWidth srcHeight dst dstStride)
    (max 1 (srcHeight - 1)) 1 mt m

/-- **Enlarging by two or four.**  A call on the whole image gives every pixel the
bilinear interpolation at its centre, rounded half up; batches that cover the
gaps between source rows, in any order, give the same image. -/
theorem resizeFixedScaleU8_correct (scale : FixedScale U8)
    (hscale : scale = resize2x2U8 ∨ scale = resize4x4U8) (src : Mem)
    (srcPtr srcStride srcWidth srcHeight dst dstStride : ℕ) (hw : 1 ≤ srcWidth)
    (hh : 1 ≤ srcHeight) (hheight : srcHeight < sizeMod)
    (hstride : srcWidth * scale.ratio ≤ dstStride) (m : Mem) :
    ((scale.stripe src srcPtr srcStride srcWidth srcHeight 0 srcHeight dst dstStride m).1 = .ok ∧
      ∀ y < srcHeight * scale.ratio, ∀ x < srcWidth * scale.ratio,
        (((scale.stripe src srcPtr srcStride srcWidth srcHeight 0 srcHeight dst dstStride m).2
          (dst + y * dstStride + x)).val : ℤ) =
            roundHalfUp (bilinear
              (fun y x => ((sourceAt src srcPtr srcStride srcWidth srcHeight y x).val : ℕ))
              (centre scale.ratio y) (centre scale.ratio x))) ∧
      (∀ batches, IsPartition (max 1 (srcHeight - 1)) batches →
        batches.foldl (fun m r => (scale.batch src srcPtr srcStride srcWidth srcHeight dst dstStride
            r.1 r.2 m).2) m =
          (scale.stripe src srcPtr srcStride srcWidth srcHeight 0 srcHeight dst dstStride m).2) ∧
      ∀ mt, kleidicvThreadResizeLinearFixedScaleU8 scale src srcPtr srcStride srcWidth srcHeight
          dst dstStride mt m =
        scale.stripe src srcPtr srcStride srcWidth srcHeight 0 srcHeight dst dstStride m := by
  have hrounds : scale.Rounds := by
    rcases hscale with rfl | rfl
    · exact resize2x2U8_rounds
    · exact resize4x4U8_rounds
  let rows : Rows := ⟨dst, dstStride, 1⟩
  have hwhole := FixedScale.stripe_wrote rows src srcPtr srcStride 0 hw hh hstride le_rfl
    fun _ _ _ _ (_ : _ < rows.stride) => (rfl : m _ = m _)
  have hbatches : ∀ batches, IsPartition (max 1 (srcHeight - 1)) batches →
      batches.foldl (fun m r => (scale.batch src srcPtr srcStride srcWidth srcHeight dst dstStride
          r.1 r.2 m).2) m =
        (scale.stripe src srcPtr srcStride srcWidth srcHeight 0 srcHeight dst dstStride m).2 :=
    fun batches hl => (FixedScale.batches_wrote rows hw hh hstride hl m).eq_of hwhole
  refine ⟨⟨rfl, fun y hy x hx => ?_⟩, hbatches, fun mt => ?_⟩
  · have hmem : (y, x) ∈ FixedScale.stripeSet scale (srcWidth * scale.ratio) rows.stride srcHeight
        0 srcHeight := FixedScale.mem_stripeSet hh hy hx
    have hvalue := hwhole.value (y, x) hmem
    rw [FixedScale.written, if_pos hx] at hvalue
    rw [← FixedScale.pixelAt_eq hrounds hw hh hy hx, ← hvalue]
    rfl
  · have hrun := runParallelBatches_of_ok
      (scale.batch src srcPtr srcStride srcWidth srcHeight dst dstStride) mt m fun _ _ _ => rfl
    refine hrun.trans (Prod.ext rfl ?_)
    exact hbatches _ (parallelBatches_isPartition (by omega) (by omega) mt.tasks)

/-- Three rows of nine elements, enlarged by four in two batches, the second one
empty. -/
theorem resizeFixedScaleU8_correct_small :
    (((resize4x4U8.stripe (Fin.ofNat 256) 0 9 9 3 0 3 0 40 fun _ => 0).2 (5 * 40 + 34)).val : ℤ) =
        roundHalfUp (bilinear (fun y x => ((sourceAt (Fin.ofNat 256) 0 9 9 3 y x).val : ℕ))
          (centre 4 5) (centre 4 34)) ∧
      [(0, 2), (2, 2)].foldl
          (fun m r => (resize4x4U8.batch (Fin.ofNat 256) 0 9 9 3 0 40 r.1 r.2 m).2) (fun _ => 0) =
        (resize4x4U8.stripe (Fin.ofNat 256) 0 9 9 3 0 3 0 40 fun _ => 0).2 := by
  have h := resizeFixedScaleU8_correct resize4x4U8 (.inr rfl) (Fin.ofNat 256) 0 9 9 3 0 40
    (by decide) (by decide) (by decide) (by decide) fun _ => 0
  have hcover : ∀ i < 2, ∃ r ∈ [(0, 2), (2, 2)], r.1 ≤ i ∧ i < r.2 := fun i hi =>
    ⟨(0, 2), by simp, Nat.zero_le i, hi⟩
  refine ⟨?_, h.2.1 [(0, 2), (2, 2)] ⟨by decide, ?_, hcover⟩⟩
  · have hpixel := h.1.2 5 (by decide) 34 (by decide)
    rwa [Nat.zero_add] at hpixel
  · simp only [List.pairwise_cons, List.mem_singleton, forall_eq, List.not_mem_nil,
      IsEmpty.forall_iff, implies_true, List.Pairwise.nil, and_true]
    omega

end KleidiCV
