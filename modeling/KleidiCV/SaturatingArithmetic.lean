/-
`SaturatingAbsDiff`, `SaturatingMultiply` and `SaturatingAddAbsWithThreshold`, next to
`SaturatingAdd`: exact results, clamped to the range of the elements.

The vector paths are made of saturating instructions, two of them for a signed absolute
difference; the scalar paths test for overflow and choose a bound.

* `ElementRange.value_byte` — an element is read as it was stored;
* `vabdq_eq`, `scalarAbsDiff_eq`, `vmulq_eq`, `scalarMultiply_eq`, `vaddAbs_eq`,
  `scalarAddAbs_eq` — every path of every operation is one clamp;
* `Computes` — what a call leaves in its destination, `computes_of_paths` — that it does;
* `saturating_arithmetic_correct` — all four operations.
-/
import KleidiCV.GaussianBlur
import KleidiCV.ThreadElementOperation

namespace KleidiCV

open ElementOperation (int16Range)

namespace ElementRange

variable (t : ElementRange)

/-- The value of a word. -/
def ofWord (x : BitVec (8 * t.size)) : ℤ := if t.signed then x.toInt else x.toNat

/-- The nearest value of the type. -/
def clamp (x : ℤ) : ℤ := Max.max t.lowest (min t.max x)

/-- The result of an overflow builtin: whether `x` is no value of the type. -/
def overflows (x : ℤ) : Bool := decide (x < t.lowest ∨ t.max < x)

/-! ### The instructions, on one lane -/

/-- `vqsubq`. -/
def vqsub (a b : ℤ) : ℤ := t.clamp (a - b)

/-- `vqabsq`. -/
def vqabs (a : ℤ) : ℤ := t.clamp |a|

/-- `vabdq`, which keeps the lower bits. -/
def vabd (a b : ℤ) : ℤ := t.ofWord (BitVec.ofInt _ |a - b|)

/-- `vmull`, in words of twice the size. -/
def vmull (a b : ℤ) : ℤ :=
  if t.signed then (BitVec.ofInt (2 * (8 * t.size)) (a * b)).toInt
  else (BitVec.ofInt (2 * (8 * t.size)) (a * b)).toNat

/-- `vqmovn`. -/
def vqmovn (a : ℤ) : ℤ := t.clamp a

/-- `vcgtq`: all bits, or none. -/
def vcgt (a b : ℤ) : BitVec (8 * t.size) := if b < a then BitVec.allOnes _ else 0#_

/-- `vandq`. -/
def vand (a : ℤ) (mask : BitVec (8 * t.size)) : ℤ := t.ofWord (BitVec.ofInt _ a &&& mask)

/-! ### The operations -/

/-- `SaturatingAbsDiff::vector_path`. -/
def vabdq (a b : ℤ) : ℤ := if t.signed then t.vqabs (t.vqsub a b) else t.vabd a b

/-- `SaturatingAbsDiff::scalar_path`. -/
def scalarAbsDiff (a b : ℤ) : ℤ :=
  if t.overflows (Max.max a b - min a b) then t.max else Max.max a b - min a b

/-- A lane of `SaturatingMultiply::vector_path`. -/
def vmulq (a b : ℤ) : ℤ := t.vqmovn (t.vmull a b)

/-- `SaturatingMultiply::vector_path`: the halves are multiplied and narrowed on their own. -/
def multiplyVector {n : ℕ} (a b : Fin (2 * n) → ℤ) : Fin (2 * n) → ℤ :=
  let highPart : Fin n → ℤ := fun lane => t.vmull (vgetHigh a lane) (vgetHigh b lane)
  let lowPart : Fin n → ℤ := fun lane => t.vmull (vgetLow a lane) (vgetLow b lane)
  vcombine (fun lane => t.vqmovn (lowPart lane)) fun lane => t.vqmovn (highPart lane)

/-- `SaturatingMultiply::scalar_path`. -/
def scalarMultiply (a b : ℤ) : ℤ :=
  if t.signed then
    if t.overflows (a * b) then
      if (a < 0 ∧ b > 0) ∨ (a > 0 ∧ b < 0) then t.lowest else t.max
    else a * b
  else if t.overflows (a * b) then t.max else a * b

/-- `SaturatingAddAbsWithThreshold::vector_path`. -/
def vaddAbs (threshold a b : ℤ) : ℤ :=
  let addAbs := t.vqadd (t.vqabs a) (t.vqabs b)
  t.vand addAbs (t.vcgt addAbs threshold)

/-- `saturate_abs`. -/
def saturateAbs (input : ℤ) : ℤ := if t.signed ∧ input = t.lowest then t.max else |input|

/-- `SaturatingAddAbsWithThreshold::scalar_path`. -/
def scalarAddAbs (threshold a b : ℤ) : ℤ :=
  let addAbs := if t.overflows (t.saturateAbs a + t.saturateAbs b) then t.max
    else t.saturateAbs a + t.saturateAbs b
  if addAbs > threshold then addAbs else 0

/-! ### Values and words -/

variable {t} {a b x : ℤ}

theorem lowest_le_max : t.lowest ≤ t.max := t.lowest_nonpos.trans t.max_nonneg

theorem clamp_of_mem (h : t.lowest ≤ x ∧ x ≤ t.max) : t.clamp x = x := by
  rw [clamp, min_eq_right h.2, max_eq_right h.1]

theorem clamp_of_max_le (h : t.max ≤ x) : t.clamp x = t.max := by
  rw [clamp, min_eq_left h, max_eq_right lowest_le_max]

theorem clamp_of_le_lowest (h : x ≤ t.lowest) : t.clamp x = t.lowest := by
  rw [clamp, max_eq_left ((min_le_right _ _).trans h)]

theorem clamp_mem (x : ℤ) : t.lowest ≤ t.clamp x ∧ t.clamp x ≤ t.max :=
  ⟨le_max_left _ _, max_le lowest_le_max (min_le_left _ _)⟩

/-- Either an overflow, or what is computed. -/
theorem overflows_iff : t.overflows x = true ↔ x < t.lowest ∨ t.max < x := decide_eq_true_iff

theorem clamp_of_not_overflows (h : ¬t.overflows x = true) : t.clamp x = x := by
  rw [overflows_iff, not_or, not_lt, not_lt] at h
  exact clamp_of_mem h

theorem ofWord_ofInt (h : t.lowest ≤ x ∧ x ≤ t.max) : t.ofWord (BitVec.ofInt _ x) = x := by
  have hsize := t.size_pos
  rw [lowest, max] at h
  rw [ofWord]
  cases hsigned : t.signed with
  | true =>
    simp only [hsigned, if_true] at h ⊢
    exact BitVec.toInt_ofInt_eq_self (by omega) h.1 (by omega)
  | false =>
    simp only [hsigned, Bool.false_eq_true, if_false] at h ⊢
    have hlt : x < ((2 ^ (8 * t.size) : ℕ) : ℤ) := by
      push_cast
      omega
    rw [BitVec.toNat_ofInt, Int.emod_eq_of_lt h.1 hlt, Int.toNat_of_nonneg h.1]

/-- The digits of a number. -/
theorem sum_digits (y n : ℕ) : ∑ i : Fin n, y / 256 ^ (i : ℕ) % 256 * 256 ^ (i : ℕ) = y % 256 ^ n := by
  induction n with
  | zero => rw [Fin.sum_univ_zero, pow_zero, Nat.mod_one]
  | succ n ih =>
    rw [Fin.sum_univ_castSucc, pow_succ, Nat.mod_mul, ← ih, Nat.mul_comm (256 ^ n)]
    rfl

/-- **An element is read as it was stored.** -/
theorem value_byte (h : t.lowest ≤ x ∧ x ≤ t.max) : t.value (t.byte x) = x := by
  have hpow : (2 : ℕ) ^ (8 * t.size) = 256 ^ t.size := by
    rw [pow_mul]
    norm_num
  -- The bytes of `x` are those of the word that holds it.
  have hbyte : ∀ i : Fin t.size, (t.byte x i).toNat =
      (x % 256 ^ t.size).toNat / 256 ^ (i : ℕ) % 256 := by
    intro i
    have hpos : (0 : ℤ) < 256 ^ t.size := by positivity
    have hsplit : (256 : ℤ) ^ t.size = 256 ^ (i : ℕ) * (256 * 256 ^ (t.size - i - 1)) := by
      rw [← pow_succ', ← pow_add]
      congr 1
      omega
    have hdiv : x / 256 ^ (i : ℕ) % 256 = x % 256 ^ t.size / 256 ^ (i : ℕ) % 256 := by
      conv_lhs => rw [← Int.emod_add_mul_ediv x (256 ^ t.size), hsplit, Int.mul_assoc,
        Int.add_mul_ediv_left _ _ (by positivity), Int.mul_assoc, Int.add_mul_emod_self_left]
      rw [← hsplit]
    have hnat : ((x % 256 ^ t.size).toNat : ℤ) = x % 256 ^ t.size :=
      Int.toNat_of_nonneg (Int.emod_nonneg _ hpos.ne')
    show (x / 256 ^ (i : ℕ) % 256).toNat = _
    rw [hdiv, ← hnat]
    exact_mod_cast Int.toNat_natCast _
  have hword : (BitVec.ofNat (8 * t.size) (∑ i, (t.byte x i).toNat * 256 ^ (i : ℕ))) =
      BitVec.ofInt _ x := by
    apply BitVec.eq_of_toNat_eq
    simp only [hbyte]
    rw [sum_digits, BitVec.toNat_ofNat, BitVec.toNat_ofInt, hpow, Nat.mod_mod]
    push_cast
    rw [Nat.mod_eq_of_lt]
    have hlt := Int.emod_lt_of_pos x (show (0 : ℤ) < 256 ^ t.size by positivity)
    have hnonneg := Int.emod_nonneg x (show (256 : ℤ) ^ t.size ≠ 0 by positivity)
    zify
    rwa [Int.toNat_of_nonneg hnonneg]
  rw [value, hword]
  exact ofWord_ofInt h

/-! ### Every path is one clamp -/

theorem max_eq_succ (hsigned : t.signed = true) : t.max = -t.lowest - 1 := by
  rw [max, lowest, if_pos hsigned, if_pos hsigned, neg_neg]

theorem abs_le_succ_max (ha : t.lowest ≤ a ∧ a ≤ t.max) : |a| ≤ t.max + 1 := by
  have hmax := t.max_nonneg
  refine abs_le.mpr ⟨?_, by omega⟩
  cases hsigned : t.signed with
  | true =>
    have := max_eq_succ hsigned
    omega
  | false =>
    have hlow : t.lowest = 0 := by rw [lowest, hsigned]; rfl
    omega

/-- A nonnegative value is only clamped from above. -/
theorem clamp_of_nonneg (h : 0 ≤ x) : t.clamp x = min t.max x :=
  max_eq_right (t.lowest_nonpos.trans (le_min t.max_nonneg h))

theorem clamp_sub_comm : t.clamp |a - b| = t.clamp (Max.max a b - min a b) := by
  rw [max_sub_min_eq_abs, abs_sub_comm]

/-- **Absolute differences in vectors.** -/
theorem vabdq_eq (ha : t.lowest ≤ a ∧ a ≤ t.max) (hb : t.lowest ≤ b ∧ b ≤ t.max) :
    t.vabdq a b = t.clamp |a - b| := by
  cases hsigned : t.signed with
  | true =>
    have hneg := max_eq_succ hsigned
    have hmax := t.max_nonneg
    rw [vabdq, if_pos hsigned, vqabs, vqsub, clamp_of_nonneg (abs_nonneg _),
      clamp_of_nonneg (abs_nonneg _)]
    -- A difference that was clamped is still clamped as an absolute value.
    rcases lt_or_ge t.max (a - b) with habove | hle
    · rw [clamp_of_max_le habove.le, abs_of_nonneg hmax, abs_of_nonneg (by omega), min_self,
        min_eq_left habove.le]
    · rcases lt_or_ge (a - b) t.lowest with hbelow | hge
      · rw [clamp_of_le_lowest hbelow.le, abs_of_nonpos t.lowest_nonpos,
          abs_of_nonpos (hbelow.le.trans t.lowest_nonpos), min_eq_left (by omega),
          min_eq_left (by omega)]
      · rw [clamp_of_mem ⟨hge, hle⟩]
  | false =>
    have hlow : t.lowest = 0 := by rw [lowest, hsigned]; rfl
    have hmem : t.lowest ≤ |a - b| ∧ |a - b| ≤ t.max := by
      rw [hlow]
      exact ⟨abs_nonneg _, abs_le.mpr ⟨by omega, by omega⟩⟩
    rw [vabdq, if_neg (by rw [hsigned]; exact Bool.false_ne_true), vabd, ofWord_ofInt hmem,
      clamp_of_mem hmem]

/-- **Absolute differences of single elements.** -/
theorem scalarAbsDiff_eq (a b : ℤ) : t.scalarAbsDiff a b = t.clamp |a - b| := by
  rw [scalarAbsDiff, clamp_sub_comm]
  split
  next h =>
    have hnonneg : 0 ≤ Max.max a b - min a b := sub_nonneg.mpr min_le_max
    have hlow := t.lowest_nonpos
    rw [overflows_iff] at h
    rw [clamp_of_max_le (by omega)]
  next h => exact (clamp_of_not_overflows h).symm

theorem bits_pos : 0 < 8 * t.size := Nat.mul_pos (by decide) t.size_pos

/-- The product of two values fits twice the size. -/
theorem vmull_eq (ha : t.lowest ≤ a ∧ a ≤ t.max) (hb : t.lowest ≤ b ∧ b ≤ t.max) :
    t.vmull a b = a * b := by
  have hpos := t.bits_pos
  rw [lowest, max] at ha hb
  rw [vmull]
  cases hsigned : t.signed with
  | true =>
    simp only [hsigned, if_true] at ha hb ⊢
    have hword : 2 * (8 * t.size) - 1 = (8 * t.size - 1) + (8 * t.size - 1) + 1 := by omega
    have hP : (0 : ℤ) < 2 ^ (8 * t.size - 1) := by positivity
    have habs : |a * b| ≤ 2 ^ (8 * t.size - 1) * 2 ^ (8 * t.size - 1) := by
      rw [abs_mul]
      exact mul_le_mul (abs_le.mpr ⟨ha.1, by omega⟩) (abs_le.mpr ⟨hb.1, by omega⟩) (abs_nonneg _)
        hP.le
    have hsquare := mul_pos hP hP
    have hab := abs_le.mp habs
    refine BitVec.toInt_ofInt_eq_self (by omega) ?_ ?_
    · rw [hword, pow_succ, pow_add]
      omega
    · rw [hword, pow_succ, pow_add]
      omega
  | false =>
    simp only [hsigned, Bool.false_eq_true, if_false] at ha hb ⊢
    have hP : (0 : ℤ) < 2 ^ (8 * t.size) := by positivity
    have hlt : a * b < 2 ^ (2 * (8 * t.size)) := by
      rw [Nat.two_mul, pow_add]
      exact mul_lt_mul'' (by omega) (by omega) ha.1 hb.1
    have hnonneg := mul_nonneg ha.1 hb.1
    rw [BitVec.toNat_ofInt, Int.emod_eq_of_lt hnonneg (by push_cast; exact hlt),
      Int.toNat_of_nonneg hnonneg]

/-- **Products in vectors.** -/
theorem vmulq_eq (ha : t.lowest ≤ a ∧ a ≤ t.max) (hb : t.lowest ≤ b ∧ b ≤ t.max) :
    t.vmulq a b = t.clamp (a * b) := by
  rw [vmulq, vqmovn, vmull_eq ha hb]

variable (t) in
/-- Each half ends up where it came from. -/
theorem multiplyVector_lane {n : ℕ} (a b : Fin (2 * n) → ℤ) (lane : Fin (2 * n)) :
    t.multiplyVector a b lane = t.vmulq (a lane) (b lane) :=
  GaussianBlur.vcombine_cases (P := fun lane x => x = t.vmulq (a lane) (b lane)) (fun _ => rfl)
    (fun _ => rfl) lane

/-- **Products of single elements**: the signs tell which bound was passed. -/
theorem scalarMultiply_eq (ha : t.lowest ≤ a ∧ a ≤ t.max) (hb : t.lowest ≤ b ∧ b ≤ t.max) :
    t.scalarMultiply a b = t.clamp (a * b) := by
  have hlow := t.lowest_nonpos
  have hmax := t.max_nonneg
  rw [scalarMultiply]
  split
  next hsigned =>
    split
    next hover =>
      rw [overflows_iff] at hover
      split
      next hsigns =>
        have hneg : a * b < 0 := by
          rcases hsigns with ⟨h1, h2⟩ | ⟨h1, h2⟩
          · exact mul_neg_of_neg_of_pos h1 h2
          · exact mul_neg_of_pos_of_neg h1 h2
        rw [clamp_of_le_lowest (by omega)]
      next hsigns =>
        have hnonneg : 0 ≤ a * b := by
          rw [mul_nonneg_iff]
          omega
        rw [clamp_of_max_le (by omega)]
    next hover => exact (clamp_of_not_overflows hover).symm
  next hunsigned =>
    have hzero : t.lowest = 0 := if_neg hunsigned
    split
    next hover =>
      have hnonneg : 0 ≤ a * b := mul_nonneg (hzero ▸ ha.1) (hzero ▸ hb.1)
      rw [overflows_iff] at hover
      rw [clamp_of_max_le (by omega)]
    next hover => exact (clamp_of_not_overflows hover).symm

/-- The absolute sum, and what is left of it above a threshold. -/
def addAbs (t : ElementRange) (threshold a b : ℤ) : ℤ :=
  if threshold < t.clamp (|a| + |b|) then t.clamp (|a| + |b|) else 0

/-- Clamping two summands first makes no difference to their clamped sum. -/
theorem clamp_add_clamp {x y : ℤ} (hx : 0 ≤ x) (hy : 0 ≤ y) :
    t.clamp (t.clamp x + t.clamp y) = t.clamp (x + y) := by
  have hmax := t.max_nonneg
  rw [clamp_of_nonneg hx, clamp_of_nonneg hy, clamp_of_nonneg (add_nonneg hx hy),
    clamp_of_nonneg (add_nonneg (le_min hmax hx) (le_min hmax hy))]
  omega

theorem vqadd_eq (a b : ℤ) : t.vqadd a b = t.clamp (a + b) := rfl

/-- **Absolute sums in vectors.** -/
theorem vaddAbs_eq (threshold a b : ℤ) : t.vaddAbs threshold a b = t.addAbs threshold a b := by
  have hsum : t.vqadd (t.vqabs a) (t.vqabs b) = t.clamp (|a| + |b|) :=
    clamp_add_clamp (abs_nonneg a) (abs_nonneg b)
  rw [vaddAbs, addAbs, hsum, vand, vcgt]
  split
  · rw [BitVec.and_allOnes, ofWord_ofInt (clamp_mem _)]
  · have hzero : t.ofWord (BitVec.ofInt _ 0) = 0 := ofWord_ofInt ⟨t.lowest_nonpos, t.max_nonneg⟩
    rw [BitVec.and_zero]
    exact hzero

theorem saturateAbs_eq (ha : t.lowest ≤ a ∧ a ≤ t.max) : t.saturateAbs a = t.clamp |a| := by
  rw [saturateAbs]
  split
  next h =>
    have hneg := max_eq_succ h.1
    rw [h.2, abs_of_nonpos t.lowest_nonpos, clamp_of_max_le (by omega)]
  next h =>
    refine (clamp_of_mem ⟨t.lowest_nonpos.trans (abs_nonneg a), abs_le.mpr ⟨?_, ha.2⟩⟩).symm
    cases hsigned : t.signed with
    | true =>
      have hneg := max_eq_succ hsigned
      have hne : a ≠ t.lowest := fun heq => h ⟨hsigned, heq⟩
      omega
    | false =>
      have hlow : t.lowest = 0 := by rw [lowest, hsigned]; rfl
      have hmax := t.max_nonneg
      omega

/-- **Absolute sums of single elements.** -/
theorem scalarAddAbs_eq (threshold : ℤ) (ha : t.lowest ≤ a ∧ a ≤ t.max)
    (hb : t.lowest ≤ b ∧ b ≤ t.max) : t.scalarAddAbs threshold a b = t.addAbs threshold a b := by
  have hsum : (if t.overflows (t.saturateAbs a + t.saturateAbs b) then t.max
      else t.saturateAbs a + t.saturateAbs b) = t.clamp (|a| + |b|) := by
    rw [saturateAbs_eq ha, saturateAbs_eq hb, ← clamp_add_clamp (abs_nonneg a) (abs_nonneg b)]
    split
    next h =>
      have h1 := (t.clamp_of_nonneg (abs_nonneg a)).symm ▸ le_min t.max_nonneg (abs_nonneg a)
      have h2 := (t.clamp_of_nonneg (abs_nonneg b)).symm ▸ le_min t.max_nonneg (abs_nonneg b)
      have hlow := t.lowest_nonpos
      rw [overflows_iff] at h
      rw [clamp_of_max_le (by omega)]
    next h => exact (clamp_of_not_overflows h).symm
  rw [scalarAddAbs, hsum, addAbs]

end ElementRange

/-! ### The operations on images -/

/-- An operation on single elements of two images, that is unrolled twice. -/
def elementwise (t : ElementRange) (isUnrolledOnce : Bool) (vectorPath scalarPath : ℤ → ℤ → ℤ) :
    ElementOperation 2 where
  __ := saturatingAdd t
  isUnrolledOnce := isUnrolledOnce
  vectorPath := saturatingAddPath t vectorPath
  scalarPath := saturatingAddPath t scalarPath

/-- `SaturatingAbsDiff`. -/
def saturatingAbsDiff (t : ElementRange) : ElementOperation 2 :=
  elementwise t false t.vabdq t.scalarAbsDiff

/-- `SaturatingMultiply`. -/
def saturatingMultiply (t : ElementRange) : ElementOperation 2 :=
  elementwise t false t.vmulq t.scalarMultiply

/-- `SaturatingAddAbsWithThreshold`. -/
def saturatingAddAbsWithThreshold (t : ElementRange) (threshold : ℤ) : ElementOperation 2 :=
  elementwise t true (t.vaddAbs threshold) (t.scalarAddAbs threshold)

/-- The element of an image at a row and column. -/
def ElementRange.element (t : ElementRange) (image : ElementImage) (m : Mem) (p : ℕ × ℕ) : ℤ :=
  t.value fun i => m (image.ptr + p.1 * image.stride + p.2 * t.size + i)

/-- What an operation is for: a call that passes the checks leaves `f` of the elements that its
sources had in its destination, and changes nothing else. -/
def ElementRange.Computes (t : ElementRange) (op : ElementOperation 2) (f : ℤ → ℤ → ℤ) : Prop :=
  ∀ (c : ElementCall 2) (m : Mem), op.Accepted c → op.Placement c →
    ∃ m', op.call c m = (.ok, m') ∧
      (∀ p ∈ pixels c.width c.height,
        t.element c.dst m' p = f (t.element (c.sources 0) m p) (t.element (c.sources 1) m p)) ∧
      ∀ a, (∀ q ∈ op.bytes c, ElementOperation.dstAt c q ≠ a) → m' a = m a

/-- A byte of what a path gives for the elements of two sources. -/
theorem path_pixel (t : ElementRange) (isUnrolledOnce : Bool) (vector scalar g : ℤ → ℤ → ℤ)
    (c : ElementCall 2) (m : Mem) (p : ℕ × ℕ) (i : Fin (1 * t.size)) :
    saturatingAddPath t g ((elementwise t isUnrolledOnce vector scalar).pixel c m p) i =
      t.byte (g (t.element (c.sources 0) m p) (t.element (c.sources 1) m p))
        (i.cast (Nat.one_mul _)) := by
  have helement : ∀ source : Fin 2, (t.value fun j =>
      (elementwise t isUnrolledOnce vector scalar).pixel c m p source
        (j.cast (Nat.one_mul _).symm)) = t.element (c.sources source) m p := by
    intro source
    refine congrArg t.value (funext fun j => ?_)
    show m (_ + p.2 * (1 * t.size) + j) = _
    rw [Nat.one_mul]
  exact congrArg₂ (fun a b => t.byte (g a b) (i.cast (Nat.one_mul _))) (helement 0) (helement 1)

/-- Paths that agree with `f` on elements. -/
theorem computes_of_paths (t : ElementRange) {isUnrolledOnce : Bool} {vector scalar f : ℤ → ℤ → ℤ}
    (hvector : ∀ a b, t.lowest ≤ a ∧ a ≤ t.max → t.lowest ≤ b ∧ b ≤ t.max → vector a b = f a b)
    (hscalar : ∀ a b, t.lowest ≤ a ∧ a ≤ t.max → t.lowest ≤ b ∧ b ≤ t.max → scalar a b = f a b)
    (hmem : ∀ a b, t.lowest ≤ f a b ∧ f a b ≤ t.max) :
    t.Computes (elementwise t isUnrolledOnce vector scalar) f := by
  intro c m haccepted hplacement
  have hsize : c.width * c.height < sizeMod :=
    haccepted.2.2.trans_lt (by decide)
  have hwrote := ElementOperation.run_wrote hplacement hsize m
  have hok : (elementwise t isUnrolledOnce vector scalar).checks c = .ok :=
    ElementOperation.checks_ok_iff.mpr haccepted
  refine ⟨_, if_neg (not_not.mpr hok), fun p hp => ?_, hwrote.frame⟩
  -- The bytes of an element hold what either path gives for it.
  have hbyte : ∀ i : Fin t.size,
      (elementwise t isUnrolledOnce vector scalar).run c m
          (c.dst.ptr + p.1 * c.dst.stride + p.2 * t.size + i) =
        t.byte (f (t.element (c.sources 0) m p) (t.element (c.sources 1) m p)) i := by
    intro i
    have hpixel : (elementwise t isUnrolledOnce vector scalar).dstPixel = t.size := Nat.one_mul _
    have hcolumn : p.2 * t.size + i < c.width * t.size := pixelByte_lt hp.2 i.isLt
    have hdiv : (p.2 * t.size + i) / (elementwise t isUnrolledOnce vector scalar).dstPixel = p.2 := by
      rw [hpixel, Nat.add_comm, Nat.add_mul_div_right _ _ t.size_pos, Nat.div_eq_of_lt i.isLt, Nat.zero_add]
    have hmod : (p.2 * t.size + i) % t.size = i := by
      rw [Nat.add_comm, Nat.add_mul_mod_self_right, Nat.mod_eq_of_lt i.isLt]
    have hvalue := hwrote.value (p.1, p.2 * t.size + i) ⟨hp.1, by rw [hpixel]; exact hcolumn⟩
    rw [ElementOperation.dstAt, ← Nat.add_assoc] at hvalue
    have hrange : ∀ source, t.lowest ≤ t.element (c.sources source) m p ∧
        t.element (c.sources source) m p ≤ t.max := fun source => t.value_mem _
    have hindex : (⟨(p.2 * t.size + i) % (elementwise t isUnrolledOnce vector scalar).dstPixel,
        Nat.mod_lt _ (elementwise t isUnrolledOnce vector scalar).dst_pos⟩ :
          Fin (1 * t.size)).cast (Nat.one_mul _) = i :=
      Fin.ext ((congrArg ((p.2 * t.size + i) % ·) hpixel).trans hmod)
    rw [hvalue, ElementOperation.valueAt]
    simp only [hdiv]
    split
    · refine (path_pixel t isUnrolledOnce vector scalar vector c m p _).trans ?_
      rw [hvector _ _ (hrange 0) (hrange 1)]
      exact congrArg (t.byte _) hindex
    · refine (path_pixel t isUnrolledOnce vector scalar scalar c m p _).trans ?_
      rw [hscalar _ _ (hrange 0) (hrange 1)]
      exact congrArg (t.byte _) hindex
  rw [ElementRange.element]
  simp only [hbyte]
  exact ElementRange.value_byte (hmem _ _)

theorem saturatingAddAbsWithThreshold_computes (t : ElementRange) (threshold : ℤ) :
    t.Computes (saturatingAddAbsWithThreshold t threshold) (t.addAbs threshold) := by
  refine computes_of_paths t (fun a b _ _ => t.vaddAbs_eq threshold a b)
    (fun a b ha hb => t.scalarAddAbs_eq threshold ha hb) fun a b => ?_
  rw [ElementRange.addAbs]
  split
  · exact t.clamp_mem _
  · exact ⟨t.lowest_nonpos, t.max_nonneg⟩

/-- The threshold is compared with what is left of the sum, so the largest one removes all. -/
theorem ElementRange.addAbs_eq (t : ElementRange) (threshold a b : ℤ) :
    t.addAbs threshold a b = if t.max ≤ threshold then 0
      else t.clamp (if threshold < |a| + |b| then |a| + |b| else 0) := by
  have hsum : 0 ≤ |a| + |b| := add_nonneg (abs_nonneg a) (abs_nonneg b)
  have hzero : t.clamp 0 = 0 := clamp_of_mem ⟨t.lowest_nonpos, t.max_nonneg⟩
  rw [addAbs, clamp_of_nonneg hsum]
  split
  next h =>
    have hlt := lt_min_iff.mp h
    rw [if_neg (by omega), if_pos hlt.2, clamp_of_nonneg hsum]
  next h =>
    split
    next => rfl
    next hmax =>
      rw [if_neg fun hlt => h (lt_min (by omega) hlt), hzero]

/-- **Exact results, clamped**, whatever the type, the sizes and strides of the images, whether
rows are joined, and whether the destination is one of the sources.  An absolute sum is compared
with the threshold after it is clamped, so the largest threshold leaves nothing. -/
theorem saturating_arithmetic_correct (t : ElementRange) :
    t.Computes (saturatingAdd t) (fun a b => t.clamp (a + b)) ∧
    t.Computes (saturatingAbsDiff t) (fun a b => t.clamp |a - b|) ∧
    t.Computes (saturatingMultiply t) (fun a b => t.clamp (a * b)) ∧
    (∀ threshold, t.Computes (saturatingAddAbsWithThreshold t threshold) fun a b =>
      if t.max ≤ threshold then 0
      else t.clamp (if threshold < |a| + |b| then |a| + |b| else 0)) ∧
    ∀ (n : ℕ) (a b : Fin (2 * n) → ℤ) (lane : Fin (2 * n)),
      t.multiplyVector a b lane = t.vmulq (a lane) (b lane) := by
  refine ⟨?_, ?_, ?_, fun threshold => ?_, fun n a b lane => t.multiplyVector_lane a b lane⟩
  · have hadd : saturatingAdd t = elementwise t false t.vqadd t.scalarAdd := rfl
    rw [hadd]
    exact computes_of_paths t (fun _ _ _ _ => rfl)
      (fun a b ha hb => ElementRange.scalarAdd_eq ha hb) fun a b => t.clamp_mem _
  · exact computes_of_paths t (fun a b ha hb => t.vabdq_eq ha hb)
      (fun a b _ _ => t.scalarAbsDiff_eq a b) fun a b => t.clamp_mem _
  · exact computes_of_paths t (fun a b ha hb => t.vmulq_eq ha hb)
      (fun a b ha hb => t.scalarMultiply_eq ha hb) fun a b => t.clamp_mem _
  · have hcomputes := saturatingAddAbsWithThreshold_computes t threshold
    rwa [show t.addAbs threshold = _ from funext₂ (t.addAbs_eq threshold)] at hcomputes

/-- One element of each image. -/
def oneElement : ElementCall 2 where
  sources := fun source => ⟨if source = 0 then 16 else 32, 2⟩
  dst := ⟨48, 2⟩
  width := 1
  height := 1

/-- Memory that is full of the 16-bit number 20000. -/
def twentyThousands : Mem := fun a => if a % 2 = 0 then 32 else 78

/-- Two elements of 20000 have an absolute sum of 40000, which is above the threshold of 32767
but is 32767 itself when it is compared. -/
theorem saturatingAddAbs_largestThreshold :
    int16Range.element (oneElement.sources 0) twentyThousands (0, 0) = 20000 ∧
    int16Range.element (oneElement.sources 1) twentyThousands (0, 0) = 20000 ∧
    int16Range.clamp (if (32767 : ℤ) < |20000| + |20000| then |20000| + |20000| else 0) = 32767 ∧
    (∃ m', (saturatingAddAbsWithThreshold int16Range 32767).call oneElement twentyThousands =
        (.ok, m') ∧ int16Range.element oneElement.dst m' (0, 0) = 0) ∧
    ¬ ∀ threshold, int16Range.Computes (saturatingAddAbsWithThreshold int16Range threshold)
      fun a b => int16Range.clamp (if threshold < |a| + |b| then |a| + |b| else 0) := by
  have hfirst : int16Range.element (oneElement.sources 0) twentyThousands (0, 0) = 20000 := by
    decide
  have hsecond : int16Range.element (oneElement.sources 1) twentyThousands (0, 0) = 20000 := by
    decide
  have hclamp : int16Range.clamp (if (32767 : ℤ) < |20000| + |20000| then |20000| + |20000| else 0) =
      32767 := by decide
  have hmem : ((0, 0) : ℕ × ℕ) ∈ pixels 1 1 := ⟨Nat.one_pos, Nat.one_pos⟩
  have haccepted : (saturatingAddAbsWithThreshold int16Range 32767).Accepted oneElement :=
    ⟨by rw [ElementOperation.HasNull]; decide, fun h => absurd h (by decide), by decide⟩
  have hplacement : (saturatingAddAbsWithThreshold int16Range 32767).Placement oneElement := by
    refine ⟨.inr le_rfl, fun source => .inr ?_⟩
    rintro ⟨y, x⟩ ⟨hy, hx⟩ i hi ⟨y', x'⟩ - heq
    have hptr : ∀ source, (oneElement.sources source).ptr ≤ 32 := by decide
    change i < 1 * 2 at hi
    change y < 1 at hy
    change x < 1 at hx
    change 48 + y' * 2 + x' = (oneElement.sources source).ptr + y * 2 + x * (1 * 2) + i at heq
    have := hptr source
    omega
  obtain ⟨m', hcall, helement, -⟩ := saturatingAddAbsWithThreshold_computes int16Range 32767
    oneElement twentyThousands haccepted hplacement
  have hzero : int16Range.element oneElement.dst m' (0, 0) = 0 := by
    rw [helement _ hmem, hfirst, hsecond]
    decide
  refine ⟨hfirst, hsecond, hclamp, ⟨m', hcall, hzero⟩, fun h => ?_⟩
  obtain ⟨m'', hcall', helement', -⟩ := h 32767 oneElement twentyThousands haccepted hplacement
  have hsame : m' = m'' := (Prod.ext_iff.mp (hcall.symm.trans hcall')).2
  have hlarge := helement' _ hmem
  rw [← hsame, hzero, hfirst, hsecond] at hlarge
  exact absurd (hlarge.trans hclamp) (by decide)

end KleidiCV
