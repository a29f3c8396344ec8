/-
`separable_filter_2d`: two passes of a 5-tap filter over `uint8_t` or `uint16_t`
images.

The vector path adds with saturation and narrows with saturation at the end;
the scalar path stops at the first overflow and answers with the largest
element.  Intermediate results differ between the two, but only where both are
out of the range of an element.

* `verticalVectorPath_spec`, `verticalScalarPath_spec` — the buffer holds the
  weighted sum, up to saturation;
* `horizontalVectorPath_spec`, `horizontalScalarPath_spec` — the clamped
  weighted sum of the buffer;
* `separableFilter2d_correct` — a stripe of an accepted image.
-/
import KleidiCV.Lib.Saturation
import KleidiCV.SeparableWorkspace

open Loop

namespace KleidiCV

/-! ### Vector arithmetic -/

section

variable {α : Type} {n w : ℕ}

/-- `vget_low`. -/
def vgetLow (v : Fin (2 * n) → α) : Fin n → α := fun lane => v ⟨lane, by omega⟩

/-- `vget_high`. -/
def vgetHigh (v : Fin (2 * n) → α) : Fin n → α := fun lane => v ⟨n + lane, by omega⟩

/-- `vcombine`. -/
def vcombine (low high : Fin n → α) : Fin (2 * n) → α := fun lane =>
  if h : lane < n then low ⟨lane, h⟩ else high ⟨lane - n, by omega⟩

/-- `vmull`; the product fits twice the width. -/
def vmull (a b : Fin n → BitVec w) : Fin n → BitVec (2 * w) := fun lane =>
  BitVec.ofNat (2 * w) ((a lane).toNat * (b lane).toNat)

/-- `vmlal`; the sum wraps. -/
def vmlal (acc : Fin n → BitVec (2 * w)) (a b : Fin n → BitVec w) : Fin n → BitVec (2 * w) :=
  fun lane => acc lane + vmull a b lane

/-- `vqadd`, which saturates. -/
def vqadd (a b : Fin n → BitVec w) : Fin n → BitVec w := fun lane =>
  BitVec.ofNat w (min (2 ^ w - 1) ((a lane).toNat + (b lane).toNat))

/-- `vqmovn`: half the width, with saturation. -/
def vqmovn (v : Fin n → BitVec (2 * w)) : Fin n → BitVec w := fun lane =>
  BitVec.ofNat w (min (2 ^ w - 1) (v lane).toNat)

/-- `__builtin_add_overflow`, with no result on overflow. -/
def addOverflow (a b : BitVec w) : Option (BitVec w) :=
  if a.toNat + b.toNat < 2 ^ w then some (a + b) else none

/-- `__builtin_mul_overflow`, with no result on overflow. -/
def mulOverflow {v : ℕ} (a : BitVec v) (b : BitVec w) : Option (BitVec w) :=
  if a.toNat * b.toNat < 2 ^ w then some (BitVec.ofNat w (a.toNat * b.toNat)) else none

end

/-- `SeparableFilter2D<T, 5>`, for elements of `w` bits. -/
structure SeparableFilter2D (w : ℕ) where
  kernelX : ℕ → BitVec w
  kernelY : ℕ → BitVec w

namespace SeparableFilter2D

variable {w k : ℕ} (filter : SeparableFilter2D w)

/-- `vertical_vector_path`, on vectors of `4 * k` elements. -/
def verticalVectorPath (src : ℕ → Fin (2 * (2 * k)) → BitVec w) (dst : ℕ)
    (buffer : ℕ → BitVec (2 * w)) : ℕ → BitVec (2 * w) :=
  let kernelY : ℕ → Fin (2 * (2 * k)) → BitVec w := fun i _ => filter.kernelY i
  let accL := vmull (vgetLow (src 0)) (vgetLow (kernelY 0))
  let accH := vmull (vgetHigh (src 0)) (vgetHigh (kernelY 0))
  let acc := forFrom 1 4 (fun i (accL, accH) =>
    let vecL := vmull (vgetLow (src i)) (vgetLow (kernelY i))
    let vecH := vmull (vgetHigh (src i)) (vgetHigh (kernelY i))
    (vqadd accL vecL, vqadd accH vecH)) (accL, accH)
  vst1q (vst1q buffer dst acc.1) (dst + 2 * k) acc.2

/-- `vertical_scalar_path`. -/
def verticalScalarPath (src : ℕ → BitVec w) (dst : ℕ) (buffer : ℕ → BitVec (2 * w)) :
    ℕ → BitVec (2 * w) :=
  let product := fun i => BitVec.ofNat (2 * w) ((src i).toNat * (filter.kernelY i).toNat)
  let acc := forFrom 1 4 (fun i acc => acc.bind fun acc => addOverflow acc (product i))
    (some (product 0))
  -- On overflow the largest element is stored, not the largest buffer value.
  Function.update buffer dst (acc.getD (BitVec.ofNat (2 * w) (2 ^ w - 1)))

/-- `horizontal_vector_path`, on vectors of `2 * k` buffer values. -/
def horizontalVectorPath (src : ℕ → Fin (2 * k) → BitVec (2 * w)) (dst : ℕ) (m : ℕ → BitVec w) :
    ℕ → BitVec w :=
  let kernelX : ℕ → Fin (2 * k) → BitVec (2 * w) := fun i _ => (filter.kernelX i).setWidth (2 * w)
  let accL := vmull (vgetLow (src 0)) (vgetLow (kernelX 0))
  let accH := vmull (vgetHigh (src 0)) (vgetHigh (kernelX 0))
  let acc := forFrom 1 4 (fun i (accL, accH) =>
    (vmlal accL (vgetLow (src i)) (vgetLow (kernelX i)),
      vmlal accH (vgetHigh (src i)) (vgetHigh (kernelX i)))) (accL, accH)
  vst1q m dst (vqmovn (vcombine (vqmovn acc.1) (vqmovn acc.2)))

/-- `horizontal_scalar_path`. -/
def horizontalScalarPath (src : ℕ → BitVec (2 * w)) (dst : ℕ) (m : ℕ → BitVec w) :
    ℕ → BitVec w :=
  let acc := forFrom 1 4 (fun i acc => acc.bind fun acc =>
      (mulOverflow (src i) (filter.kernelX i)).bind fun temp => addOverflow acc temp)
    (mulOverflow (src 0) (filter.kernelX 0))
  Function.update m dst (acc.getD (BitVec.ofNat w (2 ^ w - 1)))

/-- The class as a `FilterType` of the driver. -/
def filterType (k : ℕ) : SeparableFilterType (BitVec w) (BitVec (2 * w)) (BitVec w) where
  sourceLanes := 2 * (2 * k)
  bufferLanes := 2 * k
  verticalVectorPath := filter.verticalVectorPath
  verticalScalarPath := filter.verticalScalarPath
  horizontalVectorPath := filter.horizontalVectorPath
  horizontalScalarPath := filter.horizontalScalarPath

end SeparableFilter2D

/-! ### Lanes -/

section

variable {α : Type} {n w : ℕ}

theorem vqadd_toNat (a b : Fin n → BitVec w) (lane : Fin n) :
    (vqadd a b lane).toNat = min (2 ^ w - 1) ((a lane).toNat + (b lane).toNat) :=
  toNat_ofNat_min _ _

theorem vqmovn_toNat (v : Fin n → BitVec (2 * w)) (lane : Fin n) :
    (vqmovn v lane).toNat = min (2 ^ w - 1) (v lane).toNat :=
  toNat_ofNat_min _ _

theorem vmull_toNat (a b : Fin n → BitVec w) (lane : Fin n) :
    (vmull a b lane).toNat = (a lane).toNat * (b lane).toNat := by
  rw [vmull, BitVec.toNat_ofNat, Nat.mod_eq_of_lt (toNat_mul_lt _ _)]

/-- An exact total, or none where it is out of range. -/
def IsTotal (total : ℕ) : Option (BitVec w) → Prop
  | some v => v.toNat = total
  | none => 2 ^ w ≤ total

theorem isTotal_mulOverflow {v : ℕ} (a : BitVec v) (b : BitVec w) :
    IsTotal (a.toNat * b.toNat) (mulOverflow a b) := by
  unfold mulOverflow
  split
  · rename_i h
    exact (BitVec.toNat_ofNat _ _).trans (Nat.mod_eq_of_lt h)
  · rename_i h
    exact Nat.not_lt.mp h

theorem isTotal_addOverflow (a b : BitVec w) :
    IsTotal (a.toNat + b.toNat) (addOverflow a b) := by
  unfold addOverflow
  split
  · rename_i h
    exact BitVec.toNat_add_of_lt h
  · rename_i h
    exact Nat.not_lt.mp h

/-- A total stays out of range once it is. -/
theorem IsTotal.add {s t : ℕ} {acc temp : Option (BitVec w)} (h : IsTotal s acc)
    (h' : IsTotal t temp) :
    IsTotal (s + t) (acc.bind fun acc => temp.bind fun temp => addOverflow acc temp) := by
  cases acc with
  | none => exact Nat.le_add_right_of_le h
  | some a =>
    cases temp with
    | none => exact Nat.le_add_left_of_le h'
    | some b =>
      obtain rfl : a.toNat = s := h
      obtain rfl : b.toNat = t := h'
      exact isTotal_addOverflow a b

end

namespace SeparableFilter2D

/-! ### Both paths -/

variable {w k : ℕ} (filter : SeparableFilter2D w)

/-- The weighted sum of the first `n` of the elements above each other. -/
def verticalSum (src : ℕ → BitVec w) (n : ℕ) : ℕ :=
  ∑ i ∈ Finset.range n, (filter.kernelY i).toNat * (src i).toNat

/-- The same for buffer values next to each other. -/
def horizontalSum (src : ℕ → BitVec (2 * w)) (n : ℕ) : ℕ :=
  ∑ i ∈ Finset.range n, (filter.kernelX i).toNat * (src i).toNat

theorem verticalSum_succ (src : ℕ → BitVec w) (n : ℕ) :
    filter.verticalSum src (n + 1) =
      filter.verticalSum src n + (src n).toNat * (filter.kernelY n).toNat := by
  rw [verticalSum, Finset.sum_range_succ, Nat.mul_comm (src n).toNat]
  rfl

theorem verticalSum_one (src : ℕ → BitVec w) :
    filter.verticalSum src 1 = (src 0).toNat * (filter.kernelY 0).toNat := by
  rw [verticalSum_succ, verticalSum, Finset.sum_range_zero, Nat.zero_add]

theorem horizontalSum_succ (src : ℕ → BitVec (2 * w)) (n : ℕ) :
    filter.horizontalSum src (n + 1) =
      filter.horizontalSum src n + (src n).toNat * (filter.kernelX n).toNat := by
  rw [horizontalSum, Finset.sum_range_succ, Nat.mul_comm (src n).toNat]
  rfl

theorem horizontalSum_one (src : ℕ → BitVec (2 * w)) :
    filter.horizontalSum src 1 = (src 0).toNat * (filter.kernelX 0).toNat := by
  rw [horizontalSum_succ, horizontalSum, Finset.sum_range_zero, Nat.zero_add]

/-- What the buffer holds: the weighted sum, up to saturation. -/
def Vertical (src : ℕ → BitVec w) (v : BitVec (2 * w)) : Prop :=
  SatEq (2 ^ w - 1) v.toNat (filter.verticalSum src 5)

/-- What goes to the destination: the clamped weighted sum. -/
def horizontal (src : ℕ → BitVec (2 * w)) : BitVec w :=
  BitVec.ofNat w (min (2 ^ w - 1) (filter.horizontalSum src 5))

theorem maxElement_le (w : ℕ) : 2 ^ w - 1 ≤ 2 ^ (2 * w) - 1 :=
  Nat.sub_le_sub_right (Nat.pow_le_pow_right (by decide) (by omega)) 1

theorem verticalVectorPath_spec (src : ℕ → Fin (2 * (2 * k)) → BitVec w) (dst : ℕ)
    (buffer : ℕ → BitVec (2 * w)) :
    ∃ g, filter.verticalVectorPath src dst buffer = overwrite buffer dst (2 * (2 * k)) g ∧
      ∀ lane : Fin (2 * (2 * k)), filter.Vertical (fun t => src t lane) (g lane) := by
  unfold verticalVectorPath
  simp only
  generalize hloop : (forFrom 1 4 _ _ :
    (Fin (2 * k) → BitVec (2 * w)) × (Fin (2 * k) → BitVec (2 * w))) = acc
  -- Either half of the accumulator, after `n` taps.
  have hacc : (∀ lane, SatEq (2 ^ w - 1) (acc.1 lane).toNat
        (filter.verticalSum (fun t => vgetLow (src t) lane) 5)) ∧
      ∀ lane, SatEq (2 ^ w - 1) (acc.2 lane).toNat
        (filter.verticalSum (fun t => vgetHigh (src t) lane) 5) := by
    rw [← hloop]
    refine forFrom_invariant
      (fun n (acc : (Fin (2 * k) → BitVec (2 * w)) × (Fin (2 * k) → BitVec (2 * w))) =>
        (∀ lane, SatEq (2 ^ w - 1) (acc.1 lane).toNat
          (filter.verticalSum (fun t => vgetLow (src t) lane) n)) ∧
        ∀ lane, SatEq (2 ^ w - 1) (acc.2 lane).toNat
          (filter.verticalSum (fun t => vgetHigh (src t) lane) n)) ⟨fun lane => ?_, fun lane => ?_⟩ ?_
    · rw [verticalSum_one, vmull_toNat]
      exact SatEq.refl _
    · rw [verticalSum_one, vmull_toNat]
      exact SatEq.refl _
    · rintro n - - ⟨accL, accH⟩ ⟨hL, hH⟩
      refine ⟨fun lane => ?_, fun lane => ?_⟩
      · rw [verticalSum_succ]
        simp only [vqadd_toNat, vmull_toNat]
        exact (satEq_min (maxElement_le w) _).trans ((hL lane).add (SatEq.refl _))
      · rw [verticalSum_succ]
        simp only [vqadd_toNat, vmull_toNat]
        exact (satEq_min (maxElement_le w) _).trans ((hH lane).add (SatEq.refl _))
  obtain ⟨gL, heqL, hgL⟩ := vst1q_eq buffer dst acc.1
  obtain ⟨gH, heqH, hgH⟩ := vst1q_eq (overwrite buffer dst (2 * k) gL) (dst + 2 * k) acc.2
  refine ⟨fun j => if j < 2 * k then gL j else gH (j - 2 * k), ?_, fun lane => ?_⟩
  · rw [heqL, heqH, overwrite_append, ← Nat.two_mul]
  · simp only
    by_cases hlane : lane.val < 2 * k
    · rw [if_pos hlane]
      have h := hacc.1 ⟨lane, hlane⟩
      rwa [← hgL] at h
    · rw [if_neg hlane]
      have h := hacc.2 ⟨lane - 2 * k, by omega⟩
      have hsrc : ∀ t, vgetHigh (src t) ⟨lane - 2 * k, by omega⟩ = src t lane := fun t =>
        congrArg (src t) (Fin.ext (by simp only; omega))
      simp only [hsrc] at h
      rwa [← hgH] at h

theorem verticalScalarPath_spec (src : ℕ → BitVec w) (dst : ℕ) (buffer : ℕ → BitVec (2 * w)) :
    ∃ v, filter.verticalScalarPath src dst buffer = Function.update buffer dst v ∧
      filter.Vertical src v := by
  refine ⟨_, rfl, ?_⟩
  have hproduct : ∀ i, IsTotal ((src i).toNat * (filter.kernelY i).toNat)
      (some (BitVec.ofNat (2 * w) ((src i).toNat * (filter.kernelY i).toNat))) := fun i =>
    (BitVec.toNat_ofNat _ _).trans (Nat.mod_eq_of_lt (toNat_mul_lt _ _))
  generalize hloop : forFrom 1 4 _ _ = acc
  have hacc : IsTotal (filter.verticalSum src 5) acc := by
    rw [← hloop]
    refine forFrom_invariant (fun n acc => IsTotal (filter.verticalSum src n) acc) ?_ ?_
    · rw [verticalSum_one]
      exact hproduct 0
    · intro n _ _ acc h
      rw [verticalSum_succ]
      exact h.add (hproduct n)
  cases acc with
  | some v => exact congrArg _ hacc
  | none =>
    have hmax := maxElement_le w
    have hpos := Nat.two_pow_pos (2 * w)
    refine SatEq.of_le ?_ (hmax.trans ((Nat.sub_le _ _).trans hacc))
    rw [Option.getD_none, BitVec.toNat_ofNat, Nat.mod_eq_of_lt (by omega)]

/-- Five products fit the accumulators of the horizontal pass. -/
theorem horizontalSum_lt (hw : 3 ≤ w) (src : ℕ → BitVec (2 * w)) {n : ℕ} (hn : n ≤ 5) :
    filter.horizontalSum src n < 2 ^ (2 * (2 * w)) := by
  have hterm : ∀ i ∈ Finset.range n,
      (filter.kernelX i).toNat * (src i).toNat ≤ 2 ^ w * 2 ^ (2 * w) - 1 := fun i _ =>
    Nat.le_sub_one_of_lt (Nat.mul_lt_mul'' (filter.kernelX i).isLt (src i).isLt)
  have hsum := Finset.sum_le_card_nsmul _ _ _ hterm
  rw [Finset.card_range, smul_eq_mul] at hsum
  have h8 : 2 ^ 3 ≤ 2 ^ w := Nat.pow_le_pow_right (by decide) hw
  have hpos : 0 < 2 ^ w * 2 ^ (2 * w) := Nat.mul_pos (Nat.two_pow_pos _) (Nat.two_pow_pos _)
  calc filter.horizontalSum src n ≤ n * (2 ^ w * 2 ^ (2 * w) - 1) := hsum
    _ ≤ 5 * (2 ^ w * 2 ^ (2 * w) - 1) := Nat.mul_le_mul_right _ hn
    _ < 8 * (2 ^ w * 2 ^ (2 * w)) := by omega
    _ ≤ 2 ^ w * (2 ^ w * 2 ^ (2 * w)) := Nat.mul_le_mul_right _ h8
    _ = 2 ^ (2 * (2 * w)) := by
      rw [← pow_add, ← pow_add]
      congr 1
      omega

/-- One more tap, in one lane of a half of the accumulator. -/
theorem vmlal_toNat {n m : ℕ} (hw : 3 ≤ w) (hn : n + 1 ≤ 5) (src : ℕ → Fin m → BitVec (2 * w))
    (acc : Fin m → BitVec (2 * (2 * w))) (lane : Fin m)
    (h : (acc lane).toNat = filter.horizontalSum (fun t => src t lane) n) :
    (vmlal acc (src n) (fun _ => (filter.kernelX n).setWidth (2 * w)) lane).toNat =
      filter.horizontalSum (fun t => src t lane) (n + 1) := by
  have hlt := filter.horizontalSum_lt hw (fun t => src t lane) hn
  rw [horizontalSum_succ] at hlt ⊢
  have hkernel : ((filter.kernelX n).setWidth (2 * w)).toNat = (filter.kernelX n).toNat :=
    BitVec.toNat_setWidth_of_le (by omega)
  rw [vmlal, BitVec.toNat_add, vmull_toNat, h, hkernel, Nat.mod_eq_of_lt hlt]

theorem horizontalVectorPath_spec (hw : 3 ≤ w) (src : ℕ → Fin (2 * k) → BitVec (2 * w)) (dst : ℕ)
    (m : ℕ → BitVec w) :
    ∃ g, filter.horizontalVectorPath src dst m = overwrite m dst (2 * k) g ∧
      ∀ lane : Fin (2 * k), g lane = filter.horizontal fun t => src t lane := by
  unfold horizontalVectorPath
  simp only
  generalize hloop : (forFrom 1 4 _ _ :
    (Fin k → BitVec (2 * (2 * w))) × (Fin k → BitVec (2 * (2 * w)))) = acc
  have hfirst : ∀ (src : ℕ → Fin k → BitVec (2 * w)) (lane : Fin k),
      (vmull (src 0) (fun _ => (filter.kernelX 0).setWidth (2 * w)) lane).toNat =
        filter.horizontalSum (fun t => src t lane) 1 := fun src lane => by
    rw [horizontalSum_one, vmull_toNat, BitVec.toNat_setWidth_of_le (by omega)]
  have hacc : (∀ lane, (acc.1 lane).toNat =
        filter.horizontalSum (fun t => vgetLow (src t) lane) 5) ∧
      ∀ lane, (acc.2 lane).toNat =
        filter.horizontalSum (fun t => vgetHigh (src t) lane) 5 := by
    rw [← hloop]
    refine forFrom_invariant
      (fun n (acc : (Fin k → BitVec (2 * (2 * w))) × (Fin k → BitVec (2 * (2 * w)))) =>
        (∀ lane, (acc.1 lane).toNat = filter.horizontalSum (fun t => vgetLow (src t) lane) n) ∧
        ∀ lane, (acc.2 lane).toNat = filter.horizontalSum (fun t => vgetHigh (src t) lane) n)
      ⟨hfirst fun t => vgetLow (src t), hfirst fun t => vgetHigh (src t)⟩ ?_
    rintro n - hn ⟨accL, accH⟩ ⟨hL, hH⟩
    exact ⟨fun lane => filter.vmlal_toNat hw (by omega) (fun t => vgetLow (src t)) accL lane (hL lane),
      fun lane => filter.vmlal_toNat hw (by omega) (fun t => vgetHigh (src t)) accH lane (hH lane)⟩
  obtain ⟨g, heq, hg⟩ := vst1q_eq m dst (vqmovn (vcombine (vqmovn acc.1) (vqmovn acc.2)))
  refine ⟨g, heq, fun lane => BitVec.eq_of_toNat_eq ?_⟩
  have hmax := maxElement_le w
  rw [hg, vqmovn_toNat, horizontal, toNat_ofNat_min, vcombine]
  by_cases hlane : lane.val < k
  · rw [dif_pos hlane, vqmovn_toNat, hacc.1]
    exact satEq_min hmax _
  · have hsrc : ∀ t, vgetHigh (src t) ⟨lane - k, by omega⟩ = src t lane := fun t =>
      congrArg (src t) (Fin.ext (by simp only; omega))
    rw [dif_neg hlane, vqmovn_toNat, hacc.2]
    simp only [hsrc]
    exact satEq_min hmax _

theorem horizontalScalarPath_spec (src : ℕ → BitVec (2 * w)) (dst : ℕ) (m : ℕ → BitVec w) :
    filter.horizontalScalarPath src dst m = Function.update m dst (filter.horizontal src) := by
  unfold horizontalScalarPath
  simp only
  generalize hloop : (forFrom 1 4 _ _ : Option (BitVec w)) = acc
  have hacc : IsTotal (filter.horizontalSum src 5) acc := by
    rw [← hloop]
    refine forFrom_invariant (fun n acc => IsTotal (filter.horizontalSum src n) acc) ?_ ?_
    · rw [horizontalSum_one]
      exact isTotal_mulOverflow _ _
    · intro n _ _ acc h
      rw [horizontalSum_succ]
      exact h.add (isTotal_mulOverflow _ _)
  have hpos := Nat.two_pow_pos w
  congr 1
  refine BitVec.eq_of_toNat_eq ?_
  rw [horizontal, toNat_ofNat_min]
  cases acc with
  | some v =>
    have htotal : v.toNat = filter.horizontalSum src 5 := hacc
    have hlt := v.isLt
    rw [Option.getD_some]
    omega
  | none =>
    have htotal : 2 ^ w ≤ filter.horizontalSum src 5 := hacc
    rw [Option.getD_none, BitVec.toNat_ofNat, Nat.mod_eq_of_lt (by omega)]
    omega

/-- **Both paths compute the same**: vertically up to saturation, horizontally
exactly. -/
theorem filterType_computes (hw : 3 ≤ w) (hk : 0 < k) :
    (filter.filterType k).Computes 5 filter.Vertical filter.horizontal where
  sourceLanes_pos := by
    show 0 < 2 * (2 * k)
    omega
  bufferLanes_pos := by
    show 0 < 2 * k
    omega
  verticalVector := filter.verticalVectorPath_spec
  verticalScalar := filter.verticalScalarPath_spec
  horizontalVector := filter.horizontalVectorPath_spec hw
  horizontalScalar := filter.horizontalScalarPath_spec
  vertical_congr := by
    intro src src' v h hv
    have hsum : filter.verticalSum src' 5 = filter.verticalSum src 5 :=
      Finset.sum_congr rfl fun i hi => by rw [h i (Finset.mem_range.mp hi)]
    unfold Vertical at hv ⊢
    rwa [hsum]
  horizontal_congr := by
    intro src src' h
    have hsum : filter.horizontalSum src 5 = filter.horizontalSum src' 5 :=
      Finset.sum_congr rfl fun i hi => by rw [h i (Finset.mem_range.mp hi)]
    rw [horizontal, horizontal, hsum]

end SeparableFilter2D

/-! ### The entry points -/

/-- The element types of `separable_filter_2d`. -/
inductive FilterElement
  | u8
  | u16
  deriving DecidableEq, Repr

namespace FilterElement

/-- `sizeof(T)`. -/
def size : FilterElement → ℕ
  | u8 => 1
  | u16 => 2

/-- The bits of an element. -/
abbrev bits (T : FilterElement) : ℕ := 8 * T.size

/-- Lanes of a vector of elements four times as wide. -/
def wideLanes (T : FilterElement) : ℕ := 4 / T.size

end FilterElement

/-- Rows of elements of `sz` bytes; accepted pointers and strides are multiples
of `sz`. -/
def elementRows (sz ptr stride channels : ℕ) : Rows := ⟨ptr / sz, stride / sz, channels⟩

section

variable (T : FilterElement)

/-- `separable_filter_2d_checks<T>`; a null kernel is `none`. -/
def separableFilter2dChecks (src srcStride dst dstStride width height : ℕ)
    (kernelX kernelY : Option (ℕ → BitVec T.bits)) : KleidicvError :=
  if checkPointerAndStride T.size src srcStride height ≠ .ok then
    checkPointerAndStride T.size src srcStride height
  else if checkPointerAndStride T.size dst dstStride height ≠ .ok then
    checkPointerAndStride T.size dst dstStride height
  else if !checkImageSize width height then .range
  else if kernelX.isNone || kernelY.isNone then .nullPointer
  else .ok

/-- `separable_filter_2d_validate<T>`. -/
def separableFilter2dValidate (src srcStride dst dstStride width height channels : ℕ)
    (kernelX : Option (ℕ → BitVec T.bits)) (kernelWidth : ℕ)
    (kernelY : Option (ℕ → BitVec T.bits)) (kernelHeight : ℕ) (borderType : BorderType) :
    Except KleidicvError FixedBorderType :=
  if kernelWidth ≠ 5 ∨ kernelHeight ≠ 5 then .error .notImplemented
  else if width < kernelWidth - 1 ∨ height < kernelWidth - 1 then .error .notImplemented
  else
    match getFixedBorderType borderType with
    | none => .error .notImplemented
    | some fixedBorderType =>
      let checkError := separableFilter2dChecks T src srcStride dst dstStride width height kernelX
        kernelY
      if checkError ≠ .ok then .error checkError
      else if kleidicvMaximumChannelCount < channels then .error .notImplemented
      else .ok fixedBorderType

/-- `separable_filter_2d_stripe<T>` on the elements `srcElements`; `allocation` is
what `malloc` returns. -/
def separableFilter2dStripe (srcElements : ℕ → BitVec T.bits)
    (src srcStride dst dstStride width height yBegin yEnd channels : ℕ)
    (kernelX kernelY : ℕ → BitVec T.bits) (fixedBorderType : FixedBorderType)
    (allocation : Option (ℕ → BitVec (2 * T.bits))) (dstElements : ℕ → BitVec T.bits) :
    KleidicvError × (ℕ → BitVec T.bits) :=
  match allocation with
  | none => (.allocation, dstElements)
  | some buffer =>
    let filterClass : SeparableFilter2D T.bits := ⟨kernelX, kernelY⟩
    (.ok, (SeparableFilterWorkspace.process (filterClass.filterType T.wideLanes)
      FixedBorderInfo5x5.info width height yBegin yEnd srcElements
      (elementRows T.size src srcStride channels) ⟨0, width * channels + 3, channels⟩
      (elementRows T.size dst dstStride channels) fixedBorderType (buffer, dstElements)).2)

/-- `kleidicv_separable_filter_2d_u8` and `kleidicv_separable_filter_2d_u16`. -/
def kleidicvSeparableFilter2d (srcElements : ℕ → BitVec T.bits)
    (src srcStride dst dstStride width height channels : ℕ)
    (kernelX : Option (ℕ → BitVec T.bits)) (kernelWidth : ℕ)
    (kernelY : Option (ℕ → BitVec T.bits)) (kernelHeight : ℕ) (borderType : BorderType)
    (allocation : Option (ℕ → BitVec (2 * T.bits))) (dstElements : ℕ → BitVec T.bits) :
    KleidicvError × (ℕ → BitVec T.bits) :=
  match separableFilter2dValidate T src srcStride dst dstStride width height channels kernelX
      kernelWidth kernelY kernelHeight borderType, kernelX, kernelY with
  | .error error, _, _ => (error, dstElements)
  | .ok fixedBorderType, some kernelX, some kernelY =>
    separableFilter2dStripe T srcElements src srcStride dst dstStride width height 0 height channels
      kernelX kernelY fixedBorderType allocation dstElements
  -- Not reached, the checks turn null kernels away.
  | .ok _, _, _ => (.nullPointer, dstElements)

end

/-! ### The result -/

section

variable {T : FilterElement} {src srcStride dst dstStride width height channels : ℕ}
  {kernelX kernelY : ℕ → BitVec T.bits} {b : FixedBorderType} {srcElements : ℕ → BitVec T.bits}

/-- What an accepted call promises. -/
theorem separableFilter2dValidate_ok {kernelX kernelY : Option (ℕ → BitVec T.bits)}
    {kernelWidth kernelHeight : ℕ} {borderType : BorderType}
    (h : separableFilter2dValidate T src srcStride dst dstStride width height channels kernelX
      kernelWidth kernelY kernelHeight borderType = .ok b) :
    4 ≤ width ∧ 4 ≤ height ∧ width * height ≤ kleidicvMaxImagePixels := by
  unfold separableFilter2dValidate at h
  by_cases h5 : kernelWidth ≠ 5 ∨ kernelHeight ≠ 5
  · rw [if_pos h5] at h
    cases h
  by_cases hsize : width < kernelWidth - 1 ∨ height < kernelWidth - 1
  · rw [if_neg h5, if_pos hsize] at h
    cases h
  rw [if_neg h5, if_neg hsize] at h
  cases htype : getFixedBorderType borderType with
  | none =>
    rw [htype] at h
    cases h
  | some fixedBorderType =>
    simp only [htype] at h
    by_cases hchecks : separableFilter2dChecks T src srcStride dst dstStride width height kernelX
        kernelY = .ok
    · have himage : width * height ≤ kleidicvMaxImagePixels := by
        rw [separableFilter2dChecks] at hchecks
        split_ifs at hchecks with h1 h2 h3
        · exact absurd hchecks h1
        · exact absurd hchecks h2
        · exact checkImageSize_iff.mp (by simpa using h3)
      exact ⟨by omega, by omega, himage⟩
    · rw [if_pos hchecks] at h
      cases h

/-- The sum over the taps, in unbounded integers. -/
def exactSum (kernelX kernelY : ℕ → BitVec T.bits) (srcElements : ℕ → BitVec T.bits)
    (srcRows : Rows) (width height : ℕ) (b : FixedBorderType) (y x c : ℕ) : ℕ :=
  ∑ i ∈ Finset.range 5, ∑ j ∈ Finset.range 5, (kernelY i).toNat * (kernelX j).toNat *
    (srcElements (srcRows.ptrAt (b.extension.index height ((y : ℤ) + i - 2))
      (b.extension.index width ((x : ℤ) + j - 2)) c)).toNat

/-- From `m` to `m'`, the clamped sums of all pixels of the rows from `yBegin` up to
`yEnd` were written, and nothing else. -/
structure FilteredRows (kernelX kernelY : ℕ → BitVec T.bits) (srcElements : ℕ → BitVec T.bits)
    (srcRows dstRows : Rows) (width height : ℕ) (b : FixedBorderType) (yBegin yEnd : ℕ)
    (m m' : ℕ → BitVec T.bits) : Prop where
  value : ∀ y x c, yBegin ≤ y → y < yEnd → x < width → c < dstRows.channels →
    (m' (dstRows.ptrAt y x c)).toNat = min (2 ^ T.bits - 1)
      (exactSum kernelX kernelY srcElements srcRows width height b y x c)
  frame : ∀ a, (∀ y x c : ℕ, yBegin ≤ y → y < yEnd → x < width → c < dstRows.channels →
    dstRows.ptrAt y x c ≠ a) → m' a = m a

/-- Clamping between the passes does not show in the result. -/
theorem horizontal_exactSum {filter : SeparableFilter2D T.bits} {srcRows : Rows} {y x c : ℕ}
    {buffer : ℕ → BitVec (2 * T.bits)} (hwidth : 4 ≤ width) (hheight : 4 ≤ height)
    (hc : c < srcRows.channels)
    (hbuffer : ∀ e < width * srcRows.channels, filter.Vertical (fun t => srcElements
      (srcRows.address (FixedBorderInfo5x5.info.sample b height y t, e))) (buffer e)) :
    (filter.horizontal fun t =>
        buffer (FixedBorderInfo5x5.info.sample b width x t * srcRows.channels + c)).toNat =
      min (2 ^ T.bits - 1)
        (exactSum filter.kernelX filter.kernelY srcElements srcRows width height b y x c) := by
  have hmargin : FixedBorderInfo5x5.info.margin = 2 := rfl
  have hindex : ∀ {n i t : ℕ}, 4 ≤ n → b.extension.index n ((i : ℤ) + t - 2) =
      (FixedBorderInfo5x5.info.sample b n i t : ℕ) := fun hn =>
    (Int.toNat_of_nonneg (b.extension.index_mem (by omega)).1).symm
  rw [SeparableFilter2D.horizontal, toNat_ofNat_min, exactSum, Finset.sum_comm]
  -- Column by column, the buffer value against the exact vertical sum.
  refine SatEq.sum _ fun j hj => ?_
  have hcolumn := FixedBorderInfo5x5.info.sample_lt (b := b) (n := width) (by omega) x j
  have hvertical := hbuffer (FixedBorderInfo5x5.info.sample b width x j * srcRows.channels + c)
    (pixelByte_lt hcolumn hc)
  refine (SatEq.mul hvertical _).trans ?_
  rw [SeparableFilter2D.verticalSum, Finset.mul_sum, Finset.sum_congr rfl fun i _ => ?_]
  · exact SatEq.refl _
  · rw [hindex hheight, hindex hwidth, Rows.ptrAt_natCast, Rows.address]
    simp only [Nat.add_assoc]
    ring

/-- The stripe of an image of a valid size, with a driver that is exact up to saturation. -/
theorem SeparableDriver.process_filteredRows (filter : SeparableFilter2D T.bits)
    {driver : SeparableDriver (BitVec T.bits) (BitVec (2 * T.bits)) (BitVec T.bits)}
    {valid : BitVec (2 * T.bits) → Prop} {vertical : (ℕ → BitVec T.bits) → BitVec (2 * T.bits) → Prop}
    (hf : driver.ComputesOn 5 valid vertical filter.horizontal)
    (hvertical : ∀ src v, vertical src v → filter.Vertical src v) (srcRows dstRows : Rows)
    (hwidth : 4 ≤ width) (hmax : width < 2 ^ 63) (hheight : 4 ≤ height) (hhmax : height < 2 ^ 63)
    (hsrc : srcRows.channels = dstRows.channels)
    (hstride : width * dstRows.channels ≤ dstRows.stride) {yBegin yEnd : ℕ} (hle : yBegin ≤ yEnd)
    (hend : yEnd ≤ height) (stride : ℕ) (buffer : ℕ → BitVec (2 * T.bits)) (m : ℕ → BitVec T.bits) :
    FilteredRows filter.kernelX filter.kernelY srcElements srcRows dstRows width height b yBegin yEnd
      m (driver.process FixedBorderInfo5x5.info width height yBegin yEnd srcElements srcRows
        ⟨0, stride, dstRows.channels⟩ dstRows b (buffer, m)).2 := by
  have hwrote : Wrote dstRows.address (fun p => BitVec.ofNat T.bits (min (2 ^ T.bits - 1)
        (exactSum filter.kernelX filter.kernelY srcElements srcRows width height b p.1
          (p.2 / dstRows.channels) (p.2 % dstRows.channels))))
      (stripeElements (width * dstRows.channels) yBegin yEnd) m _ :=
    SeparableDriver.process_wrote hf hwidth hmax hheight hhmax
      (show (⟨0, stride, dstRows.channels⟩ : Rows).ptr = 0 from rfl) hsrc rfl hstride
      (fun y hy buffer hbuffer e he => by
        have hpos : 0 < dstRows.channels := Nat.pos_of_ne_zero fun h => by simp [h] at he
        refine BitVec.eq_of_toNat_eq ?_
        rw [toNat_ofNat_min]
        rw [← hsrc] at hbuffer hpos ⊢
        exact horizontal_exactSum hwidth hheight (Nat.mod_lt _ hpos)
          fun e he => hvertical _ _ (hbuffer e he)) hle hend buffer m
  obtain ⟨hpixels, hframe⟩ := stripe_pixels hwrote
  refine ⟨fun y x c h1 h2 hx hc => ?_, hframe⟩
  rw [hpixels y x c h1 h2 hx hc, toNat_ofNat_min, Nat.mul_comm x, Nat.mul_add_mod,
    Nat.mod_eq_of_lt hc, Nat.mul_add_div (by omega), Nat.div_eq_of_lt hc, Nat.add_zero]

/-- The stripe of an image of a valid size. -/
theorem process_filteredRows (filter : SeparableFilter2D T.bits) (srcRows dstRows : Rows)
    (hwidth : 4 ≤ width) (hmax : width < 2 ^ 63) (hheight : 4 ≤ height) (hhmax : height < 2 ^ 63)
    (hsrc : srcRows.channels = dstRows.channels)
    (hstride : width * dstRows.channels ≤ dstRows.stride) {yBegin yEnd : ℕ} (hle : yBegin ≤ yEnd)
    (hend : yEnd ≤ height) (stride : ℕ) (buffer : ℕ → BitVec (2 * T.bits)) (m : ℕ → BitVec T.bits) :
    FilteredRows filter.kernelX filter.kernelY srcElements srcRows dstRows width height b yBegin yEnd
      m (SeparableFilterWorkspace.process (filter.filterType T.wideLanes) FixedBorderInfo5x5.info
        width height yBegin yEnd srcElements srcRows ⟨0, stride, dstRows.channels⟩ dstRows b
        (buffer, m)).2 := by
  have hbits : 3 ≤ T.bits := by cases T <;> decide
  have hlanes : 0 < T.wideLanes := by cases T <;> decide
  have hf := (filter.filterType_computes hbits hlanes).computesOn.driver FixedBorderInfo5x5.info
  exact SeparableDriver.process_filteredRows filter hf (fun _ _ hv => hv) srcRows dstRows hwidth hmax
    hheight hhmax hsrc hstride hle hend stride buffer m

/-- **Every pixel of a stripe is the clamped exact sum**, for both element types
and every border type; the entry point runs the stripe with all rows. -/
theorem separableFilter2d_correct {kernelWidth kernelHeight : ℕ} {borderType : BorderType}
    (hvalid : separableFilter2dValidate T src srcStride dst dstStride width height channels
      (some kernelX) kernelWidth (some kernelY) kernelHeight borderType = .ok b)
    (hstride : width * channels ≤ dstStride / T.size) (buffer : ℕ → BitVec (2 * T.bits))
    (m : ℕ → BitVec T.bits) :
    (∀ yBegin yEnd, yBegin ≤ yEnd → yEnd ≤ height →
      ∃ m', separableFilter2dStripe T srcElements src srcStride dst dstStride width height yBegin yEnd
          channels kernelX kernelY b (some buffer) m = (.ok, m') ∧
        FilteredRows kernelX kernelY srcElements (elementRows T.size src srcStride channels)
          (elementRows T.size dst dstStride channels) width height b yBegin yEnd m m') ∧
    kleidicvSeparableFilter2d T srcElements src srcStride dst dstStride width height channels
        (some kernelX) kernelWidth (some kernelY) kernelHeight borderType (some buffer) m =
      separableFilter2dStripe T srcElements src srcStride dst dstStride width height 0 height channels
        kernelX kernelY b (some buffer) m := by
  obtain ⟨hwidth, hheight, himage⟩ := separableFilter2dValidate_ok hvalid
  have hmax : kleidicvMaxImagePixels < 2 ^ 63 := by decide
  have hw : width ≤ width * height := Nat.le_mul_of_pos_right _ (by omega)
  have hh : height ≤ width * height := Nat.le_mul_of_pos_left _ (by omega)
  refine ⟨fun yBegin yEnd hle hend => ⟨_, rfl, ?_⟩, ?_⟩
  · exact process_filteredRows ⟨kernelX, kernelY⟩ (elementRows T.size src srcStride channels)
      (elementRows T.size dst dstStride channels) hwidth (by omega) hheight (by omega) rfl hstride hle
      hend _ buffer m
  · simp only [kleidicvSeparableFilter2d, hvalid]

/-- Two rows of a small image, as a stripe. -/
theorem separableFilter2d_correct_small :
    ∃ m', separableFilter2dStripe .u8 (fun a => BitVec.ofNat 8 a) 100 4 200 4 4 4 1 3 1
        (fun _ => 1) (fun _ => 2) .reflect (some fun _ => 0) (fun _ => 0) = (.ok, m') ∧
      FilteredRows (T := .u8) (fun _ => 1) (fun _ => 2) (fun a => BitVec.ofNat 8 a) ⟨100, 4, 1⟩
        ⟨200, 4, 1⟩ 4 4 .reflect 1 3 (fun _ => 0) m' := by
  have hvalid : separableFilter2dValidate .u8 100 4 200 4 4 4 1 (some fun _ => 1) 5
      (some fun _ => 2) 5 .reflect = .ok .reflect := rfl
  exact (separableFilter2d_correct hvalid (by decide) (fun _ => 0) fun _ => 0).1 1 3 (by decide)
    (by decide)

end

end KleidiCV
