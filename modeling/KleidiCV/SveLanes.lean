/-
SVE operations on vectors of elements of fixed width.

A vector is a function of the lane.  A predicate has one bit for a byte; the bit of a lane is
that of its first byte, so that a predicate for elements governs vectors of elements twice as
wide by its even lanes.  Operations named `_x` leave anything in lanes that are not active,
which is a parameter here.

* `leading_wide` — a predicate of `k` leading elements, on pairs of them;
* `svst1_eq`, `svst2_eq` — stores through a predicate of leading lanes; a store of pairs may
  go one element further than the predicate;
* `svmull_toNat`, `svqaddX_toNat`, `svqxtn_toNat`, … — what the arithmetic computes.
-/
import KleidiCV.Lib.Overwrite
import KleidiCV.Lib.Saturation
import KleidiCV.ScalableBlocks

namespace KleidiCV.Sve

open Scalable

section

variable {α : Type}

/-- A predicate, on elements twice as wide. -/
def wide (pg : ℕ → Bool) : ℕ → Bool := fun l => pg (2 * l)

/-- `svld1`: what is inactive is zero. -/
def svld1 [Zero α] (pg : ℕ → Bool) (m : ℕ → α) (ptr : ℕ) : ℕ → α := fun l =>
  if pg l then m (ptr + l) else 0

/-- `svst1`. -/
def svst1 (lanes : ℕ) (pg : ℕ → Bool) (m : ℕ → α) (ptr : ℕ) (v : ℕ → α) : ℕ → α := fun a =>
  if ptr ≤ a ∧ a < ptr + lanes ∧ pg (a - ptr) then v (a - ptr) else m a

/-- `svst2`: lane `l` of both vectors goes to elements `2 * l` and `2 * l + 1`. -/
def svst2 (lanes : ℕ) (pg : ℕ → Bool) (m : ℕ → α) (ptr : ℕ) (v0 v1 : ℕ → α) : ℕ → α := fun a =>
  if ptr ≤ a ∧ a < ptr + 2 * lanes ∧ pg ((a - ptr) / 2) then
    if (a - ptr) % 2 = 0 then v0 ((a - ptr) / 2) else v1 ((a - ptr) / 2)
  else m a

/-- `svld3`: lane `l` of vector `c`. -/
def svld3 [Zero α] (pg : ℕ → Bool) (m : ℕ → α) (ptr : ℕ) : ℕ → ℕ → α := fun c l =>
  if pg l then m (ptr + (3 * l + c)) else 0

/-- `svst3`, into memory that counts its accesses. -/
def svst3 (lanes : ℕ) (pg : ℕ → Bool) (ptr : ℕ) (v : ℕ → ℕ → α) (r : Tallied α) : Tallied α :=
  r.store (activeRange lanes 1 3 pg ptr) fun a => v ((a - ptr) % 3) ((a - ptr) / 3)

/-- `svld4` and the like: lane `l` of vector `c` of `n`. -/
def svldn [Zero α] (n : ℕ) (pg : ℕ → Bool) (m : ℕ → α) (ptr : ℕ) : ℕ → ℕ → α := fun c l =>
  if pg l then m (ptr + (n * l + c)) else 0

/-- `svst4` and the like: lane `l` of vector `c` goes to element `n * l + c`. -/
def svstn (n lanes : ℕ) (pg : ℕ → Bool) (m : ℕ → α) (ptr : ℕ) (v : ℕ → ℕ → α) : ℕ → α := fun a =>
  if ptr ≤ a ∧ a < ptr + n * lanes ∧ pg ((a - ptr) / n) then v ((a - ptr) % n) ((a - ptr) / n)
  else m a

/-- `svcntp`. -/
def svcntp (lanes : ℕ) (pg : ℕ → Bool) : ℕ := (List.range lanes).countP pg

/-- `svuzp2`, on single elements: the odd ones of `a`, then those of `b`. -/
def svuzp2 (lanes : ℕ) (a b : ℕ → α) : ℕ → α := fun l =>
  if 2 * l + 1 < lanes then a (2 * l + 1) else b (2 * l + 1 - lanes)

/-- `svuzp1`, on elements of `n` lanes: the even ones of `a`, then those of `b`. -/
def svuzp1 (lanes n : ℕ) (a b : ℕ → α) : ℕ → α := fun l =>
  let source := 2 * (l / n) * n + l % n
  if source < lanes then a source else b (source - lanes)

/-- Lane `l` of `v0` and of `v1`, next to each other. -/
def interleave (v0 v1 : ℕ → α) : ℕ → α := fun l => if l % 2 = 0 then v0 (l / 2) else v1 (l / 2)

theorem interleave_even (v0 v1 : ℕ → α) (l : ℕ) : interleave v0 v1 (2 * l) = v0 l := by
  rw [interleave, if_pos (Nat.mul_mod_right 2 l), Nat.mul_div_cancel_left l two_pos]

theorem interleave_odd (v0 v1 : ℕ → α) (l : ℕ) : interleave v0 v1 (2 * l + 1) = v1 l := by
  rw [interleave, if_neg (by omega), show (2 * l + 1) / 2 = l by omega]

/-- What holds of even lanes of the one vector and of odd lanes of the other. -/
theorem interleave_cases {P : ℕ → α → Prop} {v0 v1 : ℕ → α} (l : ℕ)
    (h0 : l = 2 * (l / 2) → P (2 * (l / 2)) (v0 (l / 2)))
    (h1 : l = 2 * (l / 2) + 1 → P (2 * (l / 2) + 1) (v1 (l / 2))) : P l (interleave v0 v1 l) := by
  have hmod := Nat.div_add_mod l 2
  unfold interleave
  split
  · rename_i heven
    have hl : l = 2 * (l / 2) := by omega
    have h := h0 hl
    rwa [← hl] at h
  · rename_i hodd
    have hl : l = 2 * (l / 2) + 1 := by omega
    have h := h1 hl
    rwa [← hl] at h

variable {lanes k : ℕ} {pg : ℕ → Bool}

/-- Half as many elements of twice the width. -/
theorem numLanes_double (vl : VectorLength) {sz : ℕ} (hsz : ScalarSize sz)
    (hwide : ScalarSize (2 * sz)) : Scalable.numLanes vl sz = 2 * Scalable.numLanes vl (2 * sz) := by
  have hmul := numLanes_mul vl hsz
  rw [← numLanes_mul vl hwide, ← Nat.mul_assoc, Nat.mul_comm _ 2] at hmul
  exact Nat.eq_of_mul_eq_mul_right hsz.pos hmul

theorem active_of_lt (h : Leading lanes pg k) {l : ℕ} (hl : l < k) : pg l = true :=
  (h.active l (hl.trans_le h.le)).trans (decide_eq_true hl)

/-- Leading elements in pairs, the last of which may be half a pair. -/
theorem leading_wide (h : Leading (2 * lanes) pg k) : Leading lanes (wide pg) ((k + 1) / 2) := by
  have hle := h.le
  refine ⟨by omega, fun l hl => ?_⟩
  rw [wide, h.active _ (by omega)]
  exact decide_eq_decide.mpr (by omega)

theorem svld1_of_lt [Zero α] (h : Leading lanes pg k) {l : ℕ} (hl : l < k) (m : ℕ → α) (ptr : ℕ) :
    svld1 pg m ptr l = m (ptr + l) := by
  rw [svld1, if_pos (active_of_lt h hl)]

theorem svst1_active {l : ℕ} (hl : l < lanes) (hpg : pg l = true) (m : ℕ → α) (ptr : ℕ)
    (v : ℕ → α) : svst1 lanes pg m ptr v (ptr + l) = v l := by
  rw [svst1, Nat.add_sub_cancel_left, if_pos ⟨Nat.le_add_right _ _, Nat.add_lt_add_left hl _, hpg⟩]

theorem svst1_eq (h : Leading lanes pg k) (m : ℕ → α) (ptr : ℕ) (v : ℕ → α) :
    svst1 lanes pg m ptr v = overwrite m ptr k v := by
  have hle := h.le
  funext a
  by_cases hin : ptr ≤ a ∧ a < ptr + lanes
  · have hactive := h.active (a - ptr) (by omega)
    simp only [svst1, overwrite, hactive, decide_eq_true_eq]
    exact if_congr (by omega) rfl rfl
  · rw [svst1, if_neg fun hmem => hin ⟨hmem.1, hmem.2.1⟩, overwrite_of_not_mem (by omega)]

theorem svst3_eq (h : Leading lanes pg k) (ptr : ℕ) (v : ℕ → ℕ → α) (r : Tallied α) :
    svst3 lanes pg ptr v r = r.storeRange ptr (k * 3) fun j => v (j % 3) (j / 3) := by
  rw [svst3, h.activeRange_eq (by decide)]
  rfl

theorem svldn_active [Zero α] {l : ℕ} (h : pg l = true) (n : ℕ) (m : ℕ → α) (ptr c : ℕ) :
    svldn n pg m ptr c l = m (ptr + (n * l + c)) := if_pos h

theorem svstn_eq {n : ℕ} (hn : 0 < n) (h : Leading lanes pg k) (m : ℕ → α) (ptr : ℕ)
    (v : ℕ → ℕ → α) :
    svstn n lanes pg m ptr v = overwrite m ptr (n * k) fun j => v (j % n) (j / n) := by
  have hle : n * k ≤ n * lanes := Nat.mul_le_mul_left n h.le
  funext a
  by_cases hin : ptr ≤ a ∧ a < ptr + n * lanes
  · have hlane : (a - ptr) / n < lanes := Nat.div_lt_of_lt_mul (by omega)
    have hactive := h.active ((a - ptr) / n) hlane
    simp only [svstn, overwrite, hactive, decide_eq_true_eq, Nat.div_lt_iff_lt_mul hn]
    exact if_congr (by rw [Nat.mul_comm k n]; omega) rfl rfl
  · rw [svstn, if_neg fun hmem => hin ⟨hmem.1, hmem.2.1⟩, overwrite_of_not_mem (by omega)]

theorem svcntp_eq (h : Leading lanes pg k) : svcntp lanes pg = k := by
  obtain ⟨d, hd⟩ := Nat.exists_eq_add_of_le h.le
  have hfirst : (List.range k).countP pg = k := by
    rw [List.countP_eq_length.mpr fun l hl => active_of_lt h (List.mem_range.mp hl),
      List.length_range]
  have hrest : ((List.range d).map (k + ·)).countP pg = 0 := by
    refine List.countP_eq_zero.mpr fun l hl => ?_
    obtain ⟨i, hi, rfl⟩ := List.mem_map.mp hl
    have hactive := h.active (k + i) (by have := List.mem_range.mp hi; omega)
    simp [hactive]
  rw [svcntp, hd, List.range_add, List.countP_append, hfirst, hrest, Nat.add_zero]

/-- Single elements, unzipped. -/
theorem svuzp1_single (lanes : ℕ) (a b : ℕ → α) (l : ℕ) :
    svuzp1 lanes 1 a b l = if 2 * l < lanes then a (2 * l) else b (2 * l - lanes) := by
  simp only [svuzp1, Nat.div_one, Nat.mul_one, Nat.mod_one, Nat.add_zero]

theorem svst2_eq (h : Leading lanes pg k) (m : ℕ → α) (ptr : ℕ) (v0 v1 : ℕ → α) :
    svst2 lanes pg m ptr v0 v1 = overwrite m ptr (2 * k) (interleave v0 v1) := by
  have hle := h.le
  funext a
  by_cases hin : ptr ≤ a ∧ a < ptr + 2 * lanes
  · have hactive := h.active ((a - ptr) / 2) (by omega)
    simp only [svst2, overwrite, interleave, hactive, decide_eq_true_eq]
    exact if_congr (by omega) rfl rfl
  · rw [svst2, if_neg fun hmem => hin ⟨hmem.1, hmem.2.1⟩, overwrite_of_not_mem (by omega)]

end

/-! ### Arithmetic -/

section

variable {v w : ℕ}

/-- Even lanes, `b` in the names of operations. -/
def bottom (a : ℕ → BitVec w) : ℕ → BitVec w := fun l => a (2 * l)

/-- Odd lanes, `t` in the names of operations. -/
def top (a : ℕ → BitVec w) : ℕ → BitVec w := fun l => a (2 * l + 1)

/-- Products of twice the width, in which they fit. -/
def svmull (a b : ℕ → BitVec w) : ℕ → BitVec (2 * w) := fun l =>
  BitVec.ofNat (2 * w) ((a l).toNat * (b l).toNat)

/-- Sums of twice the width. -/
def svaddl (a b : ℕ → BitVec w) : ℕ → BitVec (2 * w) := fun l =>
  BitVec.ofNat (2 * w) ((a l).toNat + (b l).toNat)

/-- Products on top of another vector; the sum wraps. -/
def svmlal (acc : ℕ → BitVec (2 * w)) (a b : ℕ → BitVec w) : ℕ → BitVec (2 * w) := fun l =>
  acc l + svmull a b l

/-- `svmullb`. -/
def svmullb (a b : ℕ → BitVec w) : ℕ → BitVec (2 * w) := svmull (bottom a) (bottom b)

/-- `svmullt`. -/
def svmullt (a b : ℕ → BitVec w) : ℕ → BitVec (2 * w) := svmull (top a) (top b)

/-- `svaddlb`. -/
def svaddlb (a b : ℕ → BitVec w) : ℕ → BitVec (2 * w) := svaddl (bottom a) (bottom b)

/-- `svaddlt`. -/
def svaddlt (a b : ℕ → BitVec w) : ℕ → BitVec (2 * w) := svaddl (top a) (top b)

/-- `svmlalb`. -/
def svmlalb (acc : ℕ → BitVec (2 * w)) (a b : ℕ → BitVec w) : ℕ → BitVec (2 * w) :=
  svmlal acc (bottom a) (bottom b)

/-- `svmlalt`. -/
def svmlalt (acc : ℕ → BitVec (2 * w)) (a b : ℕ → BitVec w) : ℕ → BitVec (2 * w) :=
  svmlal acc (top a) (top b)

/-- `svdup_n`. -/
def svdupN (x : ℕ) : ℕ → BitVec w := fun _ => BitVec.ofNat w x

section

-- `unspecified` is what the operation leaves in lanes that are not active.
variable (pg : ℕ → Bool) (unspecified : ℕ → BitVec w)

/-- `svqadd_x`, which saturates. -/
def svqaddX (a b : ℕ → BitVec w) : ℕ → BitVec w := fun l =>
  if pg l then BitVec.ofNat w (min (2 ^ w - 1) ((a l).toNat + (b l).toNat)) else unspecified l

/-- `svadd_x`. -/
def svaddX (a b : ℕ → BitVec w) : ℕ → BitVec w := fun l =>
  if pg l then a l + b l else unspecified l

/-- `svmla_x`. -/
def svmlaX (acc a b : ℕ → BitVec w) : ℕ → BitVec w := fun l =>
  if pg l then acc l + a l * b l else unspecified l

/-- `svrshr_x`; the constant for rounding does not wrap. -/
def svrshrX (a : ℕ → BitVec w) (shift : ℕ) : ℕ → BitVec w := fun l =>
  if pg l then BitVec.ofNat w (((a l).toNat + 2 ^ (shift - 1)) / 2 ^ shift) else unspecified l

end

/-- `svqxtnb`: half the width with saturation, into even lanes. -/
def svqxtnb (a : ℕ → BitVec (2 * w)) : ℕ → BitVec w :=
  interleave (fun l => BitVec.ofNat w (min (2 ^ w - 1) (a l).toNat)) fun _ => 0

/-- `svqxtnt`: into odd lanes; even lanes stay. -/
def svqxtnt (even : ℕ → BitVec w) (a : ℕ → BitVec (2 * w)) : ℕ → BitVec w :=
  interleave (fun l => even (2 * l)) fun l => BitVec.ofNat w (min (2 ^ w - 1) (a l).toNat)

/-- `svshrnb`: shifted, then half the width, into even lanes. -/
def svshrnb (a : ℕ → BitVec (2 * w)) (shift : ℕ) : ℕ → BitVec w :=
  interleave (fun l => BitVec.ofNat w ((a l).toNat / 2 ^ shift)) fun _ => 0

/-- `svshrnt`: into odd lanes; even lanes stay. -/
def svshrnt (even : ℕ → BitVec w) (a : ℕ → BitVec (2 * w)) (shift : ℕ) : ℕ → BitVec w :=
  interleave (fun l => even (2 * l)) fun l => BitVec.ofNat w ((a l).toNat / 2 ^ shift)

/-- `svrshrnb`, which rounds. -/
def svrshrnb (a : ℕ → BitVec (2 * w)) (shift : ℕ) : ℕ → BitVec w :=
  interleave (fun l => BitVec.ofNat w (((a l).toNat + 2 ^ (shift - 1)) / 2 ^ shift)) fun _ => 0

/-- `svrshrnt`. -/
def svrshrnt (even : ℕ → BitVec w) (a : ℕ → BitVec (2 * w)) (shift : ℕ) : ℕ → BitVec w :=
  interleave (fun l => even (2 * l)) fun l =>
    BitVec.ofNat w (((a l).toNat + 2 ^ (shift - 1)) / 2 ^ shift)

/-- Sums with elements of half the width. -/
def svaddw (a : ℕ → BitVec (2 * w)) (b : ℕ → BitVec w) : ℕ → BitVec (2 * w) := fun l =>
  a l + (b l).setWidth (2 * w)

/-- `svaddwb`. -/
def svaddwb (a : ℕ → BitVec (2 * w)) (b : ℕ → BitVec w) : ℕ → BitVec (2 * w) := svaddw a (bottom b)

/-- `svaddwt`. -/
def svaddwt (a : ℕ → BitVec (2 * w)) (b : ℕ → BitVec w) : ℕ → BitVec (2 * w) := svaddw a (top b)

/-- `svcmpgt_n`. -/
def svcmpgtN (pg : ℕ → Bool) (a : ℕ → BitVec w) (x : BitVec w) : ℕ → Bool := fun l =>
  pg l && decide (x.toNat < (a l).toNat)

/-- `svdup_n_m`. -/
def svdupNM (inactive : ℕ → BitVec w) (pg : ℕ → Bool) (x : BitVec w) : ℕ → BitVec w := fun l =>
  if pg l then x else inactive l

/-- The lower part of each lane, as `svst1b` and `svst1h` store it. -/
def narrow (v : ℕ) (a : ℕ → BitVec w) : ℕ → BitVec v := fun l => (a l).setWidth v

/-- `svst1b`, into memory that counts its accesses. -/
def svst1b (lanes : ℕ) (pg : ℕ → Bool) (ptr : ℕ) (v : ℕ → BitVec w) (r : Tallied (BitVec 8)) :
    Tallied (BitVec 8) :=
  r.store (activeRange lanes 1 1 pg ptr) fun a => narrow 8 v (a - ptr)

/-- `svreinterpret_u8`, of `uint16_t`. -/
def svreinterpretU8 (v : ℕ → BitVec 16) : ℕ → BitVec 8 := fun j =>
  (v (j / 2)).extractLsb' (8 * (j % 2)) 8

/-- `svreinterpret_u16`, of `uint8_t`. -/
def svreinterpretU16 (v : ℕ → BitVec 8) : ℕ → BitVec 16 := fun l => v (2 * l + 1) ++ v (2 * l)

theorem svst1b_eq {lanes k : ℕ} {pg : ℕ → Bool} (h : Leading lanes pg k) (ptr : ℕ)
    (v : ℕ → BitVec w) (r : Tallied (BitVec 8)) :
    svst1b lanes pg ptr v r = r.storeRange ptr k (narrow 8 v) := by
  rw [svst1b, h.activeRange_eq (by decide), Nat.mul_one]
  rfl

/-- Bytes with even numbers are the lower ones. -/
theorem svreinterpretU8_even (v : ℕ → BitVec 16) (l : ℕ) :
    svreinterpretU8 v (2 * l) = narrow 8 v l := by
  rw [svreinterpretU8, Nat.mul_mod_right, Nat.mul_div_cancel_left _ two_pos, narrow]
  exact (BitVec.setWidth_eq_extractLsb' (by decide)).symm

theorem svreinterpretU8_reinterpretU16 (v : ℕ → BitVec 8) :
    svreinterpretU8 (svreinterpretU16 v) = v := by
  funext j
  have hmod := Nat.div_add_mod j 2
  refine BitVec.eq_of_getLsbD_eq fun i hi => ?_
  rcases Nat.mod_two_eq_zero_or_one j with heven | hodd
  · have hj : 2 * (j / 2) = j := by omega
    simp only [svreinterpretU8, svreinterpretU16, heven, hj, BitVec.getLsbD_extractLsb']
    refine (congrArg _ (BitVec.getLsbD_append (x := v (j + 1)) (y := v j) (i := 0 + i))).trans ?_
    simp [hi]
  · have hj : 2 * (j / 2) + 1 = j := by omega
    simp only [svreinterpretU8, svreinterpretU16, hodd, hj, BitVec.getLsbD_extractLsb']
    refine (congrArg _ (BitVec.getLsbD_append (x := v j) (y := v (2 * (j / 2))) (i := 8 + i))).trans ?_
    simp [hi]

/-- `svshrnb` and `svshrnt`: both halves, shifted, narrowed and put together. -/
theorem svshrn_eq (b t : ℕ → BitVec (2 * w)) (shift l : ℕ) :
    svshrnt (svshrnb b shift) t shift l =
      BitVec.ofNat w ((interleave b t l).toNat / 2 ^ shift) := by
  unfold svshrnt
  unfold interleave
  split
  · show svshrnb b shift (2 * (l / 2)) = _
    rw [svshrnb, interleave_even]
  · rfl

theorem svrshrn_eq (b t : ℕ → BitVec (2 * w)) (shift l : ℕ) :
    svrshrnt (svrshrnb b shift) t shift l =
      BitVec.ofNat w (((interleave b t l).toNat + 2 ^ (shift - 1)) / 2 ^ shift) := by
  unfold svrshrnt
  unfold interleave
  split
  · show svrshrnb b shift (2 * (l / 2)) = _
    rw [svrshrnb, interleave_even]
  · rfl

/-- `svqxtnb` and `svqxtnt`: both halves, narrowed and put together. -/
theorem svqxtn_toNat (b t : ℕ → BitVec (2 * w)) (l : ℕ) :
    (svqxtnt (svqxtnb b) t l).toNat = min (2 ^ w - 1) (interleave b t l).toNat := by
  unfold svqxtnt
  unfold interleave
  split
  · show (svqxtnb b (2 * (l / 2))).toNat = _
    rw [svqxtnb, interleave_even, toNat_ofNat_min]
  · rw [toNat_ofNat_min]

theorem svqaddX_toNat {pg : ℕ → Bool} {l : ℕ} (h : pg l = true) (unspecified a b : ℕ → BitVec w) :
    (svqaddX pg unspecified a b l).toNat = min (2 ^ w - 1) ((a l).toNat + (b l).toNat) := by
  rw [svqaddX, if_pos h, toNat_ofNat_min]

theorem svmull_toNat (a b : ℕ → BitVec w) (l : ℕ) :
    (svmull a b l).toNat = (a l).toNat * (b l).toNat := by
  rw [svmull, BitVec.toNat_ofNat, Nat.mod_eq_of_lt (toNat_mul_lt _ _)]

theorem svaddl_toNat (hw : 0 < w) (a b : ℕ → BitVec w) (l : ℕ) :
    (svaddl a b l).toNat = (a l).toNat + (b l).toNat := by
  rw [svaddl, BitVec.toNat_ofNat, Nat.mod_eq_of_lt (toNat_add_lt hw _ _)]

theorem svaddw_toNat {a : ℕ → BitVec (2 * w)} {b : ℕ → BitVec w} {l : ℕ}
    (hlt : (a l).toNat + (b l).toNat < 2 ^ (2 * w)) :
    (svaddw a b l).toNat = (a l).toNat + (b l).toNat := by
  have hle : 2 ^ w ≤ 2 ^ (2 * w) := Nat.pow_le_pow_right two_pos (by omega)
  have hb := (b l).isLt
  rw [svaddw, BitVec.toNat_add, BitVec.toNat_setWidth, Nat.mod_eq_of_lt (hb.trans_le hle),
    Nat.mod_eq_of_lt hlt]

theorem svmlal_toNat {acc : ℕ → BitVec (2 * w)} {a b : ℕ → BitVec w} {l : ℕ}
    (hlt : (acc l).toNat + (a l).toNat * (b l).toNat < 2 ^ (2 * w)) :
    (svmlal acc a b l).toNat = (acc l).toNat + (a l).toNat * (b l).toNat := by
  rw [svmlal, BitVec.toNat_add, svmull_toNat, Nat.mod_eq_of_lt hlt]

theorem svdupN_toNat {x : ℕ} (hx : x < 2 ^ w) (l : ℕ) : (svdupN x l : BitVec w).toNat = x :=
  (BitVec.toNat_ofNat _ _).trans (Nat.mod_eq_of_lt hx)

theorem svaddX_toNat {pg : ℕ → Bool} {l : ℕ} (h : pg l = true) {unspecified a b : ℕ → BitVec w}
    (hlt : (a l).toNat + (b l).toNat < 2 ^ w) :
    (svaddX pg unspecified a b l).toNat = (a l).toNat + (b l).toNat := by
  rw [svaddX, if_pos h, BitVec.toNat_add, Nat.mod_eq_of_lt hlt]

theorem svmlaX_toNat {pg : ℕ → Bool} {l : ℕ} (h : pg l = true) {unspecified acc a b : ℕ → BitVec w}
    (hlt : (acc l).toNat + (a l).toNat * (b l).toNat < 2 ^ w) :
    (svmlaX pg unspecified acc a b l).toNat = (acc l).toNat + (a l).toNat * (b l).toNat := by
  rw [svmlaX, if_pos h, BitVec.toNat_add, BitVec.toNat_mul, Nat.add_mod_mod, Nat.mod_eq_of_lt hlt]

end

end KleidiCV.Sve
