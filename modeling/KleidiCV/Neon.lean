/-
Byte memory and the vector intrinsics the Neon kernels are built from.

A vector register is a function from its lanes; memory is a function from
addresses.  Each intrinsic keeps its ACLE name in camel case.
-/
import KleidiCV.Utils

namespace KleidiCV

/-- `uint16_t`. -/
abbrev U16 := Fin 65536

/-- `uint32_t`. -/
abbrev U32 := Fin 4294967296

/-- `uint8x16_t`. -/
abbrev U8x16 := Fin 16 → U8

/-- Byte memory. -/
abbrev Mem := ℕ → U8

/-- `vld1q_u8`. -/
def vld1qU8 (m : Mem) (ptr : ℕ) : U8x16 := fun lane => m (ptr + lane)

/-- `vgetq_lane_u8`. -/
def vgetqLaneU8 (v : U8x16) (lane : ℕ) : U8 := v (Fin.ofNat 16 lane)

theorem vgetqLaneU8_vld1qU8 (m : Mem) (ptr : ℕ) {lane : ℕ} (h : lane < 16) :
    vgetqLaneU8 (vld1qU8 m ptr) lane = m (ptr + lane) := by
  simp [vgetqLaneU8, vld1qU8, Nat.mod_eq_of_lt h]

/-- `vst1q_u8`. -/
def vst1qU8 (m : Mem) (ptr : ℕ) (value : U8x16) : Mem := fun a =>
  if h : ptr ≤ a ∧ a < ptr + 16 then value ⟨a - ptr, by omega⟩ else m a

theorem vst1qU8_lane (m : Mem) (ptr : ℕ) (value : U8x16) (lane : Fin 16) :
    vst1qU8 m ptr value (ptr + lane) = value lane := by
  rw [vst1qU8, dif_pos ⟨by omega, by omega⟩]
  congr 1
  exact Fin.ext (by simp)

theorem vst1qU8_of_not_mem (m : Mem) {ptr a : ℕ} (value : U8x16)
    (h : ¬(ptr ≤ a ∧ a < ptr + 16)) : vst1qU8 m ptr value a = m a := dif_neg h

/-- `vdupq_n_u8`. -/
def vdupqNU8 (value : U8) : U8x16 := fun _ => value

/-- `vsubq_u8`; the difference wraps. -/
def vsubqU8 (a b : U8x16) : U8x16 := fun lane => a lane - b lane

/-- `vqtbl1q_u8`, `vqtbl2q_u8` and `vqtbl3q_u8`, for a table of `n` bytes:
zero where the index is out of range. -/
def vqtbl {n : ℕ} (table : Fin n → U8) (index : U8x16) : U8x16 := fun lane =>
  if h : (index lane).val < n then table ⟨index lane, h⟩ else 0

/-- `vqtbx2q_u8` and `vqtbx3q_u8`: the lane of `dst` is kept where the index is
out of range. -/
def vqtbx {n : ℕ} (dst : U8x16) (table : Fin n → U8) (index : U8x16) : U8x16 := fun lane =>
  if h : (index lane).val < n then table ⟨index lane, h⟩ else dst lane

/-- `vreinterpretq_u32_u8`, little endian. -/
def vreinterpretqU32U8 (v : U8x16) : Fin 4 → U32 := fun i =>
  ⟨v ⟨4 * i, by omega⟩ + 256 * v ⟨4 * i + 1, by omega⟩ + 65536 * v ⟨4 * i + 2, by omega⟩ +
    16777216 * v ⟨4 * i + 3, by omega⟩, by omega⟩

/-- `vreinterpretq_u16_u32`, little endian. -/
def vreinterpretqU16U32 (v : Fin 4 → U32) : Fin 8 → U16 := fun i =>
  if i.val % 2 = 0 then ⟨(v ⟨i / 2, by omega⟩).val % 65536, by omega⟩
  else ⟨(v ⟨i / 2, by omega⟩).val / 65536, by omega⟩

/-- `vuzp1q_u16`: the even lanes of both vectors. -/
def vuzp1qU16 (a b : Fin 8 → U16) : Fin 8 → U16 := fun i =>
  if h : i.val < 4 then a ⟨2 * i, by omega⟩ else b ⟨2 * (i - 4), by omega⟩

/-- One lane of `vqmovn_u16`. -/
def saturateU8 (x : U16) : U8 := ⟨min x.val 255, by omega⟩

/-- `vqmovn_u16`. -/
def vqmovnU16 (v : Fin 8 → U16) : Fin 8 → U8 := fun i => saturateU8 (v i)

/-- `vqmovn_high_u16`. -/
def vqmovnHighU16 (low : Fin 8 → U8) (v : Fin 8 → U16) : U8x16 := fun i =>
  if h : i.val < 8 then low ⟨i, h⟩ else saturateU8 (v ⟨i - 8, by omega⟩)

/-! ### Masks -/

/-- `vshrq_n_u8(v, 4)`. -/
def vshrqN4U8 (v : U8x16) : U8x16 := fun lane => Fin.ofNat 256 ((v lane).val / 16)

/-- `vaddq_u8`; the sum wraps. -/
def vaddqU8 (a b : U8x16) : U8x16 := fun lane => a lane + b lane

/-- `vceqq_u8`. -/
def vceqqU8 (a b : U8x16) : U8x16 := fun lane => if a lane = b lane then 255 else 0

/-- `vceqzq_u8`. -/
def vceqzqU8 (a : U8x16) : U8x16 := vceqqU8 a (vdupqNU8 0)

/-- `vorrq_u8`. -/
def vorrqU8 (a b : U8x16) : U8x16 := fun lane => a lane ||| b lane

/-- `vbslq_u8`. -/
def vbslqU8 (mask a b : U8x16) : U8x16 := fun lane =>
  (mask lane &&& a lane) ||| ((255 - mask lane) &&& b lane)

theorem vbslqU8_of_set {mask : U8x16} (a b : U8x16) {lane : Fin 16} (h : mask lane = 255) :
    vbslqU8 mask a b lane = a lane := by
  have hall : ∀ x : U8, (255 &&& x) ||| ((255 - 255) &&& 0) = x := by decide +kernel
  have hzero : ∀ x : U8, (255 - 255) &&& x = (255 - 255) &&& 0 := by decide +kernel
  rw [vbslqU8, h, hzero, hall]

theorem vbslqU8_of_clear {mask : U8x16} (a b : U8x16) {lane : Fin 16} (h : mask lane = 0) :
    vbslqU8 mask a b lane = b lane := by
  have hall : ∀ x : U8, (0 &&& 0) ||| ((255 - 0) &&& x) = x := by decide +kernel
  have hzero : ∀ x : U8, 0 &&& x = 0 &&& 0 := by decide +kernel
  rw [vbslqU8, h, hzero, hall]

/-- `vmaxvq_u32`. -/
def vmaxvqU32 (v : Fin 4 → U32) : U32 := max (max (v 0) (v 1)) (max (v 2) (v 3))

/-- `vminvq_u32`. -/
def vminvqU32 (v : Fin 4 → U32) : U32 := min (min (v 0) (v 1)) (min (v 2) (v 3))

/-- Every lane is part of one of the four words. -/
theorem forall_lane {P : Fin 16 → Prop} :
    (∀ lane, P lane) ↔ ∀ i : Fin 4, P ⟨4 * i, by omega⟩ ∧ P ⟨4 * i + 1, by omega⟩ ∧
      P ⟨4 * i + 2, by omega⟩ ∧ P ⟨4 * i + 3, by omega⟩ := by
  refine ⟨fun h i => ⟨h _, h _, h _, h _⟩, fun h lane => ?_⟩
  obtain ⟨h0, h1, h2, h3⟩ := h ⟨lane.val / 4, by omega⟩
  have hmod : lane.val % 4 < 4 := Nat.mod_lt _ (by decide)
  interval_cases hlane : lane.val % 4
  · exact (Fin.ext (by simp only; omega) : (⟨4 * (lane.val / 4), by omega⟩ : Fin 16) = lane) ▸ h0
  · exact (Fin.ext (by simp only; omega) : (⟨4 * (lane.val / 4) + 1, by omega⟩ : Fin 16) = lane) ▸ h1
  · exact (Fin.ext (by simp only; omega) : (⟨4 * (lane.val / 4) + 2, by omega⟩ : Fin 16) = lane) ▸ h2
  · exact (Fin.ext (by simp only; omega) : (⟨4 * (lane.val / 4) + 3, by omega⟩ : Fin 16) = lane) ▸ h3

theorem forall_word {P : Fin 4 → Prop} : (∀ i, P i) ↔ (P 0 ∧ P 1) ∧ P 2 ∧ P 3 := by
  refine ⟨fun h => ⟨⟨h 0, h 1⟩, h 2, h 3⟩, fun h i => ?_⟩
  fin_cases i
  exacts [h.1.1, h.1.2, h.2.1, h.2.2]

/-- The largest word is zero if all lanes are. -/
theorem vmaxvqU32_eq_zero_iff (v : U8x16) :
    vmaxvqU32 (vreinterpretqU32U8 v) = 0 ↔ ∀ lane, v lane = 0 := by
  have hmax : ∀ a b : U32, max a b = 0 ↔ a = 0 ∧ b = 0 := by
    intro a b
    simp only [Fin.ext_iff, Fin.val_zero]
    rcases le_total a b with h | h
    · rw [max_eq_right h]
      have := Fin.le_def.mp h
      omega
    · rw [max_eq_left h]
      have := Fin.le_def.mp h
      omega
  rw [forall_lane, vmaxvqU32, hmax, hmax, hmax, ← forall_word (P := fun i =>
    vreinterpretqU32U8 v i = 0)]
  refine forall_congr' fun i => ?_
  simp only [vreinterpretqU32U8, Fin.ext_iff, Fin.val_zero]
  omega

/-- The smallest word is full if all lanes are. -/
theorem vminvqU32_eq_full_iff (v : U8x16) :
    vminvqU32 (vreinterpretqU32U8 v) = 0xffffffff ↔ ∀ lane, v lane = 255 := by
  have hval : (0xffffffff : U32).val = 4294967295 := rfl
  have hval' : (255 : U8).val = 255 := rfl
  have hmin : ∀ a b : U32, min a b = 0xffffffff ↔ a = 0xffffffff ∧ b = 0xffffffff := by
    intro a b
    simp only [Fin.ext_iff, hval]
    rcases le_total a b with h | h
    · rw [min_eq_left h]
      have := Fin.le_def.mp h
      omega
    · rw [min_eq_right h]
      have := Fin.le_def.mp h
      omega
  rw [forall_lane, vminvqU32, hmin, hmin, hmin, ← forall_word (P := fun i =>
    vreinterpretqU32U8 v i = 0xffffffff)]
  refine forall_congr' fun i => ?_
  simp only [vreinterpretqU32U8, Fin.ext_iff, hval, hval']
  omega

end KleidiCV
