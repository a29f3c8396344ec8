/-
Blocks of pixels in vector registers, and their mirror images.

A register holds 16 bytes whatever the size of its lanes, so that one model of
`vrev64q`, `vextq`, `vld3q` and `vst3q` serves all scalar types; the size of a
scalar in bytes is a parameter.

* `mirror` — the place of a byte when the pixels around it are reversed;
* `vst1q_reverseLanes`, `vst3q_reverseLanes3` — a block loaded, reversed and
  stored.
-/
import KleidiCV.Lib.Overwrite
import KleidiCV.Neon

namespace KleidiCV

/-- The size of `uint8_t`, `uint16_t`, `uint32_t` or `uint64_t`. -/
def ScalarSize (sz : ℕ) : Prop := sz = 1 ∨ sz = 2 ∨ sz = 4 ∨ sz = 8

/-- `VectorTraits::num_lanes()`. -/
def numLanes (sz : ℕ) : ℕ := 16 / sz

/-- `uint8x16x3_t`, `uint16x8x3_t` and `uint32x4x3_t`. -/
abbrev Vector3 := Fin 3 → U8x16

/-- `vrev64q`: the lanes of both halves in reverse order. -/
def vrev64q (sz : ℕ) (v : U8x16) : U8x16 := fun k =>
  v (Fin.ofNat 16 (k / 8 * 8 + ((8 / sz - 1 - k % 8 / sz) * sz + k % sz)))

/-- `vextq<n>`. -/
def vextq (sz n : ℕ) (a b : U8x16) : U8x16 := fun k =>
  if k + n * sz < 16 then a (Fin.ofNat 16 (k + n * sz)) else b (Fin.ofNat 16 (k + n * sz - 16))

/-- `vld3q`: lane `i` of vector `c` is scalar `3 * i + c`. -/
def vld3q (sz : ℕ) (m : Mem) (ptr : ℕ) : Vector3 := fun c k =>
  m (ptr + ((3 * (k / sz) + c) * sz + k % sz))

/-- `vst3q`. -/
def vst3q (sz : ℕ) (m : Mem) (ptr : ℕ) (v : Vector3) : Mem :=
  overwrite m ptr 48 fun j =>
    v (Fin.ofNat 3 (j / sz % 3)) (Fin.ofNat 16 (j / sz / 3 * sz + j % sz))

theorem vst1qU8_eq (m : Mem) (ptr : ℕ) (v : U8x16) :
    vst1qU8 m ptr v = overwrite m ptr 16 fun j => v (Fin.ofNat 16 j) := by
  funext a
  by_cases ha : ptr ≤ a ∧ a < ptr + 16
  · obtain ⟨j, rfl⟩ := Nat.exists_eq_add_of_le ha.1
    have hj : j < 16 := by omega
    have hval : (Fin.ofNat 16 j).val = j := Nat.mod_eq_of_lt hj
    have hlane := vst1qU8_lane m ptr v (Fin.ofNat 16 j)
    rw [hval] at hlane
    rw [hlane, overwrite_add hj]
  · rw [vst1qU8_of_not_mem m v ha, overwrite_of_not_mem ha]

/-- A vector loaded and stored. -/
theorem vst1q_vld1q (m m' : Mem) (dst src : ℕ) :
    vst1qU8 m dst (vld1qU8 m' src) = overwrite m dst 16 fun j => m' (src + j) := by
  rw [vst1qU8_eq]
  refine overwrite_congr fun j hj => ?_
  simp only [vld1qU8, Fin.val_ofNat, Nat.mod_eq_of_lt hj]

/-! ### Mirror images -/

/-- Byte `k` of a row of `w` pixels of `p` bytes goes here when the pixels are
reversed. -/
def mirror (w p k : ℕ) : ℕ := (w - 1 - k / p) * p + k % p

section

variable {w p k : ℕ}

theorem mirror_lt (hp : 0 < p) (hk : k < w * p) : mirror w p k < w * p := by
  have hq : k / p < w := Nat.div_lt_of_lt_mul (by rwa [Nat.mul_comm] at hk)
  have hmod : k % p < p := Nat.mod_lt _ hp
  unfold mirror
  generalize k / p = q at hq ⊢
  have hle : (w - 1 - q + 1) * p ≤ w * p := Nat.mul_le_mul_right _ (by omega)
  rw [Nat.succ_mul] at hle
  omega

theorem mirror_mirror (hp : 0 < p) (hk : k < w * p) : mirror w p (mirror w p k) = k := by
  have hq : k / p < w := Nat.div_lt_of_lt_mul (by rwa [Nat.mul_comm] at hk)
  have hmod : k % p < p := Nat.mod_lt _ hp
  have hdiv : mirror w p k / p = w - 1 - k / p := by
    rw [mirror, Nat.mul_comm, Nat.mul_add_div hp, Nat.div_eq_of_lt hmod, Nat.add_zero]
  have hrem : mirror w p k % p = k % p := by
    rw [mirror, Nat.mul_comm, Nat.mul_add_mod, Nat.mod_mod]
  have hback : w - 1 - (w - 1 - k / p) = k / p := by
    generalize k / p = q at hq ⊢
    omega
  rw [mirror, hdiv, hrem, hback, Nat.div_add_mod']

/-- The mirror image of a block of `n` pixels that starts at pixel `i`. -/
theorem mirror_block {i n j : ℕ} (hp : 0 < p) (hj : j < n * p) (hw : i + n ≤ w) :
    mirror w p (i * p + j) = (w - i - n) * p + mirror n p j := by
  have hq : j / p < n := Nat.div_lt_of_lt_mul (by rwa [Nat.mul_comm] at hj)
  have hdiv : (i * p + j) / p = i + j / p := by rw [Nat.mul_comm, Nat.mul_add_div hp]
  have hrem : (i * p + j) % p = j % p := by rw [Nat.mul_comm, Nat.mul_add_mod]
  rw [mirror, mirror, hdiv, hrem, ← Nat.add_assoc, ← Nat.add_mul]
  congr 2
  generalize j / p = q at hq ⊢
  omega

/-- The middle pixel of an odd row stays in its place. -/
theorem mirror_middle (hp : 0 < p) (h1 : w / 2 * p ≤ k) (h2 : k < (w - w / 2) * p) :
    mirror w p k = k := by
  have hlo : w / 2 ≤ k / p := (Nat.le_div_iff_mul_le hp).mpr h1
  have hhi : k / p < w - w / 2 := (Nat.div_lt_iff_lt_mul hp).mpr h2
  have hsame : w - 1 - k / p = k / p := by
    generalize k / p = q at hlo hhi ⊢
    omega
  rw [mirror, hsame, Nat.div_add_mod']

/-- A single pixel keeps the order of its bytes. -/
theorem mirror_one (hk : k < p) : mirror 1 p k = k := by
  rw [mirror, Nat.div_eq_of_lt hk, Nat.mod_eq_of_lt hk]
  simp

/-- Two blocks of the same size change places. -/
theorem mirror_two_blocks {n j : ℕ} (hp : 0 < p) (hj : j < n * p) :
    mirror (2 * n) p j = n * p + mirror n p j ∧
      mirror (2 * n) p (n * p + j) = mirror n p j := by
  have h0 := mirror_block (w := 2 * n) (i := 0) hp hj (by omega)
  have hn := mirror_block (w := 2 * n) (i := n) hp hj (by omega)
  rw [show 2 * n - 0 - n = n by omega, Nat.zero_mul, Nat.zero_add] at h0
  rw [show 2 * n - n - n = 0 by omega, Nat.zero_mul, Nat.zero_add] at hn
  exact ⟨h0, hn⟩

end

/-- `reverse_lanes` of a vector. -/
def reverseLanes (sz : ℕ) (vector : U8x16) : U8x16 :=
  let vector := vrev64q sz vector
  vextq sz (numLanes sz / 2) vector vector

/-- `reverse_lanes` of three vectors. -/
def reverseLanes3 (sz : ℕ) (vectors : Vector3) : Vector3 := fun c => reverseLanes sz (vectors c)

section

variable {sz : ℕ}

theorem ScalarSize.pos (hsz : ScalarSize sz) : 0 < sz := by
  unfold ScalarSize at hsz
  omega

theorem ScalarSize.numLanes_pos (hsz : ScalarSize sz) : 0 < numLanes sz := by
  rcases hsz with rfl | rfl | rfl | rfl <;> decide

theorem ScalarSize.numLanes_mul (hsz : ScalarSize sz) : numLanes sz * sz = 16 := by
  rcases hsz with rfl | rfl | rfl | rfl <;> rfl

theorem reverseLanes_apply (hsz : ScalarSize sz) (v : U8x16) (k : Fin 16) :
    reverseLanes sz v k = v (Fin.ofNat 16 (mirror (numLanes sz) sz k)) := by
  have hindex : ∀ sz ∈ [1, 2, 4, 8], ∀ k : Fin 16,
      (if k + numLanes sz / 2 * sz < 16 then
        let i := (Fin.ofNat 16 (k + numLanes sz / 2 * sz)).val
        Fin.ofNat 16 (i / 8 * 8 + ((8 / sz - 1 - i % 8 / sz) * sz + i % sz))
      else
        let i := (Fin.ofNat 16 (k + numLanes sz / 2 * sz - 16)).val
        Fin.ofNat 16 (i / 8 * 8 + ((8 / sz - 1 - i % 8 / sz) * sz + i % sz))) =
      Fin.ofNat 16 (mirror (numLanes sz) sz k) := by decide
  have hk := hindex sz (by rcases hsz with rfl | rfl | rfl | rfl <;> simp) k
  rw [← hk]
  simp only [reverseLanes, vextq, vrev64q]
  split <;> rfl

/-- A vector loaded, reversed and stored. -/
theorem vst1q_reverseLanes (hsz : ScalarSize sz) (m m' : Mem) (dst src : ℕ) :
    vst1qU8 m dst (reverseLanes sz (vld1qU8 m' src)) =
      overwrite m dst 16 fun j => m' (src + mirror (numLanes sz) sz j) := by
  rw [vst1qU8_eq]
  refine overwrite_congr fun j hj => ?_
  have hlt : mirror (numLanes sz) sz j < 16 := by
    have h := mirror_lt hsz.pos (show j < numLanes sz * sz by rwa [hsz.numLanes_mul])
    rwa [hsz.numLanes_mul] at h
  rw [reverseLanes_apply hsz, vld1qU8]
  simp only [Fin.val_ofNat, Nat.mod_eq_of_lt hj, Nat.mod_eq_of_lt hlt]

/-- Three vectors of interleaved scalars loaded, reversed and stored. -/
theorem vst3q_reverseLanes3 (hsz : ScalarSize sz) (m m' : Mem) (dst src : ℕ) :
    vst3q sz m dst (reverseLanes3 sz (vld3q sz m' src)) =
      overwrite m dst 48 fun j => m' (src + mirror (numLanes sz) (3 * sz) j) := by
  refine overwrite_congr fun j hj => ?_
  have hindex : ∀ sz ∈ [1, 2, 4, 8], ∀ j < 48,
      (fun k => (3 * (k / sz) + (Fin.ofNat 3 (j / sz % 3)).val) * sz + k % sz)
        (Fin.ofNat 16 (mirror (numLanes sz) sz (Fin.ofNat 16 (j / sz / 3 * sz + j % sz)).val)).val =
      mirror (numLanes sz) (3 * sz) j := by decide
  rw [← hindex sz (by rcases hsz with rfl | rfl | rfl | rfl <;> simp) j hj]
  simp only [reverseLanes3, reverseLanes_apply hsz, vld3q]

end

end KleidiCV
