/-
Machine words, error codes and the argument checks shared by every entry point.

`size_t` values are natural numbers below `sizeMod = 2 ^ 64`; the operations
that can leave that range are written with an explicit `% sizeMod`.  The
checks of `utils.h` are Boolean functions of the arguments they look at, in
the order the entry points apply them.
-/
import Mathlib.Data.BitVec
import Mathlib.Tactic

namespace KleidiCV

/-- The values a `size_t` can take are those below `2 ^ 64`. -/
def sizeMod : ℕ := 2 ^ 64

/-- `a - b` in `size_t`. -/
def sizeSub (a b : ℕ) : ℕ := (a + (sizeMod - b % sizeMod)) % sizeMod

/-- The conversion of a `size_t` to `ptrdiff_t`. -/
def toPtrdiff (a : ℕ) : ℤ := if a < 2 ^ 63 then a else (a : ℤ) - sizeMod

theorem sizeSub_eq {a b : ℕ} (h : b ≤ a) (ha : a < sizeMod) : sizeSub a b = a - b := by
  unfold sizeSub
  rw [Nat.mod_eq_of_lt (show b < sizeMod by omega),
    show a + (sizeMod - b) = (a - b) + sizeMod by omega, Nat.add_mod_right,
    Nat.mod_eq_of_lt (by omega)]

theorem toPtrdiff_eq {a : ℕ} (h : a < 2 ^ 63) : toPtrdiff a = a := if_pos h

/-! ### Sizes of words and vectors -/

instance neZero_two : NeZero 2 := ⟨by decide⟩
instance neZero_three : NeZero 3 := ⟨by decide⟩
instance neZero_four : NeZero 4 := ⟨by decide⟩
instance neZero_eight : NeZero 8 := ⟨by decide⟩
instance neZero_sixteen : NeZero 16 := ⟨by decide⟩
instance neZero_byte : NeZero 256 := ⟨by decide⟩
instance neZero_halfword : NeZero 65536 := ⟨by decide⟩
instance neZero_word : NeZero 4294967296 := ⟨by decide⟩

theorem two_lanes_pos : 0 < 2 := by decide

theorem four_lanes_pos : 0 < 4 := by decide

theorem eight_lanes_pos : 0 < 8 := by decide

section

variable {n : ℕ}

theorem lowLane_lt (lane : Fin n) : (lane : ℕ) < 2 * n := by omega

theorem highLane_lt (lane : Fin n) : n + lane < 2 * n := by omega

theorem evenLane_lt (lane : Fin n) : 2 * (lane : ℕ) < 2 * n := by omega

theorem oddLane_lt (lane : Fin n) : 2 * (lane : ℕ) + 1 < 2 * n := by omega

theorem halvedLane_lt (lane : Fin (2 * n)) : (lane : ℕ) / 2 < n := by omega

theorem upperLane_lt {lane : Fin (2 * n)} (h : ¬ (lane : ℕ) < n) : lane - n < n := by omega

/-- The lane of an address that a store of `n` elements reaches. -/
theorem storedLane_lt {ptr a : ℕ} (h : ptr ≤ a ∧ a < ptr + n) : a - ptr < n := by omega

end

/-- `uint8_t`. -/
abbrev U8 := Fin 256

/-- `kleidicv_error_t`. -/
inductive KleidicvError
  | ok
  | notImplemented
  | nullPointer
  | range
  | allocation
  | alignment
  | contextMismatch
  deriving DecidableEq, Repr

/-- `KLEIDICV_MAX_IMAGE_PIXELS`. -/
def kleidicvMaxImagePixels : ℕ := 2 ^ 48 - 1

/-- `KLEIDICV_MAXIMUM_CHANNEL_COUNT`. -/
def kleidicvMaximumChannelCount : ℕ := 4

/-- `CHECK_IMAGE_SIZE`: `__builtin_mul_overflow` first, the pixel limit
second. -/
def checkImageSize (width height : ℕ) : Bool :=
  if sizeMod ≤ width * height then false
  else decide (width * height ≤ kleidicvMaxImagePixels)

theorem checkImageSize_iff {width height : ℕ} :
    checkImageSize width height = true ↔ width * height ≤ kleidicvMaxImagePixels := by
  unfold checkImageSize
  split
  · rename_i h
    simp only [Bool.false_eq_true, false_iff, not_le]
    exact lt_of_lt_of_le (by norm_num [kleidicvMaxImagePixels, sizeMod]) h
  · simp

/-- `is_misaligned`, for a type of `sz` bytes. -/
def isMisaligned (sz v : ℕ) : Bool := v % sz != 0

/-- `check_pointer_and_stride`. -/
def checkPointerAndStride (sz pointer stride height : ℕ) : KleidicvError :=
  if pointer = 0 then .nullPointer
  else if sz ≠ 1 ∧ 1 < height ∧ isMisaligned sz stride then .alignment
  else .ok

theorem isMisaligned_iff {size stride : ℕ} : isMisaligned size stride = true ↔ ¬size ∣ stride := by
  rw [isMisaligned, bne_iff_ne, ne_eq, Nat.dvd_iff_mod_eq_zero]

/-- One check. -/
theorem checkPointerAndStride_cases (size ptr stride height : ℕ) :
    (checkPointerAndStride size ptr stride height = .nullPointer ∧ ptr = 0) ∨
      (checkPointerAndStride size ptr stride height = .alignment ∧ 1 < height ∧ ¬size ∣ stride) ∨
      (checkPointerAndStride size ptr stride height = .ok ∧ ptr ≠ 0 ∧
        (1 < height → size ∣ stride)) := by
  rw [checkPointerAndStride]
  by_cases hnull : ptr = 0
  · rw [if_pos hnull]
    exact .inl ⟨rfl, hnull⟩
  · rw [if_neg hnull]
    split
    next h => exact .inr (.inl ⟨rfl, h.2.1, isMisaligned_iff.mp h.2.2⟩)
    next h =>
      refine .inr (.inr ⟨rfl, hnull, fun hheight => ?_⟩)
      by_cases hone : size = 1
      · rw [hone]
        exact one_dvd _
      · by_contra hdvd
        exact h ⟨hone, hheight, isMisaligned_iff.mpr hdvd⟩

end KleidiCV
