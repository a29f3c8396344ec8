/-
The tile kernel of transpose and rotate.

A tile has as many rows as a vector has lanes.  The kernel exchanges blocks of
one lane, then of two, four, ..., with `vtrn1q` and `vtrn2q` on elements twice
as wide each time.

* `BlockTransposed` — every block of `h` by `h` lanes is transposed in its
  place;
* `BlockTransposed.stage` — one pair of `vtrn` takes `h` to `2 * h`;
* `tileRecursive_transposed` — the whole tile is transposed.
-/
import KleidiCV.PixelBlocks

namespace KleidiCV

/-- `vtrn1q` on elements of `w` bytes. -/
def vtrn1q (w : ℕ) (a b : U8x16) : U8x16 := fun k =>
  if k / w % 2 = 0 then a k else b (Fin.ofNat 16 (k - w))

/-- `vtrn2q` on elements of `w` bytes. -/
def vtrn2q (w : ℕ) (a b : U8x16) : U8x16 := fun k =>
  if k / w % 2 = 0 then a (Fin.ofNat 16 (k + w)) else b k

/-- `rotate_transpose_tile_recursive<TileSize, Order, ReverseRows>` with
`Order = 2 ^ (k + 1)`; vector `t` of the result. -/
def tileRecursive (sz tileSize : ℕ) (reverseRows : Bool) (srcRows : ℕ → U8x16) : ℕ → ℕ → U8x16
  | 0, t =>
    if reverseRows then
      if t % 2 = 0 then vtrn1q sz (srcRows (tileSize - 1 - t)) (srcRows (tileSize - 1 - (t + 1)))
      else vtrn2q sz (srcRows (tileSize - 1 - (t - 1))) (srcRows (tileSize - 1 - t))
    else
      if t % 2 = 0 then vtrn1q sz (srcRows t) (srcRows (t + 1))
      else vtrn2q sz (srcRows (t - 1)) (srcRows t)
  | k + 1, t =>
    let input := tileRecursive sz tileSize reverseRows srcRows k
    let halfOrder := 2 ^ (k + 1)
    if t % 2 ^ (k + 2) < halfOrder then
      vtrn1q (sz * halfOrder) (input t) (input (t + halfOrder))
    else vtrn2q (sz * halfOrder) (input (t - halfOrder)) (input t)

/-- Byte `r` of lane `i`. -/
def laneByte (sz i r : ℕ) : Fin 16 := Fin.ofNat 16 (i * sz + r)

section

variable {sz h : ℕ} {a b : U8x16}

/-- The lane of a byte, in groups of `h` lanes. -/
theorem laneByte_group {q i r : ℕ} (hi : i < h) (hr : r < sz)
    (hlt : (q * h + i) * sz + r < 16) : (laneByte sz (q * h + i) r).val / (sz * h) = q := by
  have hval : (laneByte sz (q * h + i) r).val = (q * h + i) * sz + r := Nat.mod_eq_of_lt hlt
  have hrest : i * sz + r < sz * h := by
    have := Nat.mul_le_mul_right sz (Nat.succ_le_of_lt hi)
    rw [Nat.succ_mul, Nat.mul_comm h] at this
    omega
  rw [hval, show (q * h + i) * sz + r = sz * h * q + (i * sz + r) by ring,
    Nat.mul_add_div (by omega), Nat.div_eq_of_lt hrest, Nat.add_zero]

/-- Moving by one group of lanes. -/
theorem laneByte_add (i r : ℕ) : laneByte sz (i + h) r = Fin.ofNat 16 (i * sz + r + sz * h) := by
  rw [laneByte]
  congr 1
  ring

theorem vtrn1q_even {q i r : ℕ} (hq : q % 2 = 0) (hi : i < h) (hr : r < sz)
    (hlt : (q * h + i) * sz + r < 16) :
    vtrn1q (sz * h) a b (laneByte sz (q * h + i) r) = a (laneByte sz (q * h + i) r) := by
  rw [vtrn1q, laneByte_group hi hr hlt, if_pos hq]

theorem vtrn1q_odd {q i r : ℕ} (hq : q % 2 = 0) (hi : i < h) (hr : r < sz)
    (hlt : ((q + 1) * h + i) * sz + r < 16) :
    vtrn1q (sz * h) a b (laneByte sz ((q + 1) * h + i) r) = b (laneByte sz (q * h + i) r) := by
  have hval : (laneByte sz ((q + 1) * h + i) r).val = ((q + 1) * h + i) * sz + r :=
    Nat.mod_eq_of_lt hlt
  rw [vtrn1q, laneByte_group hi hr hlt, if_neg (by omega), hval, laneByte]
  congr 2
  rw [show ((q + 1) * h + i) * sz + r = (q * h + i) * sz + r + sz * h by ring]
  omega

theorem vtrn2q_even {q i r : ℕ} (hq : q % 2 = 0) (hi : i < h) (hr : r < sz)
    (hlt : (q * h + i) * sz + r < 16) :
    vtrn2q (sz * h) a b (laneByte sz (q * h + i) r) = a (laneByte sz ((q + 1) * h + i) r) := by
  have hval : (laneByte sz (q * h + i) r).val = (q * h + i) * sz + r := Nat.mod_eq_of_lt hlt
  rw [vtrn2q, laneByte_group hi hr hlt, if_pos hq, hval, laneByte]
  congr 2
  ring

theorem vtrn2q_odd {q i r : ℕ} (hq : q % 2 = 0) (hi : i < h) (hr : r < sz)
    (hlt : ((q + 1) * h + i) * sz + r < 16) :
    vtrn2q (sz * h) a b (laneByte sz ((q + 1) * h + i) r) =
      b (laneByte sz ((q + 1) * h + i) r) := by
  rw [vtrn2q, laneByte_group hi hr hlt, if_neg (by omega)]

end

/-! ### Blocks -/

/-- In every block of `h` by `h` lanes of the tile, rows and columns have changed
places. -/
def BlockTransposed (sz h : ℕ) (rows out : ℕ → U8x16) : Prop :=
  ∀ A B a b r, a < h → b < h → r < sz → A * h + h ≤ numLanes sz → B * h + h ≤ numLanes sz →
    out (A * h + a) (laneByte sz (B * h + b) r) = rows (A * h + b) (laneByte sz (B * h + a) r)

theorem blockTransposed_one (sz : ℕ) (rows : ℕ → U8x16) : BlockTransposed sz 1 rows rows := by
  intro A B a b r ha hb _ _ _
  obtain rfl : a = 0 := by omega
  obtain rfl : b = 0 := by omega
  rfl

/-- One stage of the kernel doubles the size of the blocks. -/
theorem BlockTransposed.stage {sz h : ℕ} {rows input : ℕ → U8x16} (hsz : ScalarSize sz)
    (hin : BlockTransposed sz h rows input) :
    BlockTransposed sz (2 * h) rows fun t =>
      if t % (2 * h) < h then vtrn1q (sz * h) (input t) (input (t + h))
      else vtrn2q (sz * h) (input (t - h)) (input t) := by
  intro A B a' b' r ha hb hr hA hB
  have hfit : ∀ i, i < numLanes sz → i * sz + r < 16 := by
    intro i hi
    have := Nat.mul_le_mul_right sz (Nat.succ_le_of_lt hi)
    rw [Nat.succ_mul, hsz.numLanes_mul] at this
    omega
  have hA2 : A * (2 * h) = 2 * A * h := by ring
  have hB2 : B * (2 * h) = 2 * B * h := by ring
  rw [hA2] at hA ⊢
  rw [hB2] at hB ⊢
  have hmod : (2 * A * h + a') % (2 * h) = a' := by
    rw [show 2 * A * h + a' = 2 * h * A + a' by ring, Nat.mul_add_mod, Nat.mod_eq_of_lt ha]
  have hA' : (2 * A + 1) * h = 2 * A * h + h := Nat.succ_mul _ _
  have hB' : (2 * B + 1) * h = 2 * B * h + h := Nat.succ_mul _ _
  have heven : 2 * B % 2 = 0 := Nat.mul_mod_right 2 B
  simp only [hmod]
  -- The four quarters of a block.
  rcases Nat.lt_or_ge a' h with ha' | ha' <;> rcases Nat.lt_or_ge b' h with hb' | hb'
  · rw [if_pos ha', vtrn1q_even heven hb' hr (hfit _ (by omega))]
    exact hin (2 * A) (2 * B) a' b' r ha' hb' hr (by omega) (by omega)
  · obtain ⟨b, rfl⟩ := Nat.exists_eq_add_of_le hb'
    rw [if_pos ha', show 2 * B * h + (h + b) = (2 * B + 1) * h + b by omega,
      vtrn1q_odd heven (by omega) hr (hfit _ (by omega)),
      show 2 * A * h + a' + h = (2 * A + 1) * h + a' by omega,
      show 2 * A * h + (h + b) = (2 * A + 1) * h + b by omega]
    exact hin (2 * A + 1) (2 * B) a' b r ha' (by omega) hr (by omega) (by omega)
  · obtain ⟨a, rfl⟩ := Nat.exists_eq_add_of_le ha'
    rw [if_neg (by omega), vtrn2q_even heven hb' hr (hfit _ (by omega)),
      show 2 * A * h + (h + a) - h = 2 * A * h + a by omega,
      show 2 * B * h + (h + a) = (2 * B + 1) * h + a by omega]
    exact hin (2 * A) (2 * B + 1) a b' r (by omega) hb' hr (by omega) (by omega)
  · obtain ⟨a, rfl⟩ := Nat.exists_eq_add_of_le ha'
    obtain ⟨b, rfl⟩ := Nat.exists_eq_add_of_le hb'
    rw [if_neg (by omega), show 2 * B * h + (h + b) = (2 * B + 1) * h + b by omega,
      vtrn2q_odd heven (by omega) hr (hfit _ (by omega)),
      show 2 * A * h + (h + a) = (2 * A + 1) * h + a by omega,
      show 2 * A * h + (h + b) = (2 * A + 1) * h + b by omega,
      show 2 * B * h + (h + a) = (2 * B + 1) * h + a by omega]
    exact hin (2 * A + 1) (2 * B + 1) a b r (by omega) (by omega) hr (by omega) (by omega)

/-- The row that the kernel takes for row `i`. -/
def tileRow (sz : ℕ) (reverseRows : Bool) (i : ℕ) : ℕ :=
  if reverseRows then numLanes sz - 1 - i else i

theorem tileRecursive_blocks {sz : ℕ} (hsz : ScalarSize sz) (reverseRows : Bool)
    (srcRows : ℕ → U8x16) (k : ℕ) :
    BlockTransposed sz (2 ^ (k + 1)) (fun i => srcRows (tileRow sz reverseRows i))
      (tileRecursive sz (numLanes sz) reverseRows srcRows k) := by
  induction k with
  | zero =>
    have h := (blockTransposed_one sz fun i => srcRows (tileRow sz reverseRows i)).stage hsz
    convert h using 1
    · rfl
    · funext t
      cases reverseRows with
      | false =>
        simp only [tileRecursive, tileRow, Bool.false_eq_true, if_false, Nat.mul_one,
          Nat.lt_one_iff]
      | true => simp only [tileRecursive, tileRow, if_true, Nat.mul_one, Nat.lt_one_iff]
  | succ k ih =>
    have hpow : 2 ^ (k + 1 + 1) = 2 * 2 ^ (k + 1) := Nat.pow_succ'
    have h := ih.stage hsz
    rw [← hpow] at h
    exact h

/-- The number of lanes is the order of the last stage. -/
theorem ScalarSize.two_pow_log2 {sz : ℕ} (hsz : ScalarSize sz) :
    2 ^ (Nat.log2 (numLanes sz) - 1 + 1) = numLanes sz := by
  rcases hsz with rfl | rfl | rfl | rfl <;> decide

/-- The last stage has transposed the tile. -/
theorem tileRecursive_transposed {sz : ℕ} (hsz : ScalarSize sz) (reverseRows : Bool)
    (srcRows : ℕ → U8x16) {t i r : ℕ} (ht : t < numLanes sz) (hi : i < numLanes sz) (hr : r < sz) :
    tileRecursive sz (numLanes sz) reverseRows srcRows (Nat.log2 (numLanes sz) - 1) t
        (laneByte sz i r) =
      srcRows (tileRow sz reverseRows i) (laneByte sz t r) := by
  have h := tileRecursive_blocks hsz reverseRows srcRows (Nat.log2 (numLanes sz) - 1)
  rw [hsz.two_pow_log2] at h
  have key := h 0 0 t i r ht hi hr (by omega) (by omega)
  simpa only [Nat.zero_mul, Nat.zero_add] using key

end KleidiCV
