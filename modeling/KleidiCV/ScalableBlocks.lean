/-
Blocks of pixels in scalable vectors.

The length of a vector is only known when the program runs.  A vector is a function of the
lane and of the byte in the lane; loads and stores are tallied, and a predicate keeps them
from the lanes that it leaves out.

* `svld_touches`, `svst_eq` — a load and a store through a predicate of `n` leading lanes;
* `svst_reversed` — lanes stored in reverse order are a mirrored block.
-/
import KleidiCV.Lib.Tally
import KleidiCV.PixelBlocks
import KleidiCV.Sve

namespace KleidiCV

/-- The length of a vector, in bytes. -/
structure VectorLength where
  bytes : ℕ
  power : ∃ k, 4 ≤ k ∧ k ≤ 8 ∧ bytes = 2 ^ k

namespace Scalable

/-- A vector register: byte `k` of lane `l`. -/
abbrev Vector := ℕ → ℕ → U8

/-- `VectorTraits::num_lanes()`. -/
def numLanes (vl : VectorLength) (sz : ℕ) : ℕ := vl.bytes / sz

/-- The addresses of the active lanes, of `n` interleaved vectors of `lanes` lanes. -/
def activeRange (lanes sz n : ℕ) (pg : ℕ → Bool) (ptr a : ℕ) : Bool :=
  decide (ptr ≤ a ∧ a < ptr + lanes * (n * sz)) && pg ((a - ptr) / (n * sz))

/-- A load of `n` interleaved vectors: lane `l` of vector `c` is scalar `n * l + c`, zero
where the lane is inactive. -/
def svld (lanes sz n : ℕ) (pg : ℕ → Bool) (ptr : ℕ) (r : Tallied U8) :
    (ℕ → Vector) × Tallied U8 :=
  (fun c l k => if pg l then r.mem (ptr + ((n * l + c) * sz + k)) else 0,
    r.load (activeRange lanes sz n pg ptr))

/-- A store of `n` interleaved vectors. -/
def svst (lanes sz n : ℕ) (pg : ℕ → Bool) (ptr : ℕ) (v : ℕ → Vector)
    (r : Tallied U8) : Tallied U8 :=
  r.store (activeRange lanes sz n pg ptr) fun a =>
    let j := a - ptr
    v (j / sz % n) (j / sz / n) (j % sz)

/-- `svld1`. -/
def svld1 (vl : VectorLength) (sz : ℕ) (pg : ℕ → Bool) (ptr : ℕ) (r : Tallied U8) :
    Vector × Tallied U8 :=
  let loaded := svld (numLanes vl sz) sz 1 pg ptr r
  (loaded.1 0, loaded.2)

/-- `svst1`. -/
def svst1 (vl : VectorLength) (sz : ℕ) (pg : ℕ → Bool) (ptr : ℕ) (v : Vector) (r : Tallied U8) :
    Tallied U8 :=
  svst (numLanes vl sz) sz 1 pg ptr (fun _ => v) r

/-- `svld3`. -/
def svld3 (vl : VectorLength) (sz : ℕ) (pg : ℕ → Bool) (ptr : ℕ) (r : Tallied U8) :
    (ℕ → Vector) × Tallied U8 :=
  svld (numLanes vl sz) sz 3 pg ptr r

/-- `svst3`. -/
def svst3 (vl : VectorLength) (sz : ℕ) (pg : ℕ → Bool) (ptr : ℕ) (v : ℕ → Vector)
    (r : Tallied U8) : Tallied U8 :=
  svst (numLanes vl sz) sz 3 pg ptr v r

/-- `svrev`. -/
def svrev (vl : VectorLength) (sz : ℕ) (v : Vector) : Vector := fun l => v (numLanes vl sz - 1 - l)

/-- `svtbl`: zero where the index is out of range. -/
def svtbl (vl : VectorLength) (sz : ℕ) (v : Vector) (indices : ℕ → ℕ) : Vector := fun l =>
  if indices l < numLanes vl sz then v (indices l) else 0

/-- `VectorTraits::svindex`, in scalars of `sz` bytes. -/
def svindex (sz base step : ℕ) : ℕ → ℕ := fun l => (base + l * step) % 2 ^ (8 * sz)

/-- `svindex(length - 1, static_cast<ScalarType>(-1))`. -/
def reversalIndices (sz length : ℕ) : ℕ → ℕ :=
  svindex sz ((length - 1) % 2 ^ (8 * sz)) (2 ^ (8 * sz) - 1)

section

variable {vl : VectorLength} {sz n : ℕ} {pg : ℕ → Bool} {r : Tallied U8}

/-- A vector has whole lanes. -/
theorem numLanes_mul (vl : VectorLength) (hsz : ScalarSize sz) :
    numLanes vl sz * sz = vl.bytes := by
  obtain ⟨k, hk, -, heq⟩ := vl.power
  refine Nat.div_mul_cancel ?_
  rw [heq, show k = 3 + (k - 3) by omega, pow_add]
  refine Dvd.dvd.mul_right ?_ _
  rcases hsz with rfl | rfl | rfl | rfl
  all_goals decide

theorem numLanes_pos (vl : VectorLength) (hsz : ScalarSize sz) : 0 < numLanes vl sz := by
  have hmul := numLanes_mul vl hsz
  obtain ⟨k, -, -, heq⟩ := vl.power
  have hpos : 0 < vl.bytes := heq ▸ Nat.two_pow_pos k
  exact Nat.pos_of_mul_pos_right (hmul ▸ hpos)

theorem numLanes_le (vl : VectorLength) (hsz : ScalarSize sz) : numLanes vl sz ≤ 2 ^ (8 * sz) := by
  have hle : numLanes vl sz ≤ 2 ^ 8 := by
    obtain ⟨k, -, hk, heq⟩ := vl.power
    exact (Nat.div_le_self _ _).trans (heq ▸ Nat.pow_le_pow_right two_pos hk)
  have hpos := hsz.pos
  exact hle.trans (Nat.pow_le_pow_right two_pos (by omega))

/-- The predicate has `k` leading lanes. -/
structure Leading (lanes : ℕ) (pg : ℕ → Bool) (k : ℕ) : Prop where
  le : k ≤ lanes
  active : ∀ l < lanes, pg l = decide (l < k)

variable {lanes k ptr : ℕ}

theorem leading_ptrue : Leading lanes svptrue lanes :=
  ⟨le_rfl, fun _ hl => (decide_eq_true hl).symm⟩

theorem leading_whilelt {index last : ℕ} (h : last ≤ index + lanes) :
    Leading lanes (svwhilelt index last) (last - index) :=
  ⟨by omega, fun l _ => decide_eq_decide.mpr (by omega)⟩

/-- A predicate up to the end of the data, or with all lanes. -/
theorem leading_whilelt_min (index last : ℕ) :
    Leading lanes (svwhilelt index last) (min lanes (last - index)) :=
  ⟨Nat.min_le_left _ _, fun l hl => decide_eq_decide.mpr (by omega)⟩

/-- Only the leading lanes are accessed. -/
theorem Leading.activeRange_eq (h : Leading lanes pg k) (hp : 0 < n * sz) :
    activeRange lanes sz n pg ptr = Tallied.inRange ptr (k * (n * sz)) := by
  funext a
  have hle : k * (n * sz) ≤ lanes * (n * sz) := Nat.mul_le_mul_right _ h.le
  by_cases hin : ptr ≤ a ∧ a < ptr + lanes * (n * sz)
  · have hlane : (a - ptr) / (n * sz) < lanes :=
      Nat.div_lt_of_lt_mul (by rw [Nat.mul_comm]; omega)
    rw [activeRange, decide_eq_true hin, Bool.true_and, h.active _ hlane, Tallied.inRange]
    refine decide_eq_decide.mpr ?_
    rw [Nat.div_lt_iff_lt_mul hp]
    omega
  · rw [activeRange, decide_eq_false hin, Bool.false_and]
    exact (Tallied.inRange_of_not_mem (by omega)).symm

theorem Leading.svld_touches (h : Leading lanes pg k) (hp : 0 < n * sz) :
    (svld lanes sz n pg ptr r).2 = r.loadRange ptr (k * (n * sz)) := by
  rw [svld, h.activeRange_eq hp]
  rfl

/-- An active lane is what memory holds. -/
theorem Leading.svld_lane (h : Leading lanes pg k) {l : ℕ} (hl : l < k) (c i : ℕ) :
    (svld lanes sz n pg ptr r).1 c l i = r.mem (ptr + ((n * l + c) * sz + i)) := by
  have hactive : pg l = true := by
    rw [h.active l (hl.trans_le h.le)]
    exact decide_eq_true hl
  exact if_pos hactive

theorem Leading.svst_eq (h : Leading lanes pg k) (hp : 0 < n * sz) (v : ℕ → Vector) :
    svst lanes sz n pg ptr v r =
      r.storeRange ptr (k * (n * sz)) fun j => v (j / sz % n) (j / sz / n) (j % sz) := by
  rw [svst, h.activeRange_eq hp]
  rfl

/-- Byte `j` of a block, as a byte of a scalar of a pixel. -/
theorem scalar_byte (n sz l j : ℕ) :
    (n * l + j / sz % n) * sz + j % sz = l * (n * sz) + j % (n * sz) := by
  rw [Nat.mul_comm n sz, Nat.mod_mul]
  ring

/-- The lane of byte `j` of a block. -/
theorem lane_lt {j : ℕ} (hj : j < k * (n * sz)) : j / sz / n < k := by
  rw [Nat.div_div_eq_div_mul, Nat.mul_comm sz]
  exact Nat.div_lt_of_lt_mul (by rwa [Nat.mul_comm])

/-- What the leading lanes hold in reverse order is stored as a mirrored block. -/
theorem Leading.svst_reversed (h : Leading lanes pg k) (hn : 0 < n) (hsz : 0 < sz)
    {v : ℕ → Vector} {g : ℕ → U8}
    (hv : ∀ c < n, ∀ l i, l < k → v c l i = g ((n * (k - 1 - l) + c) * sz + i)) :
    svst lanes sz n pg ptr v r =
      r.storeRange ptr (k * (n * sz)) fun j => g (mirror k (n * sz) j) := by
  rw [h.svst_eq (Nat.mul_pos hn hsz)]
  refine Tallied.storeRange_congr fun j hj => ?_
  rw [hv _ (Nat.mod_lt _ hn) _ _ (lane_lt hj), scalar_byte, mirror, Nat.div_div_eq_div_mul,
    Nat.mul_comm sz]

/-- What the leading lanes hold in order is stored as a block. -/
theorem Leading.svst_straight (h : Leading lanes pg k) (hn : 0 < n) (hsz : 0 < sz)
    {v : ℕ → Vector} {g : ℕ → U8}
    (hv : ∀ c < n, ∀ l i, l < k → v c l i = g ((n * l + c) * sz + i)) :
    svst lanes sz n pg ptr v r = r.storeRange ptr (k * (n * sz)) g := by
  rw [h.svst_eq (Nat.mul_pos hn hsz)]
  refine Tallied.storeRange_congr fun j hj => ?_
  rw [hv _ (Nat.mod_lt _ hn) _ _ (lane_lt hj), scalar_byte, Nat.div_div_eq_div_mul,
    Nat.mul_comm sz, Nat.div_add_mod']

/-- The indices count down from the last lane. -/
theorem reversalIndices_eq {length l : ℕ} (hl : l < length) (hlen : length ≤ 2 ^ (8 * sz)) :
    reversalIndices sz length l = length - 1 - l := by
  obtain ⟨M, hM⟩ : ∃ M, 2 ^ (8 * sz) = M + 1 := ⟨2 ^ (8 * sz) - 1, by
    have := Nat.two_pow_pos (8 * sz)
    omega⟩
  rw [reversalIndices, svindex, hM, Nat.add_sub_cancel,
    Nat.mod_eq_of_lt (show length - 1 < M + 1 by omega)]
  have hsum : length - 1 + l * M = (length - 1 - l) + l * (M + 1) := by
    rw [Nat.mul_succ]
    omega
  rw [hsum, Nat.add_mul_mod_self_right, Nat.mod_eq_of_lt (by omega)]

theorem svtbl_reversal {length l : ℕ} (v : Vector) (hsz : ScalarSize sz) (hl : l < length)
    (hlen : length ≤ numLanes vl sz) :
    svtbl vl sz v (reversalIndices sz length) l = v (length - 1 - l) := by
  rw [svtbl, reversalIndices_eq hl (hlen.trans (numLanes_le vl hsz)), if_pos (by omega)]

/-! ### One and three vectors -/

variable {r' : Tallied U8} {src dst : ℕ}

theorem Leading.svld1_touches (h : Leading (numLanes vl sz) pg k) (hsz : 0 < sz) :
    (svld1 vl sz pg src r).2 = r.loadRange src (k * sz) := by
  have hload : (svld1 vl sz pg src r).2 = r.loadRange src (k * (1 * sz)) :=
    h.svld_touches (by rwa [Nat.one_mul])
  rwa [Nat.one_mul] at hload

theorem Leading.svld3_touches (h : Leading (numLanes vl sz) pg k) (hsz : 0 < sz) :
    (svld3 vl sz pg src r).2 = r.loadRange src (k * (3 * sz)) :=
  h.svld_touches (Nat.mul_pos (by decide) hsz)

/-- A vector loaded and stored. -/
theorem Leading.svst1_svld1 (h : Leading (numLanes vl sz) pg k) (hsz : 0 < sz) :
    svst1 vl sz pg dst (svld1 vl sz pg src r).1 r' =
      r'.storeRange dst (k * sz) fun j => r.mem (src + j) := by
  have hstore : svst1 vl sz pg dst (svld1 vl sz pg src r).1 r' =
      r'.storeRange dst (k * (1 * sz)) fun j => r.mem (src + j) :=
    h.svst_straight (g := fun j => r.mem (src + j)) Nat.one_pos hsz fun c hc l i hl => by
      rw [Nat.lt_one_iff.mp hc]
      exact h.svld_lane hl 0 i
  rwa [Nat.one_mul] at hstore

/-- A vector loaded, with its leading lanes reversed, and stored. -/
theorem Leading.svst1_reversed (h : Leading (numLanes vl sz) pg k) (hsz : 0 < sz) {reverse : Vector → Vector}
    (hreverse : ∀ v l, l < k → reverse v l = v (k - 1 - l)) :
    svst1 vl sz pg dst (reverse (svld1 vl sz pg src r).1) r' =
      r'.storeRange dst (k * sz) fun j => r.mem (src + mirror k sz j) := by
  have hstore : svst1 vl sz pg dst (reverse (svld1 vl sz pg src r).1) r' =
      r'.storeRange dst (k * (1 * sz)) fun j => r.mem (src + mirror k (1 * sz) j) :=
    h.svst_reversed (g := fun j => r.mem (src + j)) Nat.one_pos hsz fun c hc l i hl => by
      rw [Nat.lt_one_iff.mp hc, hreverse _ _ hl]
      exact h.svld_lane (by omega) 0 i
  rwa [Nat.one_mul] at hstore

/-- Three vectors of interleaved scalars loaded, reversed and stored. -/
theorem Leading.svst3_reversed (h : Leading (numLanes vl sz) pg k) (hsz : 0 < sz) {reverse : Vector → Vector}
    (hreverse : ∀ v l, l < k → reverse v l = v (k - 1 - l)) :
    svst3 vl sz pg dst (fun c => reverse ((svld3 vl sz pg src r).1 c)) r' =
      r'.storeRange dst (k * (3 * sz)) fun j => r.mem (src + mirror k (3 * sz) j) :=
  h.svst_reversed (g := fun j => r.mem (src + j)) (by decide) hsz fun c _ l i hl => by
    rw [hreverse _ _ hl]
    exact h.svld_lane (by omega) c i

/-! ### Several blocks -/

theorem loadRange_two (r : Tallied U8) (a n : ℕ) :
    (r.loadRange a n).loadRange (a + n) n = r.loadRange a (2 * n) := by
  rw [Tallied.loadRange_append, Nat.two_mul]

theorem loadRange_four (r : Tallied U8) (a n : ℕ) :
    (((r.loadRange a n).loadRange (a + n) n).loadRange (a + 2 * n) n).loadRange (a + 3 * n) n =
      r.loadRange a (4 * n) := by
  rw [loadRange_two, Tallied.loadRange_append, show a + 3 * n = a + (2 * n + n) by ring,
    Tallied.loadRange_append, show 2 * n + n + n = 4 * n by ring]

variable {p : ℕ} {g : ℕ → U8}

/-- Two blocks in order are one block. -/
theorem storeRange_two (r : Tallied U8) (d n : ℕ) (g : ℕ → U8) :
    (r.storeRange d n g).storeRange (d + n) n (fun j => g (n + j)) = r.storeRange d (2 * n) g := by
  rw [Tallied.storeRange_append, Nat.two_mul]
  refine Tallied.storeRange_congr fun j _ => ?_
  split
  · rfl
  · rw [Nat.add_sub_cancel' (by omega)]

theorem storeRange_four (r : Tallied U8) (d n : ℕ) (g : ℕ → U8) :
    (((r.storeRange d n g).storeRange (d + n) n fun j => g (n + j)).storeRange (d + 2 * n) n
      fun j => g (2 * n + j)).storeRange (d + 3 * n) n (fun j => g (3 * n + j)) =
      r.storeRange d (4 * n) g := by
  have hlast := storeRange_two (r.storeRange d (2 * n) g) (d + 2 * n) n fun j => g (2 * n + j)
  have hall := storeRange_two r d (2 * n) g
  rw [storeRange_two, show 4 * n = 2 * (2 * n) by ring, ← hall, ← hlast,
    show d + 2 * n + n = d + 3 * n by ring]
  refine congrArg (Tallied.storeRange _ _ _) (funext fun j => ?_)
  rw [show 2 * n + (n + j) = 3 * n + j by ring]

/-- Two mirrored blocks in reverse order are one mirrored block. -/
theorem storeRange_mirror_two (hp : 0 < p) (r : Tallied U8) (d n : ℕ) (g : ℕ → U8) :
    (r.storeRange d (n * p) fun j => g (n * p + mirror n p j)).storeRange (d + n * p) (n * p)
        (fun j => g (mirror n p j)) =
      r.storeRange d (2 * n * p) fun j => g (mirror (2 * n) p j) := by
  rw [Tallied.storeRange_append, show n * p + n * p = 2 * n * p by ring]
  refine Tallied.storeRange_congr fun j hj => ?_
  split
  · rename_i hlt
    rw [(mirror_two_blocks hp hlt).1]
  · rename_i hge
    obtain ⟨i, rfl⟩ := Nat.exists_eq_add_of_le (Nat.le_of_not_lt hge)
    have hi : i < n * p := by
      rw [Nat.mul_assoc, Nat.two_mul] at hj
      omega
    rw [(mirror_two_blocks hp hi).2, Nat.add_sub_cancel_left]

theorem storeRange_mirror_four (hp : 0 < p) (r : Tallied U8) (d n : ℕ) (g : ℕ → U8) :
    (((r.storeRange d (n * p) fun j => g (3 * (n * p) + mirror n p j)).storeRange (d + n * p)
      (n * p) fun j => g (2 * (n * p) + mirror n p j)).storeRange (d + 2 * (n * p)) (n * p)
      fun j => g (n * p + mirror n p j)).storeRange (d + 3 * (n * p)) (n * p)
        (fun j => g (mirror n p j)) =
      r.storeRange d (4 * n * p) fun j => g (mirror (4 * n) p j) := by
  have hfirst := storeRange_mirror_two hp r d n fun j => g (2 * (n * p) + j)
  have hall := storeRange_mirror_two hp r d (2 * n) g
  have hlast := storeRange_mirror_two hp
    (r.storeRange d (2 * n * p) fun j => g (2 * n * p + mirror (2 * n) p j)) (d + 2 * n * p) n g
  rw [show 2 * (2 * n) = 4 * n by ring] at hall
  rw [Nat.mul_assoc 2 n p] at hfirst
  rw [← hall, ← hlast, Nat.mul_assoc 2 n p, ← hfirst,
    show d + 2 * (n * p) + n * p = d + 3 * (n * p) by ring]
  have hindex : ∀ j, 2 * (n * p) + (n * p + mirror n p j) = 3 * (n * p) + mirror n p j := by
    intro j
    ring
  simp only [hindex]

end

end Scalable

end KleidiCV
