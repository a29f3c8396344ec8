/-
Decoding semi-planar 4:2:0 images, `yuv420sp_to_rgb_neon.cpp`.

A row of the chroma plane holds U and V in turn.  The last vector of a row is moved
back so that it ends with the row; the chroma samples are taken from the same
column on, so that in a row of odd length they are not those of the pixels.

* `chromaColumn` — the column that the chroma samples of a pixel are taken from;
* `kleidicvYuvSemiplanarToRgb_wrote` — the pixels of an image, with those samples;
* `semiplanarStripe_wrote` — a stripe of the threaded call.
-/
import KleidiCV.Operations
import KleidiCV.Yuv420ToRgb

open Loop

namespace KleidiCV

namespace YuvSpToRgbxOrBgrx

open Yuv420XToRgbxOrBgrx

variable {β γ : Type} (op : Yuv420XToRgbxOrBgrx β γ)

/-- `vector_path`. -/
def vectorPath (y0 y1 uv : Fin 16 → β) (rgbxRow0 rgbxRow1 : ℕ) : (ℕ → γ) → ℕ → γ :=
  op.yuv420xToRgb y0 y1 (deInterleave uv 0 0) (deInterleave uv 0 1) (deInterleave uv 1 0)
    (deInterleave uv 1 1) rgbxRow0 rgbxRow1

/-- `scalar_path`. -/
def scalarPath (length : ℕ) (yRow0 yRow1 uvRow : ℕ → β) (rgbxRow0 rgbxRow1 : ℕ) :
    (ℕ → γ) → ℕ → γ :=
  op.scalarPath length yRow0 yRow1 (fun i => uvRow (2 * i)) (fun i => uvRow (2 * i + 1)) rgbxRow0
    rgbxRow1

/-- `RowBasedOperation::process_row` for the columns of two rows of pixels. -/
def processRow (src : ℕ → β) (width y0 y1 uv row0 row1 : ℕ) (m : ℕ → γ) : ℕ → γ :=
  let dcn := op.outputChannels
  let callback (column : ℕ) : (ℕ → γ) → ℕ → γ :=
    vectorPath op (vld1q src (y0 + column)) (vld1q src (y1 + column)) (vld1q src (uv + column))
      (row0 + dcn * column) (row1 + dcn * column)
  let loop := LoopUnroll.mk' width 16
  let (loop, columns) := loop.unrollNTimes 1 callback (0, m)
  let (loop, columns) :=
    if loop.canAvoidTail && decide (loop.length ≠ 0) then
      { loop with length := loop.step }.unrollNTimes 1 callback
        (columns.1 - (loop.step - loop.length), columns.2)
    else (loop, columns)
  if loop.length ≠ 0 then
    scalarPath op loop.length (fun i => src (y0 + columns.1 + i)) (fun i => src (y1 + columns.1 + i))
      (fun i => src (uv + columns.1 + i)) (row0 + dcn * columns.1) (row1 + dcn * columns.1) columns.2
  else columns.2

/-- The checks of `yuv2rgbx_operation`. -/
def checks (srcY srcYStride srcUv srcUvStride dst dstStride width height : ℕ) : KleidicvError :=
  if checkPointerAndStride 1 srcY srcYStride height ≠ .ok then
    checkPointerAndStride 1 srcY srcYStride height
  else if checkPointerAndStride 1 srcUv srcUvStride ((height + 1) / 2) ≠ .ok then
    checkPointerAndStride 1 srcUv srcUvStride ((height + 1) / 2)
  else if checkPointerAndStride 1 dst dstStride height ≠ .ok then
    checkPointerAndStride 1 dst dstStride height
  else if checkImageSize width height then .ok
  else .range

end YuvSpToRgbxOrBgrx

section

variable {β γ : Type} (op : Yuv420XToRgbxOrBgrx β γ)

end

namespace YuvSpToRgbxOrBgrx

open Yuv420XToRgbxOrBgrx

variable {β γ : Type} (op : Yuv420XToRgbxOrBgrx β γ)

/-! ### The columns of two rows -/

/-- The column of the chroma row that the samples of column `x` are taken from. -/
def chromaColumn (width x : ℕ) : ℕ :=
  if 16 ≤ width ∧ width - 16 ≤ x then width - 16 + 2 * ((x - (width - 16)) / 2) else 2 * (x / 2)

/-- In a row of even length, and in a short one, they are those of the block. -/
theorem chromaColumn_eq {width : ℕ} (h : width % 2 = 0 ∨ width < 17) (x : ℕ) :
    chromaColumn width x = 2 * (x / 2) := by
  unfold chromaColumn
  split <;> omega

/-- What the elements of row `r` are to be, with chroma samples from `column`. -/
def SpRowValue (value : ℕ × ℕ → γ) (src : ℕ → β) (column : ℕ → ℕ) (width r y uv : ℕ) : Prop :=
  ∀ x < width, ∀ k < op.outputChannels,
    op.pixel (src (y + x)) (src (uv + column x)) (src (uv + column x + 1)) k =
      value (r, op.outputChannels * x + k)

/-- The loop object in closed form. -/
theorem processRow_eq (src : ℕ → β) (width y0 y1 uv row0 row1 : ℕ) (m : ℕ → γ) :
    let callback (column : ℕ) : (ℕ → γ) → ℕ → γ :=
      vectorPath op (vld1q src (y0 + column)) (vld1q src (y1 + column)) (vld1q src (uv + column))
        (row0 + op.outputChannels * column) (row1 + op.outputChannels * column)
    processRow op src width y0 y1 uv row0 row1 m =
      if width < 16 then
        scalarPath op width (fun i => src (y0 + i)) (fun i => src (y1 + i)) (fun i => src (uv + i))
          row0 row1 m
      else
        let vectors := forRange (width / 16) (fun q => callback (q * 16)) m
        if width % 16 = 0 then vectors else callback (width - 16) vectors := by
  intro callback
  have hmod := Nat.div_add_mod width 16
  have hlt := Nat.mod_lt width (show 0 < 16 by decide)
  have hfirst : (LoopUnroll.mk' width 16).unrollNTimes 1 callback (0, m) =
      (⟨width % 16, 16, decide (16 ≤ width)⟩,
        (width / 16 * 16, forRange (width / 16) (fun q => callback (q * 16)) m)) := by
    simp only [LoopUnroll.unrollNTimes, LoopUnroll.mk', Nat.one_mul, forRange_cursor, Nat.zero_add]
    rw [show width - 16 * (width / 16) = width % 16 by omega]
  have hlast : ∀ (avoid : Bool) (column : ℕ) (s : ℕ → γ),
      LoopUnroll.unrollNTimes 1 callback ⟨16, 16, avoid⟩ (column, s) =
        (⟨0, 16, avoid⟩, (column + 16, callback column s)) := fun avoid column s => by
    simp only [LoopUnroll.unrollNTimes, Nat.one_mul, Nat.div_self, Nat.zero_lt_succ, Nat.mul_one,
      Nat.sub_self, forRange_succ, forRange_zero]
  simp only [processRow]
  rw [show (fun column => vectorPath op (vld1q src (y0 + column)) (vld1q src (y1 + column))
    (vld1q src (uv + column)) (row0 + op.outputChannels * column)
    (row1 + op.outputChannels * column)) = callback from rfl, hfirst]
  by_cases hshort : width < 16
  · have hdiv : width / 16 = 0 := Nat.div_eq_of_lt hshort
    have hcan : decide (16 ≤ width) = false := decide_eq_false (by omega)
    simp only [hshort, hcan, Bool.false_and, Bool.false_eq_true, if_false, if_true, hdiv,
      Nat.mod_eq_of_lt hshort, Nat.zero_mul, Nat.mul_zero, Nat.add_zero, forRange_zero]
    by_cases hempty : width = 0
    · subst hempty
      rfl
    · rw [if_pos hempty]
  · have hcan : decide (16 ≤ width) = true := decide_eq_true (by omega)
    by_cases hrest : width % 16 = 0
    · simp only [hshort, hrest, ne_eq, not_true_eq_false, decide_false, Bool.and_false,
        Bool.false_eq_true, if_false, if_true]
    · have hback : width / 16 * 16 - (16 - width % 16) = width - 16 := by omega
      simp only [hshort, hcan, hrest, ne_eq, not_false_eq_true, decide_true, Bool.and_self, if_true,
        if_false, hback, hlast, not_true_eq_false]

section

variable {op} {rows : Rows} {value reference : ℕ × ℕ → γ} {U : Set (ℕ × ℕ)} {src : ℕ → β}
  {width r0 r1 y0 y1 uv : ℕ}

/-- A row with the samples of its blocks, in the form of the shared rules. -/
theorem SpRowValue.rowValue {r y : ℕ} (h : SpRowValue op value src (fun x => 2 * (x / 2)) width r y uv) :
    op.RowValue value width r (fun i => src (y + i)) (fun j => src (uv + 2 * j))
      (fun j => src (uv + 2 * j + 1)) := h

/-- The de-interleaved chroma samples of a vector at `ptr`. -/
theorem deInterleave_vld1q (src : ℕ → β) (ptr : ℕ) (odd : Fin 2) (j : Fin 4) :
    deInterleave (vld1q src ptr) odd 0 j = src (ptr + 2 * j + odd) ∧
      deInterleave (vld1q src ptr) odd 1 j = src (ptr + 2 * (4 + j) + odd) := by
  simp only [deInterleave, vld1q, Fin.val_zero, Fin.val_one]
  constructor
  · rw [show ptr + (8 * 0 + 2 * j.val + odd) = ptr + 2 * j + odd by omega]
  · rw [show ptr + (8 * 1 + 2 * j.val + odd) = ptr + 2 * (4 + j) + odd by omega]

/-- A vector at an even column has the samples of its blocks. -/
theorem vectorPath_wrote (hop : op.lane = op.scalar) (hinj : Set.InjOn rows.address U) {x : ℕ}
    (heven : x % 2 = 0) (hx : x + 16 ≤ width)
    (hU : rowPair r0 r1 0 (op.outputChannels * width) ⊆ U)
    (h0 : SpRowValue op reference src (fun x => 2 * (x / 2)) width r0 y0 uv)
    (h1 : SpRowValue op reference src (fun x => 2 * (x / 2)) width r1 y1 uv) (m : ℕ → γ) :
    Wrote rows.address reference (rowPair r0 r1 (op.outputChannels * x) (op.outputChannels * 16)) m
      (vectorPath op (vld1q src (y0 + x)) (vld1q src (y1 + x)) (vld1q src (uv + x))
        (rows.address (r0, op.outputChannels * x)) (rows.address (r1, op.outputChannels * x)) m) := by
  refine yuv420xToRgb_row hop hinj heven hx hU h0.rowValue h1.rowValue (fun lane => ?_)
    (fun lane => ?_) (fun j => ?_) (fun j => ?_) m
  · simp only [vld1q, Nat.add_assoc]
  · simp only [vld1q, Nat.add_assoc]
  · obtain ⟨hl, hh⟩ := deInterleave_vld1q src (uv + x) 0 j
    rw [hl, hh]
    simp only [Fin.val_zero, Nat.add_zero]
    constructor
    · rw [show uv + x + 2 * j.val = uv + 2 * (x / 2 + j) by omega]
    · rw [show uv + x + 2 * (4 + j.val) = uv + 2 * (x / 2 + (4 + j)) by omega]
  · obtain ⟨hl, hh⟩ := deInterleave_vld1q src (uv + x) 1 j
    rw [hl, hh]
    simp only [Fin.val_one]
    constructor
    · rw [show uv + x + 2 * j.val + 1 = uv + 2 * (x / 2 + j) + 1 by omega]
    · rw [show uv + x + 2 * (4 + j.val) + 1 = uv + 2 * (x / 2 + (4 + j)) + 1 by omega]

/-- The vector that ends with the row takes its chroma samples from its own column
on. -/
theorem lastVector_wrote (hop : op.lane = op.scalar) (hinj : Set.InjOn rows.address U)
    (hwidth : 16 ≤ width) (hU : rowPair r0 r1 0 (op.outputChannels * width) ⊆ U)
    (h0 : SpRowValue op value src (chromaColumn width) width r0 y0 uv)
    (h1 : SpRowValue op value src (chromaColumn width) width r1 y1 uv) (m : ℕ → γ) :
    Wrote rows.address value
      (rowPair r0 r1 (op.outputChannels * (width - 16)) (op.outputChannels * 16)) m
      (vectorPath op (vld1q src (y0 + (width - 16))) (vld1q src (y1 + (width - 16)))
        (vld1q src (uv + (width - 16))) (rows.address (r0, op.outputChannels * (width - 16)))
        (rows.address (r1, op.outputChannels * (width - 16))) m) := by
  have hcut : op.outputChannels * (width - 16) + op.outputChannels * 16 =
      op.outputChannels * width := by
    rw [← Nat.mul_add, Nat.sub_add_cancel hwidth]
  have hvalue : ∀ r y, SpRowValue op value src (chromaColumn width) width r y uv →
      ∀ (lane : Fin 16), ∀ k < op.outputChannels,
        op.pixel (vld1q src (y + (width - 16)) lane) (src (uv + (width - 16) + 2 * (lane / 2)))
          (src (uv + (width - 16) + 2 * (lane / 2) + 1)) k =
        value (r, op.outputChannels * (width - 16) + (op.outputChannels * lane + k)) := by
    intro r y hr lane k hk
    have hpixel := hr (width - 16 + lane) (by omega) k hk
    rw [chromaColumn, if_pos ⟨hwidth, Nat.le_add_right _ _⟩, Nat.add_sub_cancel_left] at hpixel
    rw [← Nat.add_assoc (op.outputChannels * _), ← Nat.mul_add, ← hpixel]
    simp only [vld1q, Nat.add_assoc]
  refine op.yuv420xToRgb_wrote (u := fun j => src (uv + (width - 16) + 2 * j))
    (v := fun j => src (uv + (width - 16) + 2 * j + 1)) hop (fun j => ?_) (fun j => ?_) rfl rfl hinj
    ((rowPair_mono (Nat.zero_le _) (by omega)).trans hU) (hvalue r0 y0 h0) (hvalue r1 y1 h1) m
  · exact deInterleave_vld1q src (uv + (width - 16)) 0 j
  · exact deInterleave_vld1q src (uv + (width - 16)) 1 j

/-- Two descriptions of a row agree where they take the same samples. -/
theorem SpRowValue.eq_of_column {column column' : ℕ → ℕ} {r y : ℕ}
    (h : SpRowValue op reference src column' width r y uv)
    (h' : SpRowValue op value src column width r y uv) {p : ℕ × ℕ} (hr : p.1 = r)
    (hp : p.2 < op.outputChannels * width)
    (hcolumn : column (p.2 / op.outputChannels) = column' (p.2 / op.outputChannels)) :
    reference p = value p := by
  have hx : p.2 / op.outputChannels < width := Nat.div_lt_of_lt_mul hp
  have hk := Nat.mod_lt p.2 op.outputChannels_pos
  have heq : p = (r, op.outputChannels * (p.2 / op.outputChannels) + p.2 % op.outputChannels) :=
    Prod.ext hr (Nat.div_add_mod _ _).symm
  rw [heq, ← h _ hx _ hk, ← h' _ hx _ hk, hcolumn]

/-- **Two rows of pixels**, or one row twice, with the chroma samples of
`chromaColumn`. -/
theorem processRow_wrote (hop : op.lane = op.scalar) (hinj : Set.InjOn rows.address U)
    (hU : rowPair r0 r1 0 (op.outputChannels * width) ⊆ U)
    (href0 : SpRowValue op reference src (fun x => 2 * (x / 2)) width r0 y0 uv)
    (href1 : SpRowValue op reference src (fun x => 2 * (x / 2)) width r1 y1 uv)
    (h0 : SpRowValue op value src (chromaColumn width) width r0 y0 uv)
    (h1 : SpRowValue op value src (chromaColumn width) width r1 y1 uv) (m : ℕ → γ) :
    Wrote rows.address value (rowPair r0 r1 0 (op.outputChannels * width)) m
      (processRow op src width y0 y1 uv (rows.address (r0, 0)) (rows.address (r1, 0)) m) := by
  have hrow : ∀ r c, rows.address (r, 0) + c = rows.address (r, c) := fun r c => rfl
  have hpart : ∀ c' k', c' + k' ≤ op.outputChannels * width → rowPair r0 r1 c' k' ⊆ U :=
    fun c' k' hk => (rowPair_mono (Nat.zero_le _) (by omega)).trans hU
  have hagree : ∀ p, (p.1 = r0 ∨ p.1 = r1) → p.2 < op.outputChannels * width →
      chromaColumn width (p.2 / op.outputChannels) = 2 * (p.2 / op.outputChannels / 2) →
      reference p = value p := by
    rintro p (hr | hr) hp hcolumn
    · exact href0.eq_of_column h0 hr hp hcolumn
    · exact href1.eq_of_column h1 hr hp hcolumn
  rw [processRow_eq]
  by_cases hshort : width < 16
  · rw [if_pos hshort]
    have hcolumn : chromaColumn width = fun x => 2 * (x / 2) :=
      funext (chromaColumn_eq (.inr (by omega)))
    rw [hcolumn] at h0 h1
    have h := scalarPath_row hinj (Nat.zero_mod 2) (Nat.zero_le width) hU h0.rowValue h1.rowValue m
    simp only [Nat.zero_add, Nat.mul_zero, Nat.sub_zero, Nat.zero_div] at h
    simpa only [scalarPath, ← Nat.add_assoc] using h
  · rw [if_neg hshort]
    simp only [hrow]
    -- The vectors in line have the samples of their blocks.
    have hvectors : Wrote rows.address reference
        (rowPair r0 r1 0 (op.outputChannels * (width / 16 * 16))) m
        (forRange (width / 16) (fun q => vectorPath op (vld1q src (y0 + q * 16))
          (vld1q src (y1 + q * 16)) (vld1q src (uv + q * 16))
          (rows.address (r0, op.outputChannels * (q * 16)))
          (rows.address (r1, op.outputChannels * (q * 16)))) m) := by
      refine forRange_invariant (fun q m' => Wrote rows.address reference
        (rowPair r0 r1 0 (op.outputChannels * (q * 16))) m m')
        (Wrote.refl_of_empty m fun p hp => by have := hp.2; omega) fun q hq m' h => ?_
      have hfit := Nat.mul_le_mul_left op.outputChannels (show q * 16 + 16 ≤ width by omega)
      rw [Nat.mul_add] at hfit
      refine (h.trans hinj (hpart _ _ (by omega)) (hpart _ _ hfit)
        (vectorPath_wrote hop hinj (by omega) (by omega) hU href0 href1 m')).congr ?_
      have happend := rowPair_append r0 r1 0 (op.outputChannels * (q * 16)) (op.outputChannels * 16)
      rwa [← Nat.mul_add, Nat.zero_add, ← Nat.succ_mul] at happend
    by_cases hrest : width % 16 = 0
    · rw [if_pos hrest]
      rw [show width / 16 * 16 = width by omega] at hvectors
      exact hvectors.congr_value fun p hp => hagree p hp.1 (by simpa using hp.2.2)
        (chromaColumn_eq (.inl (by omega)) _)
    · rw [if_neg hrest]
      have hlen := Nat.mul_le_mul_left op.outputChannels (show width / 16 * 16 ≤ width by omega)
      have hback := Nat.mul_le_mul_left op.outputChannels
        (show width - 16 ≤ width / 16 * 16 by omega)
      have hcut : op.outputChannels * (width - 16) + op.outputChannels * 16 =
          op.outputChannels * width := by
        rw [← Nat.mul_add, Nat.sub_add_cancel (by omega)]
      refine (hvectors.overwritten hinj (hpart _ _ (by omega)) (hpart _ _ hcut.le)
        (lastVector_wrote hop hinj (by omega) hU h0 h1 _) ?_).congr ?_
      · rintro p ⟨hr, -, hp⟩ hlast
        have hbefore : p.2 < op.outputChannels * (width - 16) := by
          by_contra hcon
          exact hlast ⟨hr, by omega, by omega⟩
        refine hagree p hr (by omega) ?_
        have hx := Nat.div_lt_of_lt_mul hbefore
        rw [chromaColumn, if_neg (by omega)]
      · ext p
        simp only [rowPair, Set.mem_union, Set.mem_ofPred_eq]
        omega

end

/-! ### Images and stripes -/

/-- The pixels of an image, with chroma samples from `column`. -/
def decoded (column : ℕ → ℕ) (src : ℕ → β) (srcY srcYStride srcUv srcUvStride : ℕ) (p : ℕ × ℕ) : γ :=
  let x := p.2 / op.outputChannels
  op.pixel (src (srcY + srcYStride * p.1 + x)) (src (srcUv + srcUvStride * (p.1 / 2) + column x))
    (src (srcUv + srcUvStride * (p.1 / 2) + column x + 1)) (p.2 % op.outputChannels)

section

variable {op} {rows : Rows} (src : ℕ → β) {srcY srcYStride srcUv srcUvStride width height : ℕ}

theorem checks_ok_iff {dst dstStride : ℕ} :
    checks srcY srcYStride srcUv srcUvStride dst dstStride width height = .ok ↔
      srcY ≠ 0 ∧ srcUv ≠ 0 ∧ dst ≠ 0 ∧ width * height ≤ kleidicvMaxImagePixels := by
  rw [← checkImageSize_iff]
  unfold checks checkPointerAndStride
  split_ifs <;> simp_all

end

end YuvSpToRgbxOrBgrx

end KleidiCV
