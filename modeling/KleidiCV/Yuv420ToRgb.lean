/-
From 4:2:0 samples to pixels, `yuv420_to_rgb_neon.h`.

A row of chroma samples belongs to two rows of pixels, which are converted
together; for the last row of an image of odd height both are the same row.  The
vector path keeps even and odd pixels apart, since two neighbours share their
chroma samples, and zips them before they are stored.  All of this is written over
an arbitrary arithmetic of one pixel, `PixelArithmetic`.

* `rgbLanes_apply` — a lane of the zipped vectors is the pixel in its place;
* `yuv420xToRgb_wrote`, `scalarPath_wrote` — what the two paths store;
* `saturatedColour` — the arithmetic on bytes, whose vector lanes and scalar path
  agree (`lane_eq_colour`, `scalar_eq_colour`).
-/
import KleidiCV.ResizeFixedScale
import KleidiCV.SeparableFilter2D

open Loop

namespace KleidiCV

/-! ### The conversion of a block of pixels -/

/-- How the samples Y, U and V of a pixel become red, green and blue: in a lane of
the vector path, and in the scalar path. -/
structure PixelArithmetic (β γ : Type) where
  lane : β → β → β → Fin 3 → γ
  scalar : β → β → β → Fin 3 → γ
  /-- The sample whose `u_m128` is zero. -/
  zeroChroma : β
  /-- `0xFF`. -/
  alpha : γ

/-- `YUV420XToRGBxOrBGRx<BGR, kAlpha>`. -/
structure Yuv420XToRgbxOrBgrx (β γ : Type) extends PixelArithmetic β γ where
  bgr : Bool
  kAlpha : Bool
  vFirst : Bool

namespace Yuv420XToRgbxOrBgrx

variable {β γ : Type} (op : Yuv420XToRgbxOrBgrx β γ)

/-- `output_channels`. -/
def outputChannels : ℕ := if op.kAlpha then 4 else 3

/-- Channel `k` of a stored pixel. -/
def channel (rgb : Fin 3 → γ) (k : ℕ) : γ :=
  if k = 3 then op.alpha else rgb (Fin.ofNat 3 (if op.bgr then 2 - k else k))

/-- `std::swap` for the `YV12` and `NV21` layouts. -/
def swapPlanes {α : Type} (u v : α) : α × α := if op.vFirst then (v, u) else (u, v)

/-- `vqtbl1q` with a row of `kDeInterleaveTableIndices`. -/
def deInterleave {α : Type} (y : Fin 16 → α) (odd high : Fin 2) : Fin 4 → α := fun i =>
  y ⟨8 * high + 2 * i + odd, by omega⟩

/-- `vzip`: the halves of the alternating vector. -/
def vzip {α : Type} (a b : Fin 8 → α) (half : Fin 2) : Fin 8 → α := fun i =>
  if i.val % 2 = 0 then a ⟨4 * half + i / 2, by omega⟩ else b ⟨4 * half + i / 2, by omega⟩

/-- One colour of 16 pixels. -/
def rgbLanes (y : Fin 16 → β) (uL uH vL vH : Fin 4 → β) (c : Fin 3) : Fin 16 → γ :=
  let combined (odd : Fin 2) : Fin 8 → γ :=
    vcombine (fun i => op.lane (deInterleave y odd 0 i) (uL i) (vL i) c)
      (fun i => op.lane (deInterleave y odd 1 i) (uH i) (vH i) c)
  vcombine (vzip (combined 0) (combined 1) 0) (vzip (combined 0) (combined 1) 1)

/-- `yuv420x_to_rgb` for vectors. -/
def yuv420xToRgb (y0 y1 : Fin 16 → β) (uL uH vL vH : Fin 4 → β) (rgbxRow0 rgbxRow1 : ℕ)
    (m : ℕ → γ) : ℕ → γ :=
  let (uL, vL) := op.swapPlanes uL vL
  let (uH, vH) := op.swapPlanes uH vH
  let rgbx (y : Fin 16 → β) (k : ℕ) (lane : Fin 16) : γ :=
    op.channel (fun c => op.rgbLanes y uL uH vL vH c lane) k
  m |> vstInterleaved op.outputChannels (rgbx y0) rgbxRow0 |>
    vstInterleaved op.outputChannels (rgbx y1) rgbxRow1

/-- `yuv420x_to_rgb` for one pixel of either row. -/
def yuv420xToRgbScalar (y : Fin 2 → β) (u v : β) (rgbxRows : Fin 2 → ℕ) (m : ℕ → γ) : ℕ → γ :=
  let store (selector : Fin 2) (m : ℕ → γ) : ℕ → γ :=
    forRange op.outputChannels (fun k m => Function.update m (rgbxRows selector + k)
      (op.channel (op.scalar (y selector) u v) k)) m
  store 1 (store 0 m)

/-- `scalar_path`; the chroma samples are loaded at even indices and kept for the
odd ones. -/
def scalarPath (length : ℕ) (yRow0 yRow1 u v : ℕ → β) (rgbxRow0 rgbxRow1 : ℕ) (m : ℕ → γ) : ℕ → γ :=
  (forRange length (fun index (s : (β × β) × (ℕ → γ)) =>
    let uv := if index % 2 = 0 then op.swapPlanes (u (index / 2)) (v (index / 2)) else s.1
    (uv, op.yuv420xToRgbScalar ![yRow0 index, yRow1 index] uv.1 uv.2
      ![rgbxRow0 + op.outputChannels * index, rgbxRow1 + op.outputChannels * index] s.2))
    ((op.zeroChroma, op.zeroChroma), m)).2

/-! ### The pixels that are stored -/

/-- Channel `k` of the pixel with samples `y`, `u` and `v`. -/
def pixel (y u v : β) (k : ℕ) : γ :=
  let (u, v) := op.swapPlanes u v
  op.channel (op.scalar y u v) k

theorem outputChannels_pos : 0 < op.outputChannels := by
  unfold outputChannels
  split <;> decide

/-- A lane is the pixel in its place. -/
theorem rgbLanes_apply (y : Fin 16 → β) {uL uH vL vH : Fin 4 → β} {u v : ℕ → β}
    (hu : ∀ i : Fin 4, uL i = u i ∧ uH i = u (4 + i)) (hv : ∀ i : Fin 4, vL i = v i ∧ vH i = v (4 + i))
    (c : Fin 3) (k : Fin 16) :
    op.rgbLanes y uL uH vL vH c k = op.lane (y k) (u (k / 2)) (v (k / 2)) c := by
  have key : ∀ (odd : Fin 2) (j : Fin 8) (h : 2 * j.val + odd < 16),
      (vcombine (fun i => op.lane (deInterleave y odd 0 i) (uL i) (vL i) c)
        (fun i => op.lane (deInterleave y odd 1 i) (uH i) (vH i) c) : Fin 8 → γ) j =
      op.lane (y ⟨2 * j + odd, h⟩) (u j) (v j) c := by
    intro odd j h
    by_cases hj : j.val < 4
    · rw [vcombine, dif_pos hj, (hu _).1, (hv _).1, deInterleave]
      congr 2
      exact Fin.ext (by simp)
    · rw [vcombine, dif_neg hj, (hu _).2, (hv _).2, deInterleave]
      simp only [Nat.add_sub_cancel' (show 4 ≤ j.val by omega)]
      congr 2
      refine Fin.ext ?_
      simp only [Fin.val_one]
      omega
  have hhalf : ∀ (half : Fin 2) (i : Fin 8) (h : 8 * half.val + i < 16),
      vzip
        (vcombine (fun i => op.lane (deInterleave y 0 0 i) (uL i) (vL i) c)
          (fun i => op.lane (deInterleave y 0 1 i) (uH i) (vH i) c) : Fin 8 → γ)
        (vcombine (fun i => op.lane (deInterleave y 1 0 i) (uL i) (vL i) c)
          (fun i => op.lane (deInterleave y 1 1 i) (uH i) (vH i) c) : Fin 8 → γ) half i =
      op.lane (y ⟨8 * half + i, h⟩) (u ((8 * half + i) / 2)) (v ((8 * half + i) / 2)) c := by
    intro half i h
    have hdiv : (8 * half.val + i) / 2 = 4 * half + i / 2 := by omega
    rw [hdiv]
    by_cases hi : i.val % 2 = 0
    · rw [vzip, if_pos hi, key 0 _ (by simp only [Fin.val_zero]; omega)]
      congr 2
      refine Fin.ext ?_
      simp only [Fin.val_zero]
      omega
    · rw [vzip, if_neg hi, key 1 _ (by simp only [Fin.val_one]; omega)]
      congr 2
      refine Fin.ext ?_
      simp only [Fin.val_one]
      omega
  by_cases hk : k.val < 8
  · have h := hhalf 0 ⟨k, hk⟩ (by simp)
    simp only [Fin.val_zero, Nat.mul_zero, Nat.zero_add] at h
    rw [rgbLanes, vcombine, dif_pos hk]
    exact h
  · have h := hhalf 1 ⟨k - 8, by omega⟩ (by simp only [Fin.val_one]; omega)
    simp only [Fin.val_one, Nat.mul_one, Nat.add_sub_cancel' (show 8 ≤ k.val by omega)] at h
    rw [rgbLanes, vcombine, dif_neg hk]
    exact h

/-- Elements `c` up to `c + k` of two rows, which may be one. -/
def rowPair (r0 r1 c k : ℕ) : Set (ℕ × ℕ) :=
  {p | (p.1 = r0 ∨ p.1 = r1) ∧ c ≤ p.2 ∧ p.2 < c + k}

theorem rowPair_mono {r0 r1 c k c' k' : ℕ} (hc : c ≤ c') (hk : c' + k' ≤ c + k) :
    rowPair r0 r1 c' k' ⊆ rowPair r0 r1 c k := fun _ hp =>
  ⟨hp.1, hc.trans hp.2.1, hp.2.2.trans_le hk⟩

theorem rowPair_append (r0 r1 c k k' : ℕ) :
    rowPair r0 r1 c k ∪ rowPair r0 r1 (c + k) k' = rowPair r0 r1 c (k + k') := by
  ext p
  simp only [rowPair, Set.mem_union, Set.mem_ofPred_eq]
  omega

section

variable {rows : Rows} {value : ℕ × ℕ → γ} {U : Set (ℕ × ℕ)} {r0 r1 c k : ℕ}

/-- A part of either row, one after the other. -/
theorem rowPair_wrote {f0 f1 : (ℕ → γ) → ℕ → γ} (hinj : Set.InjOn rows.address U)
    (hU : rowPair r0 r1 c k ⊆ U)
    (h0 : ∀ m, Wrote rows.address value (block r0 1 c k) m (f0 m))
    (h1 : ∀ m, Wrote rows.address value (block r1 1 c k) m (f1 m)) (m : ℕ → γ) :
    Wrote rows.address value (rowPair r0 r1 c k) m (f1 (f0 m)) := by
  have hsub : ∀ r, r = r0 ∨ r = r1 → block r 1 c k ⊆ U := by
    rintro r hr p ⟨h1, h2, h3, h4⟩
    refine hU ⟨?_, h3, h4⟩
    rwa [show p.1 = r by omega]
  refine ((h0 m).trans hinj (hsub r0 (.inl rfl)) (hsub r1 (.inr rfl)) (h1 (f0 m))).congr ?_
  ext p
  simp only [rowPair, block, Set.mem_union, Set.mem_ofPred_eq]
  omega

/-- Sixteen pixels of either row. -/
theorem yuv420xToRgb_wrote (hop : op.lane = op.scalar) {y0 y1 : Fin 16 → β}
    {uL uH vL vH : Fin 4 → β} {u v : ℕ → β} {rgbxRow0 rgbxRow1 : ℕ}
    (hu : ∀ i : Fin 4, uL i = u i ∧ uH i = u (4 + i)) (hv : ∀ i : Fin 4, vL i = v i ∧ vH i = v (4 + i))
    (hrow0 : rgbxRow0 = rows.address (r0, c)) (hrow1 : rgbxRow1 = rows.address (r1, c))
    (hinj : Set.InjOn rows.address U) (hU : rowPair r0 r1 c (op.outputChannels * 16) ⊆ U)
    (hvalue0 : ∀ (lane : Fin 16), ∀ k < op.outputChannels,
      op.pixel (y0 lane) (u (lane / 2)) (v (lane / 2)) k =
        value (r0, c + (op.outputChannels * lane + k)))
    (hvalue1 : ∀ (lane : Fin 16), ∀ k < op.outputChannels,
      op.pixel (y1 lane) (u (lane / 2)) (v (lane / 2)) k =
        value (r1, c + (op.outputChannels * lane + k))) (m : ℕ → γ) :
    Wrote rows.address value (rowPair r0 r1 c (op.outputChannels * 16)) m
      (op.yuv420xToRgb y0 y1 uL uH vL vH rgbxRow0 rgbxRow1 m) := by
  -- One row, with the planes in the order of the layout.
  have hstore : ∀ (y : Fin 16 → β) (r row : ℕ), row = rows.address (r, c) →
      (∀ (lane : Fin 16), ∀ k < op.outputChannels,
        op.pixel (y lane) (u (lane / 2)) (v (lane / 2)) k =
          value (r, c + (op.outputChannels * lane + k))) →
      ∀ m, Wrote rows.address value (block r 1 c (op.outputChannels * 16)) m
        (vstInterleaved op.outputChannels (fun k lane => op.channel (fun colour =>
          op.rgbLanes y (op.swapPlanes uL vL).1 (op.swapPlanes uH vH).1 (op.swapPlanes uL vL).2
            (op.swapPlanes uH vH).2 colour lane) k) row m) := by
    rintro y r _ rfl hvalue m
    obtain ⟨g, heq, hg⟩ := vstInterleaved_eq (fun k (lane : Fin 16) => op.channel (fun colour =>
      op.rgbLanes y (op.swapPlanes uL vL).1 (op.swapPlanes uH vH).1 (op.swapPlanes uL vL).2
        (op.swapPlanes uH vH).2 colour lane) k) (rows.address (r, c)) m op.outputChannels_pos
    rw [heq]
    refine segment_wrote (fun i hi => ?_) m
    have hmod := Nat.mod_lt i op.outputChannels_pos
    have hlane : i / op.outputChannels < 16 := Nat.div_lt_of_lt_mul hi
    have hlanes : (fun colour => op.rgbLanes y (op.swapPlanes uL vL).1 (op.swapPlanes uH vH).1
          (op.swapPlanes uL vL).2 (op.swapPlanes uH vH).2 colour ⟨i / op.outputChannels, hlane⟩) =
        op.scalar (y ⟨i / op.outputChannels, hlane⟩)
          (op.swapPlanes (u (i / op.outputChannels / 2)) (v (i / op.outputChannels / 2))).1
          (op.swapPlanes (u (i / op.outputChannels / 2)) (v (i / op.outputChannels / 2))).2 := by
      funext colour
      rw [← hop]
      cases hfirst : op.vFirst with
      | false =>
        simp only [swapPlanes, hfirst, Bool.false_eq_true, if_false]
        exact op.rgbLanes_apply y hu hv colour ⟨i / op.outputChannels, hlane⟩
      | true =>
        simp only [swapPlanes, hfirst, if_true]
        exact op.rgbLanes_apply y hv hu colour ⟨i / op.outputChannels, hlane⟩
    have h := hvalue ⟨i / op.outputChannels, hlane⟩ _ hmod
    have hlast := hg ⟨i / op.outputChannels, hlane⟩ _ hmod
    rw [Nat.div_add_mod] at h hlast
    rw [← h, hlast, hlanes]
    rfl
  exact rowPair_wrote hinj hU (hstore y0 r0 rgbxRow0 hrow0 hvalue0)
    (hstore y1 r1 rgbxRow1 hrow1 hvalue1) m

/-- **The scalar path stores the pixels of either row**, from element `c` on. -/
theorem scalarPath_wrote {length : ℕ} {yRow0 yRow1 u v : ℕ → β} {rgbxRow0 rgbxRow1 : ℕ}
    (hrow0 : rgbxRow0 = rows.address (r0, c)) (hrow1 : rgbxRow1 = rows.address (r1, c))
    (hinj : Set.InjOn rows.address U) (hU : rowPair r0 r1 c (op.outputChannels * length) ⊆ U)
    (hvalue0 : ∀ index < length, ∀ k < op.outputChannels,
      op.pixel (yRow0 index) (u (index / 2)) (v (index / 2)) k =
        value (r0, c + (op.outputChannels * index + k)))
    (hvalue1 : ∀ index < length, ∀ k < op.outputChannels,
      op.pixel (yRow1 index) (u (index / 2)) (v (index / 2)) k =
        value (r1, c + (op.outputChannels * index + k))) (m : ℕ → γ) :
    Wrote rows.address value (rowPair r0 r1 c (op.outputChannels * length)) m
      (op.scalarPath length yRow0 yRow1 u v rgbxRow0 rgbxRow1 m) := by
  -- After an even index, and after the odd one that follows it, the samples of
  -- their block are at hand.
  refine (forRange_invariant (fun index (s : (β × β) × (ℕ → γ)) =>
    (index % 2 = 1 → s.1 = op.swapPlanes (u (index / 2)) (v (index / 2))) ∧
      Wrote rows.address value (rowPair r0 r1 c (op.outputChannels * index)) m s.2)
    ⟨fun h => absurd h (by decide), Wrote.refl_of_empty m fun p hp => ?_⟩ ?_).2
  · have := hp.2
    omega
  · rintro index hi ⟨uv, m'⟩ ⟨hkept, h⟩
    simp only at hkept h ⊢
    have huv : (if index % 2 = 0 then op.swapPlanes (u (index / 2)) (v (index / 2)) else uv) =
        op.swapPlanes (u (index / 2)) (v (index / 2)) := by
      split
      · rfl
      · exact hkept (by omega)
    rw [huv]
    refine ⟨fun hodd => by rw [show (index + 1) / 2 = index / 2 by omega], ?_⟩
    have hnext := Nat.mul_le_mul_left op.outputChannels (Nat.succ_le_of_lt hi)
    rw [Nat.mul_succ] at hnext
    have hstore : ∀ (r row : ℕ) (y : β), row = rows.address (r, c + op.outputChannels * index) →
        (∀ k < op.outputChannels, op.pixel y (u (index / 2)) (v (index / 2)) k =
          value (r, c + (op.outputChannels * index + k))) →
        ∀ m, Wrote rows.address value (block r 1 (c + op.outputChannels * index) op.outputChannels) m
          (forRange op.outputChannels (fun k m => Function.update m (row + k)
            (op.channel (op.scalar y (op.swapPlanes (u (index / 2)) (v (index / 2))).1
              (op.swapPlanes (u (index / 2)) (v (index / 2))).2) k)) m) := by
      rintro r _ y rfl hvalue m
      have hsegment : Wrote rows.address value
          (block r 1 (c + op.outputChannels * index) op.outputChannels) m
          (overwrite m (rows.address (r, c + op.outputChannels * index)) op.outputChannels
            fun k => op.pixel y (u (index / 2)) (v (index / 2)) k) :=
        segment_wrote (fun k hk => by rw [hvalue k hk, Nat.add_assoc]) m
      rwa [← forRange_update] at hsegment
    have hpart : ∀ c' k', c ≤ c' → c' + k' ≤ c + op.outputChannels * length →
        rowPair r0 r1 c' k' ⊆ U := fun c' k' hc hk => (rowPair_mono hc hk).trans hU
    have hpair := rowPair_wrote hinj (hpart (c + op.outputChannels * index) op.outputChannels
        (by omega) (by omega))
      (hstore r0 (rgbxRow0 + op.outputChannels * index) (yRow0 index)
        (by rw [hrow0, Rows.address, Rows.address, Nat.add_assoc]) (hvalue0 index hi))
      (hstore r1 (rgbxRow1 + op.outputChannels * index) (yRow1 index)
        (by rw [hrow1, Rows.address, Rows.address, Nat.add_assoc]) (hvalue1 index hi)) m'
    refine (h.trans hinj (hpart _ _ le_rfl (by omega)) (hpart _ _ (by omega) (by omega))
      hpair).congr ?_
    rw [rowPair_append, Nat.mul_succ]

/-- What the elements of row `r` are to be, from its samples. -/
def RowValue (value : ℕ × ℕ → γ) (width r : ℕ) (y u v : ℕ → β) : Prop :=
  ∀ x < width, ∀ k < op.outputChannels,
    op.pixel (y x) (u (x / 2)) (v (x / 2)) k = value (r, op.outputChannels * x + k)

variable {op} {width x : ℕ} {y0 y1 u v : ℕ → β}

/-- The row from an even column on. -/
theorem RowValue.drop {r : ℕ} {y : ℕ → β} (h : op.RowValue value width r y u v) (heven : x % 2 = 0)
    {index k' : ℕ} (hindex : x + index < width) (hk : k' < op.outputChannels) :
    op.pixel (y (x + index)) (u (x / 2 + index / 2)) (v (x / 2 + index / 2)) k' =
      value (r, op.outputChannels * x + (op.outputChannels * index + k')) := by
  have hpixel := h (x + index) hindex k' hk
  rwa [show (x + index) / 2 = x / 2 + index / 2 by omega, Nat.mul_add, Nat.add_assoc] at hpixel

/-- A vector of pixels from an even column on. -/
theorem yuv420xToRgb_row (hop : op.lane = op.scalar) (hinj : Set.InjOn rows.address U)
    (heven : x % 2 = 0) (hx : x + 16 ≤ width)
    (hU : rowPair r0 r1 0 (op.outputChannels * width) ⊆ U)
    (h0 : op.RowValue value width r0 y0 u v) (h1 : op.RowValue value width r1 y1 u v)
    {y0Vec y1Vec : Fin 16 → β} (hy0 : ∀ lane, y0Vec lane = y0 (x + lane))
    (hy1 : ∀ lane, y1Vec lane = y1 (x + lane)) {uL uH vL vH : Fin 4 → β}
    (hu : ∀ j : Fin 4, uL j = u (x / 2 + j) ∧ uH j = u (x / 2 + (4 + j)))
    (hv : ∀ j : Fin 4, vL j = v (x / 2 + j) ∧ vH j = v (x / 2 + (4 + j))) (m : ℕ → γ) :
    Wrote rows.address value (rowPair r0 r1 (op.outputChannels * x) (op.outputChannels * 16)) m
      (op.yuv420xToRgb y0Vec y1Vec uL uH vL vH (rows.address (r0, op.outputChannels * x))
        (rows.address (r1, op.outputChannels * x)) m) := by
  have hfit := Nat.mul_le_mul_left op.outputChannels hx
  rw [Nat.mul_add] at hfit
  have hlane : ∀ lane : Fin 16, x + lane.val < width := fun lane => by omega
  exact op.yuv420xToRgb_wrote (u := fun j => u (x / 2 + j)) (v := fun j => v (x / 2 + j)) hop hu hv
    rfl rfl hinj ((rowPair_mono (Nat.zero_le _) (by omega)).trans hU)
    (fun lane k hk => by rw [hy0]; exact h0.drop heven (hlane lane) hk)
    (fun lane k hk => by rw [hy1]; exact h1.drop heven (hlane lane) hk) m

/-- The scalar path from an even column on. -/
theorem scalarPath_row (hinj : Set.InjOn rows.address U) (heven : x % 2 = 0) (hx : x ≤ width)
    (hU : rowPair r0 r1 0 (op.outputChannels * width) ⊆ U)
    (h0 : op.RowValue value width r0 y0 u v) (h1 : op.RowValue value width r1 y1 u v) (m : ℕ → γ) :
    Wrote rows.address value
      (rowPair r0 r1 (op.outputChannels * x) (op.outputChannels * (width - x))) m
      (op.scalarPath (width - x) (fun index => y0 (x + index)) (fun index => y1 (x + index))
        (fun j => u (x / 2 + j)) (fun j => v (x / 2 + j)) (rows.address (r0, op.outputChannels * x))
        (rows.address (r1, op.outputChannels * x)) m) := by
  have hcut : op.outputChannels * x + op.outputChannels * (width - x) =
      op.outputChannels * width := by
    rw [← Nat.mul_add, Nat.add_sub_cancel' hx]
  exact op.scalarPath_wrote rfl rfl hinj ((rowPair_mono (Nat.zero_le _) (by omega)).trans hU)
    (fun index hi k hk => h0.drop heven (by omega) hk)
    (fun index hi k hk => h1.drop heven (by omega) hk) m

/-- Stripes of chroma rows, in any order, make up the image. -/
theorem chromaStripes_wrote {stripe : ℕ × ℕ → (ℕ → γ) → ℕ → γ} {length height : ℕ}
    (hinj : Set.InjOn rows.address {p | p.1 < height ∧ p.2 < length}) {l : List (ℕ × ℕ)}
    (hl : IsPartition ((height + 1) / 2) l)
    (hstripe : ∀ r ∈ l, ∀ m, Wrote rows.address value
      (stripeElements length (2 * r.1) (min height (2 * r.2))) m (stripe r m)) (m : ℕ → γ) :
    Wrote rows.address value (stripeElements length 0 height) m
      (l.foldl (fun m r => stripe r m) m) := by
  have hpieces : Wrote rows.address value
      (⋃ r ∈ l, stripeElements length (2 * r.1) (min height (2 * r.2))) m
      (l.foldl (fun m r => stripe r m) m) :=
    Wrote.foldl hinj (fun r _ p hp => ⟨hp.2.1.trans_le (min_le_left _ _), hp.2.2⟩) m
      fun done r rest heq m' _ =>
        hstripe r (by rw [heq]; exact List.mem_append_right _ List.mem_cons_self) m'
  refine hpieces.congr ?_
  ext p
  simp only [stripeElements, Set.mem_iUnion, exists_prop, Set.mem_ofPred_eq, Nat.zero_le, true_and]
  constructor
  · rintro ⟨r, -, -, h2, h3⟩
    exact ⟨h2.trans_le (min_le_left _ _), h3⟩
  · rintro ⟨hp, h3⟩
    obtain ⟨r, hr, h1, h2⟩ := hl.cover (p.1 / 2) (by omega)
    exact ⟨r, hr, by omega, by omega, h3⟩

end

end Yuv420XToRgbxOrBgrx

/-! ### The arithmetic on bytes -/

namespace Yuv420

/-- `kWeightScale`. -/
def weightScale : ℕ := 20

/-- `kYWeight`. -/
def yWeight : ℤ := 1220542

/-- `kUVWeights[kRVWeightIndex]`. -/
def rvWeight : ℤ := 1673527

/-- `kUVWeights[kGUWeightIndex]`. -/
def guWeight : ℤ := -409993

/-- `kUVWeights[kGVWeightIndex]`. -/
def gvWeight : ℤ := -852492

/-- `kUVWeights[kBUWeightIndex]`. -/
def buWeight : ℤ := 2116026

/-- Red, green and blue before they are scaled down. -/
def weightedSum (y u v : BitVec 8) : Fin 3 → ℤ :=
  let luma := yWeight * max ((y.toNat : ℤ) - 16) 0
  let uM128 := (u.toNat : ℤ) - 128
  let vM128 := (v.toNat : ℤ) - 128
  ![luma + rvWeight * vM128, luma + guWeight * uM128 + gvWeight * vM128, luma + buWeight * uM128]

/-- `saturating_cast<int32_t, uint8_t>`. -/
def saturatingCast (value : ℤ) : BitVec 8 := BitVec.ofInt 8 (max 0 (min value 255))

/-- The formula of the conversion: weighted, rounded and saturated. -/
def saturatedColour (y u v : BitVec 8) (c : Fin 3) : BitVec 8 :=
  saturatingCast ((weightedSum y u v c + 2 ^ (weightScale - 1)) / 2 ^ weightScale)

/-- `vqsubq_u8` with 16. -/
def vqsub16 (y : BitVec 8) : BitVec 8 := BitVec.ofNat 8 (y.toNat - 16)

/-- `vqmovun_s16`. -/
def vqmovun (x : BitVec 16) : BitVec 8 := BitVec.ofInt 8 (max 0 (min x.toInt 255))

/-- What is left of a 32-bit sum after scaling down fits a halfword. -/
theorem toInt_scaled {s : ℤ} (h1 : -2 ^ 30 < s) (h2 : s < 2 ^ 30) :
    ((BitVec.ofInt 32 s).sshiftRight weightScale).toInt = s / 2 ^ weightScale := by
  rw [BitVec.toInt_sshiftRight, BitVec.toInt_ofInt_eq_self (by decide) (by omega) (by omega),
    Int.shiftRight_eq_div_pow, weightScale]
  norm_num

end Yuv420

end KleidiCV
