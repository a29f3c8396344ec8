/-
Decoding planar 4:2:0 images, `yuv420p_to_rgb_neon.cpp`.

The chroma planes follow the luma plane; two rows of a chroma plane share one
stride, so that the pointers to them advance by half a row and by the rest of the
stride in turn.  A stripe finds its first chroma row from its number.

* `chromaRow` — where the rows of a chroma plane are, in closed form;
* `processRows_wrote` — two rows of pixels;
* `yuv420pToRgbStripe_wrote` — the pixels of a stripe.
-/
import KleidiCV.LoopUnroll2
import KleidiCV.Yuv420ToRgb

open Loop

namespace KleidiCV

/-- `vld1q`, from memory whose addresses may be computed with negative offsets. -/
def vld1qAt {β : Type} (src : ℤ → β) (ptr : ℤ) : Fin 16 → β := fun lane => src (ptr + lane)

namespace YuvpToRgbxOrBgrx

open Yuv420XToRgbxOrBgrx

variable {β γ : Type} (op : Yuv420XToRgbxOrBgrx β γ)

/-- `vqtbl1q_u8` with `index_lo_lo`, ..., `index_hi_hi`. -/
def quarter (x : Fin 16 → β) (q : Fin 4) : Fin 4 → β := fun i => x ⟨4 * q + i, by omega⟩

/-- `vector_path`. -/
def vectorPath (y0 y1 y2 y3 u v : Fin 16 → β) (rgbxRow0 rgbxRow1 : ℕ) (m : ℕ → γ) : ℕ → γ :=
  let step := op.outputChannels * 16
  m |> op.yuv420xToRgb y0 y1 (quarter u 0) (quarter u 1) (quarter v 0) (quarter v 1) rgbxRow0
      rgbxRow1 |>
    op.yuv420xToRgb y2 y3 (quarter u 2) (quarter u 3) (quarter v 2) (quarter v 3) (rgbxRow0 + step)
      (rgbxRow1 + step)

/-- The columns of two rows of pixels. -/
def processRows (src : ℤ → β) (width : ℕ) (y0 y1 u v : ℤ) (row0 row1 : ℕ) (m : ℕ → γ) : ℕ → γ :=
  let dcn := op.outputChannels
  ((LoopUnroll2.start width 16, m) |>
    LoopUnroll2.unrollTwice (fun index =>
      let uVec := vld1qAt src (u + (index / 2 : ℕ))
      let vVec := vld1qAt src (v + (index / 2 : ℕ))
      let y0Vec := vld1qAt src (y0 + index)
      let y1Vec := vld1qAt src (y1 + index)
      let y2Vec := vld1qAt src (y0 + index + 16)
      let y3Vec := vld1qAt src (y1 + index + 16)
      vectorPath op y0Vec y1Vec y2Vec y3Vec uVec vVec (row0 + index * dcn) (row1 + index * dcn)) |>
    LoopUnroll2.remaining (fun index length =>
      op.scalarPath (length - index) (fun i => src (y0 + index + i)) (fun i => src (y1 + index + i))
        (fun i => src (u + (index / 2 : ℕ) + i)) (fun i => src (v + (index / 2 : ℕ) + i))
        (row0 + index * dcn) (row1 + index * dcn))).2

/-- `uv_strides`. -/
def uvStrides (width srcStride : ℕ) : Fin 2 → ℤ := ![(width / 2 : ℕ), srcStride - (width / 2 : ℕ)]

/-- The variables of the loop over the rows. -/
structure State (γ : Type) where
  y0 : ℤ
  u : ℤ
  v : ℤ
  uIndex : ℕ
  vIndex : ℕ
  dst : ℕ → γ

/-- The start of the `V` plane. -/
def vPlane (u : ℤ) (srcStride width height : ℕ) : ℤ :=
  u + srcStride * (height / 4 : ℕ) + (width / 2 : ℕ) * (height % 4 / 2 : ℕ)

/-- The pointers at the start of a stripe. -/
def initialState (src srcStride width height begin_ : ℕ) (m : ℕ → γ) : State γ :=
  let u : ℤ := src + srcStride * height
  let v := vPlane u srcStride width height
  let uIndex := 0
  let vIndex := if height % 4 = 2 then 1 else 0
  let rowBegin := begin_ * 2
  let rowUv := begin_
  let y0 : ℤ := src + rowBegin * srcStride
  let u := u + (rowUv / 2 : ℕ) * srcStride
  let v := v + (rowUv / 2 : ℕ) * srcStride
  if rowUv % 2 = 1 then
    ⟨y0, u + uvStrides width srcStride (Fin.ofNat 2 uIndex),
      v + uvStrides width srcStride (Fin.ofNat 2 vIndex), uIndex + 1, vIndex + 1, m⟩
  else ⟨y0, u, v, uIndex, vIndex, m⟩

/-- One iteration of the loop over the rows; `h` is the row. -/
def rowStep (src : ℤ → β) (srcStride dst dstStride width rowEnd h : ℕ) (s : State γ) : State γ :=
  let row0 := dst + dstStride * h
  let row1 := dst + dstStride * (h + 1)
  let y1 := s.y0 + srcStride
  -- The last row of an image of odd height is converted together with itself.
  let (row1, y1) := if h = rowEnd - 1 then (row0, s.y0) else (row1, y1)
  { y0 := s.y0 + srcStride * 2
    u := s.u + uvStrides width srcStride (Fin.ofNat 2 s.uIndex)
    v := s.v + uvStrides width srcStride (Fin.ofNat 2 s.vIndex)
    uIndex := s.uIndex + 1
    vIndex := s.vIndex + 1
    dst := processRows op src width s.y0 y1 s.u s.v row0 row1 s.dst }

/-- `yuv2rgbx_operation` without its checks. -/
def yuv2rgbxRows (srcMem : ℤ → β) (src srcStride dst dstStride width height begin_ end_ : ℕ)
    (m : ℕ → γ) : ℕ → γ :=
  let rowBegin := begin_ * 2
  let rowEnd := min height (end_ * 2)
  (forRange ((rowEnd - rowBegin + 1) / 2) (fun i =>
    rowStep op srcMem srcStride dst dstStride width rowEnd (rowBegin + 2 * i))
    (initialState src srcStride width height begin_ m)).dst

/-- The checks of `yuv2rgbx_operation`. -/
def checks (src srcStride dst dstStride width height : ℕ) : KleidicvError :=
  if checkPointerAndStride 1 src srcStride ((height * 3 + 1) / 2) ≠ .ok then
    checkPointerAndStride 1 src srcStride ((height * 3 + 1) / 2)
  else if checkPointerAndStride 1 dst dstStride height ≠ .ok then
    checkPointerAndStride 1 dst dstStride height
  else if checkImageSize width height then .ok
  else .range

end YuvpToRgbxOrBgrx

/-- `yuv420p_to_rgb_stripe_u8`, for the operation of a colour format. -/
def yuv420pToRgbStripe {β γ : Type} (op : Yuv420XToRgbxOrBgrx β γ) (srcMem : ℤ → β)
    (src srcStride dst dstStride width height begin_ end_ : ℕ) (m : ℕ → γ) :
    KleidicvError × (ℕ → γ) :=
  let error := YuvpToRgbxOrBgrx.checks src srcStride dst dstStride width height
  if error = .ok then
    (.ok, YuvpToRgbxOrBgrx.yuv2rgbxRows op srcMem src srcStride dst dstStride width height begin_
      end_ m)
  else (error, m)

namespace YuvpToRgbxOrBgrx

open Yuv420XToRgbxOrBgrx

variable {β γ : Type} (op : Yuv420XToRgbxOrBgrx β γ)

/-! ### Two rows of pixels -/

section

variable {rows : Rows} {value : ℕ × ℕ → γ} {U : Set (ℕ × ℕ)} {src : ℤ → β} {width r0 r1 : ℕ}
  {y0 y1 u v : ℤ}

/-- The samples of a row from the pointer `ptr` on. -/
def samples (src : ℤ → β) (ptr : ℤ) (i : ℕ) : β := src (ptr + i)

/-- Two vectors of either row, from an even column on. -/
theorem vectorPath_wrote (hop : op.lane = op.scalar) (hinj : Set.InjOn rows.address U) {i : ℕ}
    (heven : i % 2 = 0) (hi : i + 2 * 16 ≤ width)
    (hU : rowPair r0 r1 0 (op.outputChannels * width) ⊆ U)
    (h0 : op.RowValue value width r0 (samples src y0) (samples src u) (samples src v))
    (h1 : op.RowValue value width r1 (samples src y1) (samples src u) (samples src v))
    (m : ℕ → γ) :
    Wrote rows.address value (rowPair r0 r1 (op.outputChannels * i) (op.outputChannels * (2 * 16))) m
      (vectorPath op (vld1qAt src (y0 + i)) (vld1qAt src (y1 + i)) (vld1qAt src (y0 + i + 16))
        (vld1qAt src (y1 + i + 16)) (vld1qAt src (u + (i / 2 : ℕ))) (vld1qAt src (v + (i / 2 : ℕ)))
        (rows.address (r0, op.outputChannels * i)) (rows.address (r1, op.outputChannels * i)) m) := by
  have hfit := Nat.mul_le_mul_left op.outputChannels hi
  have hsplit : op.outputChannels * (2 * 16) = op.outputChannels * 16 + op.outputChannels * 16 := by
    rw [← Nat.mul_add]
  rw [Nat.mul_add] at hfit
  have hquarters : ∀ (ptr : ℤ) (q : Fin 4) (x : ℕ), x = 4 * q.val →
      ∀ j : Fin 4, quarter (vld1qAt src (ptr + (i / 2 : ℕ))) q j =
        samples src ptr (i / 2 + (x + j)) := by
    rintro ptr q _ rfl j
    simp only [quarter, vld1qAt, samples]
    push_cast
    simp only [add_assoc]
  have hlow : Wrote rows.address value
      (rowPair r0 r1 (op.outputChannels * i) (op.outputChannels * 16)) m
      (op.yuv420xToRgb (vld1qAt src (y0 + i)) (vld1qAt src (y1 + i))
        (quarter (vld1qAt src (u + (i / 2 : ℕ))) 0) (quarter (vld1qAt src (u + (i / 2 : ℕ))) 1)
        (quarter (vld1qAt src (v + (i / 2 : ℕ))) 0) (quarter (vld1qAt src (v + (i / 2 : ℕ))) 1)
        (rows.address (r0, op.outputChannels * i)) (rows.address (r1, op.outputChannels * i)) m) := by
    refine yuv420xToRgb_row hop hinj heven (by omega) hU h0 h1 (fun lane => ?_) (fun lane => ?_)
      (fun j => ⟨?_, hquarters u 1 4 rfl j⟩) (fun j => ⟨?_, hquarters v 1 4 rfl j⟩) m
    · simp only [vld1qAt, samples, Nat.cast_add, add_assoc]
    · simp only [vld1qAt, samples, Nat.cast_add, add_assoc]
    · rw [hquarters u 0 0 rfl j, Nat.zero_add]
    · rw [hquarters v 0 0 rfl j, Nat.zero_add]
  have hhigh : ∀ m, Wrote rows.address value
      (rowPair r0 r1 (op.outputChannels * (i + 16)) (op.outputChannels * 16)) m
      (op.yuv420xToRgb (vld1qAt src (y0 + i + 16)) (vld1qAt src (y1 + i + 16))
        (quarter (vld1qAt src (u + (i / 2 : ℕ))) 2) (quarter (vld1qAt src (u + (i / 2 : ℕ))) 3)
        (quarter (vld1qAt src (v + (i / 2 : ℕ))) 2) (quarter (vld1qAt src (v + (i / 2 : ℕ))) 3)
        (rows.address (r0, op.outputChannels * (i + 16)))
        (rows.address (r1, op.outputChannels * (i + 16))) m) := by
    intro m
    have hhalf : ∀ j, (i + 16) / 2 + j = i / 2 + (8 + j) := fun j => by omega
    refine yuv420xToRgb_row hop hinj (by omega) (by omega) hU h0 h1 (fun lane => ?_) (fun lane => ?_)
      (fun j => ⟨?_, ?_⟩) (fun j => ⟨?_, ?_⟩) m
    · simp only [vld1qAt, samples, Nat.cast_add, Nat.cast_ofNat, add_assoc]
    · simp only [vld1qAt, samples, Nat.cast_add, Nat.cast_ofNat, add_assoc]
    · rw [hhalf, hquarters u 2 8 rfl j]
    · rw [hhalf, ← Nat.add_assoc 8, hquarters u 3 12 rfl j]
    · rw [hhalf, hquarters v 2 8 rfl j]
    · rw [hhalf, ← Nat.add_assoc 8, hquarters v 3 12 rfl j]
  have hnext : ∀ r, rows.address (r, op.outputChannels * i) + op.outputChannels * 16 =
      rows.address (r, op.outputChannels * (i + 16)) := fun r => by
    rw [Rows.address, Rows.address, Nat.mul_add, Nat.add_assoc]
  rw [vectorPath, hnext, hnext, hsplit, ← rowPair_append, ← Nat.mul_add]
  have hpart : ∀ c, c + op.outputChannels * 16 ≤ op.outputChannels * width →
      rowPair r0 r1 c (op.outputChannels * 16) ⊆ U := fun c hc =>
    (rowPair_mono (Nat.zero_le _) (by omega)).trans hU
  exact hlow.trans hinj (hpart _ (by omega)) (hpart _ (by rw [Nat.mul_add]; omega)) (hhigh _)

/-- **Two rows of pixels**, or one row twice. -/
theorem processRows_wrote (hop : op.lane = op.scalar) (hinj : Set.InjOn rows.address U)
    (hU : rowPair r0 r1 0 (op.outputChannels * width) ⊆ U)
    (h0 : op.RowValue value width r0 (samples src y0) (samples src u) (samples src v))
    (h1 : op.RowValue value width r1 (samples src y1) (samples src u) (samples src v))
    (m : ℕ → γ) :
    Wrote rows.address value (rowPair r0 r1 0 (op.outputChannels * width)) m
      (processRows op src width y0 y1 u v (rows.address (r0, 0)) (rows.address (r1, 0)) m) := by
  have hpart : ∀ c' k', c' + k' ≤ op.outputChannels * width → rowPair r0 r1 c' k' ⊆ U :=
    fun c' k' hk => (rowPair_mono (Nat.zero_le _) (by omega)).trans hU
  have hrow : ∀ r index, rows.address (r, 0) + index * op.outputChannels =
      rows.address (r, op.outputChannels * index) := fun r index => by
    rw [Rows.address, Rows.address, Nat.mul_comm index]
    rfl
  -- Columns are done up to an even index.
  have hstart : Unrolled width 16 (fun i m' => i % 2 = 0 ∧
      Wrote rows.address value (rowPair r0 r1 0 (op.outputChannels * i)) m m')
      (LoopUnroll2.start width 16, m) :=
    .start ⟨rfl, Wrote.refl_of_empty m fun p hp => by have := hp.2; omega⟩
  refine (hstart.unrollNTimes fun i m' hi h => ?_).remaining
    (fun m' => Wrote rows.address value (rowPair r0 r1 0 (op.outputChannels * width)) m m')
    (fun m' h => h.2) fun i m' hi h => ?_
  · obtain ⟨heven, h⟩ := h
    have hfit := Nat.mul_le_mul_left op.outputChannels hi
    rw [Nat.mul_add] at hfit
    refine ⟨by omega, ?_⟩
    simp only [hrow]
    refine (h.trans hinj (hpart _ _ (by omega)) (hpart _ _ hfit)
      (vectorPath_wrote op hop hinj heven hi hU h0 h1 m')).congr ?_
    have happend := rowPair_append r0 r1 0 (op.outputChannels * i) (op.outputChannels * (2 * 16))
    rwa [← Nat.mul_add, Nat.zero_add] at happend
  · obtain ⟨heven, h⟩ := h
    have hcut : op.outputChannels * i + op.outputChannels * (width - i) =
        op.outputChannels * width := by
      rw [← Nat.mul_add, Nat.add_sub_cancel' hi.le]
    have hsamples : ∀ (ptr : ℤ) (n : ℕ), (fun j : ℕ => src (ptr + (n : ℕ) + j)) =
        fun j => samples src ptr (n + j) := fun ptr n => by
      funext j
      rw [samples, Nat.cast_add, add_assoc]
    simp only [hrow, hsamples]
    refine (h.trans hinj (hpart _ _ (by omega)) (hpart _ _ hcut.le)
      (scalarPath_row hinj heven hi.le hU h0 h1 m')).congr ?_
    have happend := rowPair_append r0 r1 0 (op.outputChannels * i) (op.outputChannels * (width - i))
    rwa [hcut, Nat.zero_add] at happend

end

/-! ### Where the samples are -/

/-- Row `i` of a chroma plane, whose first step is `uvStrides phase`. -/
def chromaRow (width srcStride : ℕ) (phase : Fin 2) (i : ℕ) : ℤ :=
  (i / 2 : ℕ) * srcStride + (i % 2 : ℕ) * uvStrides width srcStride phase

/-- The `V` plane starts in the middle of a row of chroma samples. -/
def vPhase (height : ℕ) : Fin 2 := if height % 4 = 2 then 1 else 0

def lumaAt (src srcStride row x : ℕ) : ℤ := src + srcStride * row + x

def uAt (src srcStride width height i j : ℕ) : ℤ :=
  src + srcStride * height + chromaRow width srcStride 0 i + j

def vAt (src srcStride width height i j : ℕ) : ℤ :=
  vPlane (src + srcStride * height) srcStride width height +
    chromaRow width srcStride (vPhase height) i + j

/-- The strides alternate. -/
theorem chromaRow_succ (width srcStride : ℕ) (phase : Fin 2) {index i : ℕ}
    (hindex : index % 2 = (i + phase) % 2) :
    chromaRow width srcStride phase i + uvStrides width srcStride (Fin.ofNat 2 index) =
      chromaRow width srcStride phase (i + 1) := by
  have hstrides : Fin.ofNat 2 index = Fin.ofNat 2 (i + phase) := Fin.ext hindex
  rw [hstrides, chromaRow, chromaRow]
  obtain ⟨q, rfl | rfl⟩ : ∃ q, i = 2 * q ∨ i = 2 * q + 1 := ⟨i / 2, by omega⟩
  · have hphase : Fin.ofNat 2 (2 * q + phase) = phase := Fin.ext (by simp; omega)
    rw [hphase, show 2 * q / 2 = q by omega, show 2 * q % 2 = 0 by omega,
      show (2 * q + 1) / 2 = q by omega, show (2 * q + 1) % 2 = 1 by omega]
    push_cast
    ring
  · have hboth : uvStrides width srcStride phase +
        uvStrides width srcStride (Fin.ofNat 2 (2 * q + 1 + phase)) = srcStride := by
      have hodd : Fin.ofNat 2 (2 * q + 1 + phase) = Fin.ofNat 2 (1 + phase) := Fin.ext (by simp; omega)
      rw [hodd]
      fin_cases phase
      · change ((width / 2 : ℕ) : ℤ) + (srcStride - (width / 2 : ℕ)) = srcStride
        ring
      · change (srcStride - ((width / 2 : ℕ) : ℤ)) + (width / 2 : ℕ) = srcStride
        ring
    rw [show (2 * q + 1) / 2 = q by omega, show (2 * q + 1) % 2 = 1 by omega,
      show (2 * q + 1 + 1) / 2 = q + 1 by omega, show (2 * q + 1 + 1) % 2 = 0 by omega]
    push_cast
    linear_combination hboth

/-- The pixels of the image: luma of their own, chroma of their block. -/
def decoded (srcMem : ℤ → β) (src srcStride width height : ℕ) (p : ℕ × ℕ) : γ :=
  let x := p.2 / op.outputChannels
  op.pixel (srcMem (lumaAt src srcStride p.1 x))
    (srcMem (uAt src srcStride width height (p.1 / 2) (x / 2)))
    (srcMem (vAt src srcStride width height (p.1 / 2) (x / 2))) (p.2 % op.outputChannels)

/-- The loop variables before chroma row `i` is used. -/
structure State.At (src srcStride width height i : ℕ) (s : State γ) : Prop where
  y0_eq : s.y0 = src + srcStride * (2 * i : ℕ)
  u_eq : s.u = src + srcStride * height + chromaRow width srcStride 0 i
  v_eq : s.v = vPlane (src + srcStride * height) srcStride width height +
    chromaRow width srcStride (vPhase height) i
  uIndex_eq : s.uIndex % 2 = (i + (0 : Fin 2).val) % 2
  vIndex_eq : s.vIndex % 2 = (i + (vPhase height).val) % 2

theorem initialState_at (src srcStride width height begin_ : ℕ) (m : ℕ → γ) :
    (initialState src srcStride width height begin_ m).At src srcStride width height begin_ ∧
      (initialState src srcStride width height begin_ m).dst = m := by
  have hphase : Fin.ofNat 2 (if height % 4 = 2 then 1 else 0) = vPhase height ∧
      (if height % 4 = 2 then 1 else 0) = (vPhase height).val := by
    unfold vPhase
    split <;> exact ⟨rfl, rfl⟩
  have hy : (src : ℤ) + (begin_ * 2 : ℕ) * srcStride = src + srcStride * (2 * begin_ : ℕ) := by
    push_cast
    ring
  by_cases hodd : begin_ % 2 = 1
  · rw [initialState, if_pos hodd]
    refine ⟨⟨hy, ?_, ?_, ?_, ?_⟩, rfl⟩
    · simp only [chromaRow, hodd]
      push_cast
      ring
    · simp only [chromaRow, hodd, hphase.1]
      push_cast
      ring
    · simp only [Fin.val_zero]
      omega
    · simp only [hphase.2]
      omega
  · have heven : begin_ % 2 = 0 := by omega
    rw [initialState, if_neg hodd]
    refine ⟨⟨hy, ?_, ?_, ?_, ?_⟩, rfl⟩
    · simp only [chromaRow, heven]
      push_cast
      ring
    · simp only [chromaRow, heven]
      push_cast
      ring
    · simp only [Fin.val_zero]
      omega
    · simp only [hphase.2]
      omega

section

variable {op} {rows : Rows} (srcMem : ℤ → β) {src srcStride width height : ℕ}

/-- A step converts two rows, and has the pointers ready for the next ones. -/
theorem rowStep_at {rowEnd i : ℕ} (hend : rowEnd ≤ height) (hi : 2 * i < rowEnd) {s : State γ}
    (hs : s.At src srcStride width height i) (hop : op.lane = op.scalar)
    (hinj : Set.InjOn rows.address {p | p.1 < height ∧ p.2 < op.outputChannels * width}) :
    (rowStep op srcMem srcStride rows.ptr rows.stride width rowEnd (2 * i) s).At src srcStride width
        height (i + 1) ∧
      Wrote rows.address (decoded op srcMem src srcStride width height)
        (stripeElements (op.outputChannels * width) (2 * i) (min rowEnd (2 * (i + 1)))) s.dst
        (rowStep op srcMem srcStride rows.ptr rows.stride width rowEnd (2 * i) s).dst := by
  have hrow : ∀ r, rows.ptr + rows.stride * r = rows.address (r, 0) := fun r => by
    rw [Rows.address, Nat.mul_comm]
    rfl
  have hu := chromaRow_succ width srcStride 0 hs.uIndex_eq
  have hv := chromaRow_succ width srcStride (vPhase height) hs.vIndex_eq
  -- A row of the pair, from the luma samples at `y`.
  have hvalue : ∀ r (y : ℤ), r / 2 = i → y = src + srcStride * r →
      op.RowValue (decoded op srcMem src srcStride width height) width r (samples srcMem y)
        (samples srcMem s.u) (samples srcMem s.v) := by
    rintro r _ hr rfl x hx k hk
    have hdiv : (op.outputChannels * x + k) / op.outputChannels = x := by
      rw [Nat.mul_add_div op.outputChannels_pos, Nat.div_eq_of_lt hk, Nat.add_zero]
    simp only [decoded, hdiv, Nat.mul_add_mod, Nat.mod_eq_of_lt hk, hr, samples, lumaAt, uAt, vAt,
      hs.u_eq, hs.v_eq]
  have hpair : ∀ r1 (y1 : ℤ), r1 / 2 = i → r1 < rowEnd → y1 = src + srcStride * r1 →
      Wrote rows.address (decoded op srcMem src srcStride width height)
        (rowPair (2 * i) r1 0 (op.outputChannels * width)) s.dst
        (processRows op srcMem width s.y0 y1 s.u s.v (rows.address (2 * i, 0))
          (rows.address (r1, 0)) s.dst) := by
    intro r1 y1 hr hlt hy
    refine processRows_wrote op hop hinj ?_ (hvalue _ _ (by omega) hs.y0_eq) (hvalue _ _ hr hy) _
    rintro p ⟨hp, -, hlast⟩
    exact ⟨by rcases hp with hp | hp <;> omega, by simpa using hlast⟩
  refine ⟨⟨?_, ?_, ?_, ?_, ?_⟩, ?_⟩
  · rw [rowStep, hs.y0_eq]
    push_cast
    ring
  · rw [rowStep, hs.u_eq, ← hu, add_assoc]
  · rw [rowStep, hs.v_eq, ← hv, add_assoc]
  · have := hs.uIndex_eq
    simp only [rowStep]
    omega
  · have := hs.vIndex_eq
    simp only [rowStep]
    omega
  · simp only [rowStep, hrow]
    by_cases hlast : 2 * i = rowEnd - 1
    · rw [if_pos hlast]
      refine (hpair (2 * i) s.y0 (by omega) hi hs.y0_eq).congr ?_
      ext p
      simp only [rowPair, stripeElements, Set.mem_ofPred_eq]
      omega
    · rw [if_neg hlast]
      refine (hpair (2 * i + 1) _ (by omega) (by omega) ?_).congr ?_
      · rw [hs.y0_eq]
        push_cast
        ring
      · ext p
        simp only [rowPair, stripeElements, Set.mem_ofPred_eq]
        omega

/-- **A stripe of an accepted image.** -/
theorem yuv2rgbxRows_wrote (hop : op.lane = op.scalar)
    (hinj : Set.InjOn rows.address {p | p.1 < height ∧ p.2 < op.outputChannels * width})
    (begin_ end_ : ℕ) (m : ℕ → γ) :
    Wrote rows.address (decoded op srcMem src srcStride width height)
      (stripeElements (op.outputChannels * width) (2 * begin_) (min height (2 * end_))) m
      (yuv2rgbxRows op srcMem src srcStride rows.ptr rows.stride width height begin_ end_ m) := by
  obtain ⟨hinit, hdst⟩ := initialState_at src srcStride width height begin_ m
  rw [yuv2rgbxRows, Nat.mul_comm begin_, Nat.mul_comm end_]
  have hend : min height (2 * end_) ≤ height := min_le_left _ _
  set rowEnd := min height (2 * end_)
  -- Before iteration `i` the rows up to `2 * (begin_ + i)` are done.
  have hloop := forRange_invariant (n := (rowEnd - 2 * begin_ + 1) / 2)
    (f := fun i => rowStep op srcMem srcStride rows.ptr rows.stride width rowEnd
      (2 * begin_ + 2 * i))
    (s := initialState src srcStride width height begin_ m)
    (fun i s => s.At src srcStride width height (begin_ + i) ∧
      Wrote rows.address (decoded op srcMem src srcStride width height)
        (stripeElements (op.outputChannels * width) (2 * begin_) (min rowEnd (2 * (begin_ + i)))) m
        s.dst)
    ⟨hinit, by
      rw [hdst]
      exact Wrote.refl_of_empty m fun p hp => by have := hp.1; have := hp.2.1; omega⟩ ?_
  · refine hloop.2.congr ?_
    ext p
    simp only [stripeElements, Set.mem_ofPred_eq]
    omega
  · rintro i hi s ⟨hs, h⟩
    rw [← Nat.mul_add]
    obtain ⟨hnext, hpiece⟩ := rowStep_at srcMem hend (by omega) hs hop hinj
    refine ⟨hnext, (h.trans hinj ?_ ?_ hpiece).congr ?_⟩
    · rintro p ⟨-, h2, h3⟩
      exact ⟨by omega, h3⟩
    · rintro p ⟨-, h2, h3⟩
      exact ⟨by omega, h3⟩
    · ext p
      simp only [stripeElements, Set.mem_union, Set.mem_ofPred_eq]
      omega

end

end YuvpToRgbxOrBgrx

end KleidiCV
