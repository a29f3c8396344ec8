/-
Encoding planar 4:2:0 images, `rgb_to_yuv420_neon.h` and `rgb_to_yuv420p_neon.cpp`.

What the conversion makes of a pixel is a parameter; this module is about where the
samples are stored.  The chroma samples are those of the pixels in even rows and
columns.  Their rows take half a stride, rounded up, and the second plane follows
the first one.

* `Yuv420Sample`, `place` — the samples of an image, and their addresses;
* `row_wrote` — the samples of one row;
* `rgbToYuv420pStripe_wrote` — the samples of a stripe.
-/
import KleidiCV.Lib.Partition
import KleidiCV.LoopUnroll2
import KleidiCV.ResizeFixedScale

open Loop

namespace KleidiCV

/-- The samples of the pixel in a row and column. -/
structure PixelSamples (β : Type) where
  y : ℕ → ℕ → β
  u : ℕ → ℕ → β
  v : ℕ → ℕ → β

/-- `RGBxorBGRxToYUV420<kAlpha, RGB, kInterleave>`: what the lanes of the vector path
and the scalar path compute. -/
structure RgbxOrBgrxToYuv420 (β : Type) where
  vector : PixelSamples β
  scalar : PixelSamples β
  kInterleave : Bool

namespace RgbxOrBgrxToYuv420

variable {β : Type} (op : RgbxOrBgrxToYuv420 β)

/-- `vector_path_2x`, in row `h`. -/
def vectorPath2x (h yRow uRow vRow : ℕ) (vFirst : Bool) (index : ℕ) (evenRow : Bool) (m : ℕ → β) :
    ℕ → β :=
  let y0 : Fin 16 → β := fun lane => op.vector.y h (index + lane)
  let y1 : Fin 16 → β := fun lane => op.vector.y h (index + 16 + lane)
  let m := vst1q m (yRow + index) y0
  let m := vst1q m (yRow + index + 16) y1
  if evenRow then
    let u : Fin 16 → β := fun lane => op.vector.u h (index + 2 * lane)
    let v : Fin 16 → β := fun lane => op.vector.v h (index + 2 * lane)
    let (uv0, uv1) := if vFirst then (v, u) else (u, v)
    if op.kInterleave then
      vstInterleaved 2 (fun k => if k = 0 then uv0 else uv1) (uRow + index) m
    else vst1q (vst1q m (uRow + index / 2) uv0) (vRow + index / 2) uv1
  else m

/-- The body of the loop of `scalar_path`. -/
def scalarColumn (h yRow uRow vRow : ℕ) (vFirst : Bool) (evenRow : Bool) (index : ℕ) (m : ℕ → β) :
    ℕ → β :=
  let evenCol : Bool := index % 2 = 0
  let m := Function.update m (yRow + index) (op.scalar.y h index)
  if evenRow && evenCol then
    let u := op.scalar.u h index
    let v := op.scalar.v h index
    let (uv0, uv1) := if vFirst then (v, u) else (u, v)
    if op.kInterleave then
      Function.update (Function.update m (uRow + index) uv0) (uRow + (index + 1)) uv1
    else
      Function.update (Function.update m (uRow + (index + 1) / 2) uv0) (vRow + (index + 1) / 2) uv1
  else m

/-- `scalar_path`, in row `h`. -/
def scalarPath (h yRow uRow vRow : ℕ) (vFirst : Bool) (index length : ℕ) (evenRow : Bool) :
    (ℕ → β) → ℕ → β :=
  forFrom index (length - index) (op.scalarColumn h yRow uRow vRow vFirst evenRow)

/-- `u_row` for an even row. -/
def uRow (uvDst uvStride width h : ℕ) : ℕ :=
  if op.kInterleave then uvDst + uvStride * (h / 2)
  else uvDst + uvStride * (h / 4) + h / 2 % 2 * ((width + 1) / 2)

/-- `v_row` for an even row. -/
def vRow (uvDst uvStride width height h : ℕ) : ℕ :=
  uvDst + uvStride * ((h + height + 1) / 4) + (h + height + 1) / 2 % 2 * ((width + 1) / 2)

/-- One row; `tail` calls `scalar_path` at every index that is left, and each call goes
to the end of the row. -/
def processRow (yDst yStride uvDst uvStride width height : ℕ) (vFirst : Bool) (h : ℕ) (m : ℕ → β) :
    ℕ → β :=
  let yRow := yDst + yStride * h
  let evenRow : Bool := h % 2 = 0
  let uRow := op.uRow uvDst uvStride width h
  let vRow := vRow uvDst uvStride width height h
  ((LoopUnroll2.startAvoidingTail width 16, m) |>
    LoopUnroll2.unrollTwice (fun index => op.vectorPath2x h yRow uRow vRow vFirst index evenRow) |>
    LoopUnroll2.tail (fun index => op.scalarPath h yRow uRow vRow vFirst index width evenRow)).2

/-- `rgb2yuv420_operation`. -/
def rgb2yuv420Operation (yDst yStride uvDst uvStride width height : ℕ) (vFirst : Bool)
    (begin_ end_ : ℕ) (m : ℕ → β) : ℕ → β :=
  let rowBegin := begin_ * 2
  let rowEnd := min height (end_ * 2)
  forFrom rowBegin (rowEnd - rowBegin)
    (op.processRow yDst yStride uvDst uvStride width height vFirst) m

end RgbxOrBgrxToYuv420

/-- The checks of `rgb_to_yuv420p_stripe_u8`. -/
def rgbToYuv420pChecks (src srcStride dst dstStride width height : ℕ) : KleidicvError :=
  if checkPointerAndStride 1 src srcStride height ≠ .ok then
    checkPointerAndStride 1 src srcStride height
  else if checkPointerAndStride 1 dst dstStride ((height * 3 + 1) / 2) ≠ .ok then
    checkPointerAndStride 1 dst dstStride ((height * 3 + 1) / 2)
  else if checkImageSize width height then .ok
  else .range

/-- `rgb_to_yuv420p_stripe_u8`, for the operation of a colour format. -/
def rgbToYuv420pStripe {β : Type} (op : RgbxOrBgrxToYuv420 β)
    (src srcStride dst dstStride width height : ℕ) (vFirst : Bool) (begin_ end_ : ℕ) (m : ℕ → β) :
    KleidicvError × (ℕ → β) :=
  let error := rgbToYuv420pChecks src srcStride dst dstStride width height
  if error = .ok then
    let uvDst := dst + dstStride * height
    (.ok, op.rgb2yuv420Operation dst dstStride uvDst dstStride width height vFirst begin_ end_ m)
  else (error, m)

/-! ### Samples and their addresses -/

/-- A luma sample of a row and column, or a chroma sample of a block. -/
inductive Yuv420Sample
  | luma (row column : ℕ)
  | chroma (isV : Bool) (i j : ℕ)

namespace Yuv420Sample

/-- The samples of an image; chroma sizes are rounded up. -/
def ofImage (width height : ℕ) : Set Yuv420Sample := {s |
  match s with
  | luma row column => row < height ∧ column < width
  | chroma _ i j => 2 * i < height ∧ 2 * j < width}

/-- The samples of row `h` that are due to columns from `a` up to `b`. -/
def ofRow (h a b : ℕ) : Set Yuv420Sample := {s |
  match s with
  | luma row column => row = h ∧ a ≤ column ∧ column < b
  | chroma _ i j => 2 * i = h ∧ a ≤ 2 * j ∧ 2 * j < b}

/-- The samples of the rows from `a` up to `b`. -/
def ofRows (width a b : ℕ) : Set Yuv420Sample := {s |
  match s with
  | luma row column => a ≤ row ∧ row < b ∧ column < width
  | chroma _ i j => a ≤ 2 * i ∧ 2 * i < b ∧ 2 * j < width}

theorem ofRow_subset {width height h a b : ℕ} (hh : h < height) (hb : b ≤ width) :
    ofRow h a b ⊆ ofImage width height := by
  rintro (⟨row, column⟩ | ⟨isV, i, j⟩) hs
  · obtain ⟨h1, h2, h3⟩ := hs
    exact ⟨by omega, by omega⟩
  · obtain ⟨h1, h2, h3⟩ := hs
    exact ⟨by omega, by omega⟩

theorem ofRow_append {h a b c : ℕ} (hab : a ≤ b) (hbc : b ≤ c) :
    ofRow h a b ∪ ofRow h b c = ofRow h a c := by
  ext (⟨row, column⟩ | ⟨isV, i, j⟩)
  · simp only [ofRow, Set.mem_union, Set.mem_ofPred_eq]
    omega
  · simp only [ofRow, Set.mem_union, Set.mem_ofPred_eq]
    omega

theorem not_mem_ofRow (h a : ℕ) (s : Yuv420Sample) : s ∉ ofRow h a a := by
  rcases s with ⟨row, column⟩ | ⟨isV, i, j⟩
  · exact fun hs => Nat.not_lt.mpr hs.2.1 hs.2.2
  · exact fun hs => Nat.not_lt.mpr hs.2.1 hs.2.2

/-- Where the samples of a planar image at `dst` are stored; `vFirst` exchanges the
chroma planes. -/
def place (dst dstStride width height : ℕ) (vFirst : Bool) : Yuv420Sample → ℕ
  | luma row column => dst + dstStride * row + column
  | chroma isV i j =>
    let uvDst := dst + dstStride * height
    (if isV = vFirst then
      uvDst + dstStride * (2 * i / 4) + 2 * i / 2 % 2 * ((width + 1) / 2)
    else RgbxOrBgrxToYuv420.vRow uvDst dstStride width height (2 * i)) + j

/-- What is stored there. -/
def value {β : Type} (samples : PixelSamples β) : Yuv420Sample → β
  | luma row column => samples.y row column
  | chroma false i j => samples.u (2 * i) (2 * j)
  | chroma true i j => samples.v (2 * i) (2 * j)

end Yuv420Sample

namespace RgbxOrBgrxToYuv420

open Yuv420Sample

variable {β : Type} {op : RgbxOrBgrxToYuv420 β} {dst dstStride width height h : ℕ} {vFirst : Bool}

/-- The rows that a row of pixels is stored in. -/
theorem place_chroma (hplanar : op.kInterleave = false) (i j : ℕ) :
    place dst dstStride width height vFirst (chroma vFirst i j) =
        op.uRow (dst + dstStride * height) dstStride width (2 * i) + j ∧
      place dst dstStride width height vFirst (chroma (!vFirst) i j) =
        vRow (dst + dstStride * height) dstStride width height (2 * i) + j := by
  constructor
  · simp only [place, if_true, uRow, hplanar, Bool.false_eq_true, if_false]
  · simp only [place, Bool.not_eq_eq_eq_not, Bool.eq_not_self, if_false]

/-- A vector of luma samples. -/
theorem luma_wrote (hop : op.vector = op.scalar) (x : ℕ) (m : ℕ → β) :
    Wrote (place dst dstStride width height vFirst) (value op.scalar)
      {s | ∃ l < 16, luma h (x + l) = s} m
      (vst1q m (dst + dstStride * h + x) fun lane : Fin 16 => op.vector.y h (x + lane)) := by
  obtain ⟨g, heq, hg⟩ := vst1q_eq m (dst + dstStride * h + x)
    fun lane : Fin 16 => op.vector.y h (x + lane)
  rw [heq]
  refine overwrite_wrote_range (fun l hl => ?_) fun l hl => ?_
  · exact (Nat.add_assoc _ _ _).symm
  · rw [hg ⟨l, hl⟩, hop]
    rfl

/-- A vector of chroma samples of the even row `h`. -/
theorem chroma_wrote {isV : Bool} (heven : h % 2 = 0) {row index : ℕ} (hindex : index % 2 = 0)
    (hrow : ∀ j, place dst dstStride width height vFirst (chroma isV (h / 2) j) = row + j)
    {samples : ℕ → ℕ → β}
    (hsamples : ∀ i j, samples (2 * i) (2 * j) = value op.scalar (chroma isV i j)) (m : ℕ → β) :
    Wrote (place dst dstStride width height vFirst) (value op.scalar)
      {s | ∃ l < 16, chroma isV (h / 2) (index / 2 + l) = s} m
      (vst1q m (row + index / 2) fun lane : Fin 16 => samples h (index + 2 * lane)) := by
  obtain ⟨g, heq, hg⟩ := vst1q_eq m (row + index / 2)
    fun lane : Fin 16 => samples h (index + 2 * lane)
  rw [heq]
  refine overwrite_wrote_range (fun l hl => ?_) fun l hl => ?_
  · rw [hrow, Nat.add_assoc]
  · rw [hg ⟨l, hl⟩, ← hsamples]
    simp only
    rw [show 2 * (h / 2) = h by omega, show 2 * (index / 2 + l) = index + 2 * l by omega]

/-- Two vectors of luma samples, and in an even row one of either chroma plane. -/
theorem vectorPath2x_wrote (hplanar : op.kInterleave = false) (hop : op.vector = op.scalar)
    (hinj : Set.InjOn (place dst dstStride width height vFirst) (ofImage width height))
    (hh : h < height) {index : ℕ} (heven : index % 2 = 0) (hi : index + 2 * 16 ≤ width) (m : ℕ → β) :
    Wrote (place dst dstStride width height vFirst) (value op.scalar)
      (ofRow h index (index + 2 * 16)) m
      (op.vectorPath2x h (dst + dstStride * h) (op.uRow (dst + dstStride * height) dstStride width h)
        (vRow (dst + dstStride * height) dstStride width height h) vFirst index (h % 2 = 0) m) := by
  have hluma : ∀ x, x + 16 ≤ width →
      {s | ∃ l < 16, luma h (x + l) = s} ⊆ ofImage width height := by
    rintro x hx _ ⟨l, hl, rfl⟩
    exact ⟨hh, by omega⟩
  have hy := (luma_wrote (h := h) hop index m).trans hinj (hluma _ (by omega))
    (hluma (index + 16) (by omega)) (luma_wrote hop (index + 16) _)
  by_cases hrow : h % 2 = 0
  · have hchroma : ∀ isV, {s | ∃ l < 16, chroma isV (h / 2) (index / 2 + l) = s} ⊆
        ofImage width height := by
      rintro isV _ ⟨l, hl, rfl⟩
      exact ⟨by omega, by omega⟩
    have hhalf : 2 * (h / 2) = h := by omega
    have hfirst : ∀ j, place dst dstStride width height vFirst (chroma vFirst (h / 2) j) =
        op.uRow (dst + dstStride * height) dstStride width h + j := fun j => by
      rw [(place_chroma hplanar (h / 2) j).1, hhalf]
    have hsecond : ∀ j, place dst dstStride width height vFirst (chroma (!vFirst) (h / 2) j) =
        vRow (dst + dstStride * height) dstStride width height h + j := fun j => by
      rw [(place_chroma hplanar (h / 2) j).2, hhalf]
    -- The planes, in the order they are stored in.
    have hplanes : ∀ (first second : ℕ → ℕ → β),
        (∀ i j, first (2 * i) (2 * j) = value op.scalar (chroma vFirst i j)) →
        (∀ i j, second (2 * i) (2 * j) = value op.scalar (chroma (!vFirst) i j)) →
        Wrote (place dst dstStride width height vFirst) (value op.scalar)
          (ofRow h index (index + 2 * 16)) m
          (vst1q (vst1q (vst1q (vst1q m (dst + dstStride * h + index)
              fun lane : Fin 16 => op.vector.y h (index + lane))
              (dst + dstStride * h + (index + 16))
              fun lane : Fin 16 => op.vector.y h (index + 16 + lane))
            (op.uRow (dst + dstStride * height) dstStride width h + index / 2)
            fun lane : Fin 16 => first h (index + 2 * lane))
            (vRow (dst + dstStride * height) dstStride width height h + index / 2)
            fun lane : Fin 16 => second h (index + 2 * lane)) := by
      intro first second hf hs
      refine (((hy.trans hinj (Set.union_subset (hluma _ (by omega)) (hluma _ (by omega)))
        (hchroma vFirst) (chroma_wrote hrow heven hfirst hf _)).trans hinj ?_ (hchroma (!vFirst))
        (chroma_wrote hrow heven hsecond hs _))).congr ?_
      · exact Set.union_subset (Set.union_subset (hluma _ (by omega)) (hluma _ (by omega)))
          (hchroma vFirst)
      · ext (⟨row, column⟩ | ⟨isV, i, j⟩)
        · simp only [ofRow, Set.mem_union, Set.mem_ofPred_eq, luma.injEq, reduceCtorEq, and_false,
            exists_false, or_false]
          constructor
          · rintro (⟨l, hl, rfl, rfl⟩ | ⟨l, hl, rfl, rfl⟩) <;> omega
          · rintro ⟨rfl, h1, h2⟩
            rcases Nat.lt_or_ge column (index + 16) with hlt | hge
            · exact .inl ⟨column - index, by omega, rfl, by omega⟩
            · exact .inr ⟨column - (index + 16), by omega, rfl, by omega⟩
        · simp only [ofRow, Set.mem_union, Set.mem_ofPred_eq, chroma.injEq, reduceCtorEq, and_false,
            exists_false, false_or]
          constructor
          · rintro (⟨l, hl, -, rfl, rfl⟩ | ⟨l, hl, -, rfl, rfl⟩) <;> omega
          · rintro ⟨rfl, h1, h2⟩
            rcases Bool.eq_or_eq_not isV vFirst with rfl | rfl
            · exact .inl ⟨j - index / 2, by omega, rfl, by omega, by omega⟩
            · exact .inr ⟨j - index / 2, by omega, rfl, by omega, by omega⟩
    have hdecide : decide (h % 2 = 0) = true := decide_eq_true hrow
    rw [vectorPath2x, hdecide]
    simp only [if_true, hplanar, Bool.false_eq_true, if_false, Nat.add_assoc (dst + dstStride * h)]
    cases hv : vFirst with
    | false =>
      rw [hv] at hplanes
      exact hplanes op.vector.u op.vector.v (fun i j => by rw [hop]; rfl) (fun i j => by rw [hop]; rfl)
    | true =>
      rw [hv] at hplanes
      exact hplanes op.vector.v op.vector.u (fun i j => by rw [hop]; rfl) (fun i j => by rw [hop]; rfl)
  · have hodd : decide (h % 2 = 0) = false := decide_eq_false hrow
    rw [vectorPath2x, hodd]
    simp only [Bool.false_eq_true, if_false, Nat.add_assoc (dst + dstStride * h)]
    refine hy.congr ?_
    ext (⟨row, column⟩ | ⟨isV, i, j⟩)
    · simp only [ofRow, Set.mem_union, Set.mem_ofPred_eq, luma.injEq]
      constructor
      · rintro (⟨l, hl, rfl, rfl⟩ | ⟨l, hl, rfl, rfl⟩) <;> omega
      · rintro ⟨rfl, h1, h2⟩
        rcases Nat.lt_or_ge column (index + 16) with hlt | hge
        · exact .inl ⟨column - index, by omega, rfl, by omega⟩
        · exact .inr ⟨column - (index + 16), by omega, rfl, by omega⟩
    · simp only [ofRow, Set.mem_union, Set.mem_ofPred_eq, reduceCtorEq, and_false, exists_false,
        or_self, false_iff]
      omega

/-- The chroma samples of a block, one of either plane. -/
theorem chroma_update {row row' j : ℕ} {first second : β}
    (hinj : Set.InjOn (place dst dstStride width height vFirst) (ofImage width height))
    (hh : h < height) (heven : h % 2 = 0) (hj : 2 * j < width)
    (hfirst : place dst dstStride width height vFirst (chroma vFirst (h / 2) j) = row)
    (hsecond : place dst dstStride width height vFirst (chroma (!vFirst) (h / 2) j) = row')
    (hf : first = value op.scalar (chroma vFirst (h / 2) j))
    (hs : second = value op.scalar (chroma (!vFirst) (h / 2) j)) (m : ℕ → β) :
    Wrote (place dst dstStride width height vFirst) (value op.scalar)
      {s | ∃ isV, s = chroma isV (h / 2) j} m
      (Function.update (Function.update m row first) row' second) := by
  have hmem : ∀ isV, {chroma isV (h / 2) j} ⊆ ofImage width height := by
    rintro isV _ rfl
    exact ⟨by omega, hj⟩
  rw [hf, hs]
  refine ((Wrote.update m hfirst).trans hinj (hmem _) (hmem _) (Wrote.update _ hsecond)).congr ?_
  ext s
  simp only [Set.mem_union, Set.mem_singleton_iff, Set.mem_ofPred_eq]
  constructor
  · rintro (rfl | rfl)
    · exact ⟨_, rfl⟩
    · exact ⟨_, rfl⟩
  · rintro ⟨isV, rfl⟩
    rcases Bool.eq_or_eq_not isV vFirst with rfl | rfl
    · exact .inl rfl
    · exact .inr rfl

/-- One column of a row. -/
theorem scalarColumn_wrote (hplanar : op.kInterleave = false)
    (hinj : Set.InjOn (place dst dstStride width height vFirst) (ofImage width height))
    (hh : h < height) {index : ℕ} (hi : index < width) (m : ℕ → β) :
    Wrote (place dst dstStride width height vFirst) (value op.scalar) (ofRow h index (index + 1)) m
      (op.scalarColumn h (dst + dstStride * h) (op.uRow (dst + dstStride * height) dstStride width h)
        (vRow (dst + dstStride * height) dstStride width height h) vFirst (h % 2 = 0) index m) := by
  have hluma : Wrote (place dst dstStride width height vFirst) (value op.scalar) {luma h index} m
      (Function.update m (dst + dstStride * h + index) (op.scalar.y h index)) :=
    Wrote.update m rfl
  have hlumaMem : {luma h index} ⊆ ofImage width height := by
    rintro _ rfl
    exact ⟨hh, hi⟩
  by_cases hblock : h % 2 = 0 ∧ index % 2 = 0
  · obtain ⟨hrow, hcolumn⟩ := hblock
    have hhalf : 2 * (h / 2) = h := by omega
    have hhalf' : 2 * ((index + 1) / 2) = index := by omega
    have hfirst : place dst dstStride width height vFirst (chroma vFirst (h / 2) ((index + 1) / 2)) =
        op.uRow (dst + dstStride * height) dstStride width h + (index + 1) / 2 := by
      rw [(place_chroma hplanar (h / 2) _).1, hhalf]
    have hsecond : place dst dstStride width height vFirst
        (chroma (!vFirst) (h / 2) ((index + 1) / 2)) =
        vRow (dst + dstStride * height) dstStride width height h + (index + 1) / 2 := by
      rw [(place_chroma hplanar (h / 2) _).2, hhalf]
    have hu : op.scalar.u h index = value op.scalar (chroma false (h / 2) ((index + 1) / 2)) := by
      simp only [value, hhalf, hhalf']
    have hv : op.scalar.v h index = value op.scalar (chroma true (h / 2) ((index + 1) / 2)) := by
      simp only [value, hhalf, hhalf']
    have hchromaMem : {s | ∃ isV, s = chroma isV (h / 2) ((index + 1) / 2)} ⊆
        ofImage width height := by
      rintro _ ⟨isV, rfl⟩
      exact ⟨by omega, by omega⟩
    have hset : {luma h index} ∪ {s | ∃ isV, s = chroma isV (h / 2) ((index + 1) / 2)} =
        ofRow h index (index + 1) := by
      ext (⟨row, column⟩ | ⟨isV, i, j⟩)
      · simp only [ofRow, Set.mem_union, Set.mem_singleton_iff, luma.injEq, Set.mem_ofPred_eq,
          reduceCtorEq, exists_false, or_false]
        omega
      · simp only [ofRow, Set.mem_union, Set.mem_singleton_iff, chroma.injEq, Set.mem_ofPred_eq,
          reduceCtorEq, false_or]
        constructor
        · rintro ⟨_, -, rfl, rfl⟩
          omega
        · intro h
          exact ⟨isV, rfl, by omega, by omega⟩
    rw [scalarColumn, decide_eq_true hrow, decide_eq_true hcolumn, ← hset]
    simp only [Bool.and_self, if_true, hplanar, Bool.false_eq_true, if_false]
    cases hf : vFirst with
    | false =>
      subst hf
      exact hluma.trans hinj hlumaMem hchromaMem
        (chroma_update hinj hh hrow (by omega) hfirst hsecond hu hv _)
    | true =>
      subst hf
      exact hluma.trans hinj hlumaMem hchromaMem
        (chroma_update hinj hh hrow (by omega) hfirst hsecond hv hu _)
  · have hskip : (decide (h % 2 = 0) && decide (index % 2 = 0)) = false := by
      rw [← Bool.not_eq_true, Bool.and_eq_true, decide_eq_true_iff, decide_eq_true_iff]
      exact hblock
    rw [scalarColumn, hskip]
    refine hluma.congr ?_
    ext (⟨row, column⟩ | ⟨isV, i, j⟩)
    · simp only [ofRow, Set.mem_singleton_iff, luma.injEq, Set.mem_ofPred_eq]
      omega
    · simp only [ofRow, Set.mem_singleton_iff, reduceCtorEq, Set.mem_ofPred_eq, false_iff]
      omega

/-- The rest of a row. -/
theorem scalarPath_wrote (hplanar : op.kInterleave = false)
    (hinj : Set.InjOn (place dst dstStride width height vFirst) (ofImage width height))
    (hh : h < height) {index : ℕ} (hi : index ≤ width) (m : ℕ → β) :
    Wrote (place dst dstStride width height vFirst) (value op.scalar) (ofRow h index width) m
      (op.scalarPath h (dst + dstStride * h) (op.uRow (dst + dstStride * height) dstStride width h)
        (vRow (dst + dstStride * height) dstStride width height h) vFirst index width (h % 2 = 0)
        m) := by
  have hloop : Wrote (place dst dstStride width height vFirst) (value op.scalar)
      (ofRow h index (index + (width - index))) m
      (op.scalarPath h (dst + dstStride * h) (op.uRow (dst + dstStride * height) dstStride width h)
        (vRow (dst + dstStride * height) dstStride width height h) vFirst index width (h % 2 = 0)
        m) := by
    refine forFrom_invariant (fun i m' =>
      Wrote (place dst dstStride width height vFirst) (value op.scalar) (ofRow h index i) m m')
      (Wrote.refl_of_empty m (not_mem_ofRow h index)) fun i h1 h2 m' h' => ?_
    rw [← ofRow_append h1 (Nat.le_succ i)]
    exact h'.trans hinj (ofRow_subset hh (by omega)) (ofRow_subset hh (by omega))
      (scalarColumn_wrote hplanar hinj hh (by omega) m')
  rwa [Nat.add_sub_cancel' hi] at hloop

/-- **A row**: its luma samples, and if it is even the chroma samples of its blocks. -/
theorem row_wrote (hplanar : op.kInterleave = false) (hop : op.vector = op.scalar)
    (hinj : Set.InjOn (place dst dstStride width height vFirst) (ofImage width height))
    (hh : h < height) (m : ℕ → β) :
    Wrote (place dst dstStride width height vFirst) (value op.scalar) (ofRow h 0 width) m
      (op.processRow dst dstStride (dst + dstStride * height) dstStride width height vFirst h m) := by
  -- The first call of the tail finds an even number of columns done, and does the rest.
  have hloop : (width % 2 = 0 ∧ Wrote (place dst dstStride width height vFirst) (value op.scalar)
        (ofRow h 0 width) m
        (op.processRow dst dstStride (dst + dstStride * height) dstStride width height vFirst h m)) ∨
      Wrote (place dst dstStride width height vFirst) (value op.scalar) (ofRow h 0 width) m
        (op.processRow dst dstStride (dst + dstStride * height) dstStride width height vFirst h m) := by
    refine unrollTwice_tail_avoidingTail
      (fun i m' => i % 2 = 0 ∧
        Wrote (place dst dstStride width height vFirst) (value op.scalar) (ofRow h 0 i) m m')
      (fun i m' => (i % 2 = 0 ∧
          Wrote (place dst dstStride width height vFirst) (value op.scalar) (ofRow h 0 i) m m') ∨
        Wrote (place dst dstStride width height vFirst) (value op.scalar) (ofRow h 0 width) m m')
      ⟨rfl, Wrote.refl_of_empty m (not_mem_ofRow h 0)⟩ ?_ (fun i m' h' => .inl h') ?_
    · rintro i m' hi ⟨heven, h'⟩
      refine ⟨by omega, ?_⟩
      rw [← ofRow_append (Nat.zero_le i) (Nat.le_add_right i (2 * 16))]
      exact h'.trans hinj (ofRow_subset hh (by omega)) (ofRow_subset hh hi)
        (vectorPath2x_wrote hplanar hop hinj hh heven hi m')
    · rintro i m' hi h'
      right
      have htail := scalarPath_wrote hplanar hinj hh hi.le m'
      rcases h' with ⟨-, h'⟩ | h'
      · rw [← ofRow_append (Nat.zero_le i) hi.le]
        exact h'.trans hinj (ofRow_subset hh hi.le) (ofRow_subset hh le_rfl) htail
      · refine (h'.trans hinj (ofRow_subset hh le_rfl) (ofRow_subset hh le_rfl) htail).congr ?_
        rw [← ofRow_append (Nat.zero_le i) hi.le, Set.union_assoc, Set.union_self]
  exact hloop.elim And.right id

/-- The rows of a stripe. -/
theorem rgb2yuv420Operation_wrote (hplanar : op.kInterleave = false) (hop : op.vector = op.scalar)
    (hinj : Set.InjOn (place dst dstStride width height vFirst) (ofImage width height))
    (begin_ end_ : ℕ) (m : ℕ → β) :
    Wrote (place dst dstStride width height vFirst) (value op.scalar)
      (ofRows width (2 * begin_) (min height (2 * end_))) m
      (op.rgb2yuv420Operation dst dstStride (dst + dstStride * height) dstStride width height vFirst
        begin_ end_ m) := by
  rw [rgb2yuv420Operation, Nat.mul_comm begin_, Nat.mul_comm end_]
  have hloop : Wrote (place dst dstStride width height vFirst) (value op.scalar)
      (ofRows width (2 * begin_) (2 * begin_ + (min height (2 * end_) - 2 * begin_))) m
      (forFrom (2 * begin_) (min height (2 * end_) - 2 * begin_)
        (op.processRow dst dstStride (dst + dstStride * height) dstStride width height vFirst) m) := by
    refine forFrom_invariant (fun h m' => Wrote (place dst dstStride width height vFirst)
      (value op.scalar) (ofRows width (2 * begin_) h) m m') (Wrote.refl_of_empty m ?_)
      fun h h1 h2 m' h' => ?_
    · rintro (⟨row, column⟩ | ⟨isV, i, j⟩) hs
      · exact Nat.not_lt.mpr hs.1 hs.2.1
      · exact Nat.not_lt.mpr hs.1 hs.2.1
    · refine (h'.trans hinj ?_ (ofRow_subset (by omega) le_rfl)
        (row_wrote hplanar hop hinj (by omega) m')).congr ?_
      · rintro (⟨row, column⟩ | ⟨isV, i, j⟩) ⟨s1, s2, s3⟩
        · exact ⟨by omega, s3⟩
        · exact ⟨by omega, s3⟩
      · ext (⟨row, column⟩ | ⟨isV, i, j⟩)
        · simp only [ofRows, ofRow, Set.mem_union, Set.mem_ofPred_eq]
          omega
        · simp only [ofRows, ofRow, Set.mem_union, Set.mem_ofPred_eq]
          omega
  refine hloop.congr ?_
  ext (⟨row, column⟩ | ⟨isV, i, j⟩)
  · simp only [ofRows, Set.mem_ofPred_eq]
    omega
  · simp only [ofRows, Set.mem_ofPred_eq]
    omega

/-- **Stripes of an accepted image**, in any order: all samples of the image are stored,
each at its place. -/
theorem rgbToYuv420pStripes_wrote (hplanar : op.kInterleave = false) (hop : op.vector = op.scalar)
    {src srcStride : ℕ}
    (haccept : rgbToYuv420pChecks src srcStride dst dstStride width height = .ok)
    (hinj : Set.InjOn (place dst dstStride width height vFirst) (ofImage width height))
    {l : List (ℕ × ℕ)} (hl : IsPartition ((height + 1) / 2) l) (m : ℕ → β) :
    Wrote (place dst dstStride width height vFirst) (value op.scalar) (ofImage width height) m
      (l.foldl (fun m r => (rgbToYuv420pStripe op src srcStride dst dstStride width height vFirst r.1
        r.2 m).2) m) := by
  have hpieces : Wrote (place dst dstStride width height vFirst) (value op.scalar)
      (⋃ r ∈ l, ofRows width (2 * r.1) (min height (2 * r.2))) m
      (l.foldl (fun m r => (rgbToYuv420pStripe op src srcStride dst dstStride width height vFirst r.1
        r.2 m).2) m) := by
    refine Wrote.foldl hinj (fun r _ => ?_) m fun _ r _ _ m' _ => ?_
    · rintro (⟨row, column⟩ | ⟨isV, i, j⟩) ⟨h1, h2, h3⟩
      · exact ⟨by omega, h3⟩
      · exact ⟨by omega, h3⟩
    · rw [rgbToYuv420pStripe, if_pos haccept]
      exact rgb2yuv420Operation_wrote hplanar hop hinj r.1 r.2 m'
  refine hpieces.congr ?_
  ext (⟨row, column⟩ | ⟨isV, i, j⟩)
  · simp only [ofRows, ofImage, Set.mem_iUnion, exists_prop, Set.mem_ofPred_eq]
    constructor
    · rintro ⟨r, -, h1, h2, h3⟩
      exact ⟨by omega, h3⟩
    · rintro ⟨h1, h3⟩
      obtain ⟨r, hr, h4, h5⟩ := hl.cover (row / 2) (by omega)
      exact ⟨r, hr, by omega, by omega, h3⟩
  · simp only [ofRows, ofImage, Set.mem_iUnion, exists_prop, Set.mem_ofPred_eq]
    constructor
    · rintro ⟨r, -, h1, h2, h3⟩
      exact ⟨by omega, h3⟩
    · rintro ⟨h1, h3⟩
      obtain ⟨r, hr, h4, h5⟩ := hl.cover i (by omega)
      exact ⟨r, hr, by omega, by omega, h3⟩

end RgbxOrBgrxToYuv420

end KleidiCV
