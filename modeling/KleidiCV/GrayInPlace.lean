/-
Gray images converted in place.

The header says of `kleidicv_gray_to_rgb_u8` and `kleidicv_gray_to_rgba_u8` that in-place
operations are supported.  A pixel of the result has three or four bytes, so pixels are written
over those that follow them before they are read.

* `IsGray.row`, `IsGray.image` — what a row and an image become;
* `convertColours_gray_in_place` — when that is the conversion of the image.
-/
import KleidiCV.RgbToRgb

open Loop

namespace KleidiCV

open Interleave

namespace ColourOrder

/-- The gray value that pixel `x` is filled with where a row of `width` pixels is converted in
place: past the first vector, or the first pixel if there is no vector, the byte read is one
that an earlier pixel was written to. -/
def inPlaceGray (outN width : ℕ) (row : ℕ → U8) (x : ℕ) : U8 :=
  if x = 0 ∨ (x < 16 ∧ 16 ≤ width) ∨ outN < 2 then row x
  else if x % outN = 3 then 0xff
  else inPlaceGray outN width row (x / outN)
termination_by x
decreasing_by exact Nat.div_lt_self (by omega) (by omega)

/-- A conversion of gray pixels. -/
def IsGray (conversion : ColourConversion) : Prop :=
  conversion = .grayToRgb ∨ conversion = .grayToRgba

section

variable {conversion : ColourConversion} {width base i k : ℕ} {m s : Mem}

theorem IsGray.inN (h : IsGray conversion) : conversion.inN = 1 := by
  obtain rfl | rfl := h <;> rfl

theorem IsGray.outN (h : IsGray conversion) : 3 ≤ conversion.outN := by
  obtain rfl | rfl := h <;> decide

/-- The first `i` pixels of a row are converted, and nothing after them is written. -/
structure GrayInPlace (outN width base : ℕ) (m : Mem) (i : ℕ) (s : Mem) : Prop where
  pixel : ∀ x < i, ∀ c < outN, s (base + (x * outN + c)) =
    if c = 3 then 0xff else inPlaceGray outN width (fun x => m (base + x)) x
  frame : ∀ a, a < base ∨ base + i * outN ≤ a → s a = m a

/-- The byte that is read for pixel `i + k`. -/
theorem GrayInPlace.read {outN : ℕ} (h : GrayInPlace outN width base m i s) (hout : 3 ≤ outN)
    (hfirst : i = 0 → i + k = 0 ∨ (i + k < 16 ∧ 16 ≤ width))
    (hlater : i ≠ 0 → k < i ∧ ¬(i + k < 16 ∧ 16 ≤ width)) :
    s (base + (i + k)) = inPlaceGray outN width (fun x => m (base + x)) (i + k) := by
  by_cases hi : i = 0
  · subst hi
    rw [h.frame _ (.inr (by omega)), inPlaceGray, if_pos]
    rcases hfirst rfl with h0 | h16
    · exact .inl h0
    · exact .inr (.inl h16)
  · obtain ⟨hk, hvector⟩ := hlater hi
    have hpixel : (i + k) / outN < i := by
      refine Nat.div_lt_of_lt_mul ?_
      have hle := Nat.mul_le_mul_right i hout
      omega
    have hvalue := h.pixel _ hpixel _ (Nat.mod_lt (i + k) (by omega))
    rw [Nat.div_add_mod'] at hvalue
    have hnot : ¬(i + k = 0 ∨ (i + k < 16 ∧ 16 ≤ width) ∨ outN < 2) := by omega
    rw [hvalue]
    conv_rhs => rw [inPlaceGray, if_neg hnot]

/-- The bytes of a gray pixel. -/
theorem IsGray.orderedByte_eq (h : IsGray conversion) (s : Mem) (src t : ℕ) :
    orderedByte conversion.order 1 conversion.outN s src t =
      if t % conversion.outN = 3 then 0xff else s (src + t / conversion.outN) := by
  unfold ColourOrder.orderedByte PixelMap.value orderMap
  obtain rfl | rfl := h
  · have hlt : t % 3 ≠ 3 := by omega
    simp only [ColourConversion.order, ColourConversion.outN, gray, Nat.mul_one, Nat.add_zero]
    exact (if_neg hlt).symm
  · by_cases hlast : t % 4 = 3
    · have horder : ColourConversion.order .grayToRgba (t % ColourConversion.outN .grayToRgba) =
          none := if_pos hlast
      rw [horder]
      exact (if_pos hlast).symm
    · have horder : ColourConversion.order .grayToRgba (t % ColourConversion.outN .grayToRgba) =
          some 0 := if_neg hlast
      rw [horder, Nat.mul_one]
      exact (if_neg hlast).symm

/-- Some more pixels. -/
theorem GrayInPlace.step (hgray : IsGray conversion) {n : ℕ}
    (h : GrayInPlace conversion.outN width base m i s)
    (hread : ∀ k < n, s (base + (i + k)) =
      inPlaceGray conversion.outN width (fun x => m (base + x)) (i + k)) :
    GrayInPlace conversion.outN width base m (i + n)
      (overwrite s (base + i * conversion.outN) (n * conversion.outN)
        (orderedByte conversion.order 1 conversion.outN s (base + i))) := by
  have hout := hgray.outN
  have hend : (i + n) * conversion.outN = i * conversion.outN + n * conversion.outN :=
    Nat.add_mul i n conversion.outN
  constructor
  · intro x hx c hc
    by_cases hxi : x < i
    · have hle := Nat.mul_le_mul_right conversion.outN (Nat.succ_le_of_lt hxi)
      rw [Nat.succ_mul] at hle
      rw [overwrite_of_not_mem (by omega)]
      exact h.pixel x hxi c hc
    · obtain ⟨k, rfl⟩ := Nat.exists_eq_add_of_le (not_lt.mp hxi)
      have hk : k < n := by omega
      have hle := Nat.mul_le_mul_right conversion.outN (Nat.succ_le_of_lt hk)
      rw [Nat.succ_mul] at hle
      have haddress : base + ((i + k) * conversion.outN + c) =
          base + i * conversion.outN + (k * conversion.outN + c) := by
        rw [Nat.add_mul]
        omega
      have hdiv : (k * conversion.outN + c) / conversion.outN = k := by
        rw [Nat.mul_comm, Nat.mul_add_div (by omega), Nat.div_eq_of_lt hc, Nat.add_zero]
      have hmod : (k * conversion.outN + c) % conversion.outN = c := by
        rw [Nat.mul_comm, Nat.mul_add_mod, Nat.mod_eq_of_lt hc]
      rw [haddress, overwrite_add (by omega), hgray.orderedByte_eq, hdiv, hmod, Nat.add_assoc,
        hread k hk]
  · intro a ha
    rw [overwrite_of_not_mem (by omega)]
    exact h.frame a (by omega)

variable (interleaving : Bool)

/-- The paths of the conversions of gray pixels. -/
theorem IsGray.paths (h : IsGray conversion) :
    (conversion.operation interleaving).numLanes = 16 ∧
    (conversion.operation interleaving).isUnrolledTwice = false ∧
    (∀ src dst m, (conversion.operation interleaving).vectorPath2x src dst m =
      (conversion.operation interleaving).vectorPath (fun p => src p + 16 * conversion.inN)
        (fun p => dst p + 16 * conversion.outN)
        ((conversion.operation interleaving).vectorPath src dst m)) ∧
    (∀ src dst m, (conversion.operation interleaving).vectorPath src dst m =
      overwrite m (dst 0) (16 * conversion.outN)
        (orderedByte conversion.order 1 conversion.outN m (src 0))) ∧
    ∀ src dst m, (conversion.operation interleaving).scalarPath src dst m =
      overwrite m (dst 0) (1 * conversion.outN)
        (orderedByte conversion.order 1 conversion.outN m (src 0)) := by
  obtain rfl | rfl := h
  · refine ⟨rfl, rfl, fun _ _ _ => rfl, fun src dst m => ?_, fun src dst m => grayScalar_three m⟩
    cases interleaving with
    | true =>
      show interleavingPath gray 1 3 (src 0) (dst 0) m = _
      exact interleavingPath_eq (src 0) (dst 0) m
    | false =>
      show tablePath grayToRgbVectors 1 3 (src 0) (dst 0) m = _
      exact tablePath_eq grayToRgb_orders (by decide)
        (ColourConversion.order_within .grayToRgb) _ _ m
  · refine ⟨rfl, rfl, fun _ _ _ => rfl, fun src dst m => ?_,
      fun src dst m => alphaScalar_eq (grayScalar_three m)⟩
    cases interleaving with
    | true =>
      show interleavingPath (withAlpha gray) 1 4 (src 0) (dst 0) m = _
      exact interleavingPath_eq (src 0) (dst 0) m
    | false =>
      show tablePath grayToRgbaVectors 1 4 (src 0) (dst 0) m = _
      exact tablePath_eq grayToRgba_orders (by decide)
        (ColourConversion.order_within .grayToRgba) _ _ m

/-- A gray image and its conversion at one address. -/
def grayRows (conversion : ColourConversion) (base stride : ℕ) : PlaneRows :=
  ⟨1, fun _ => ⟨base, stride, conversion.inN⟩, 1, fun _ => ⟨base, stride, conversion.outN⟩⟩

/-- A row in place: vectors from the first pixel on, then pixels. -/
theorem IsGray.row (hgray : IsGray conversion) {stride row : ℕ} (m : Mem) :
    GrayInPlace conversion.outN width (base + row * stride) m width
      (((conversion.operation interleaving).adapter (grayRows conversion base stride)).processRow
        row width m) := by
  obtain ⟨hlanes, htwice, hvector2x, hvector, hscalar⟩ := hgray.paths interleaving
  set op := (conversion.operation interleaving).adapter (grayRows conversion base stride) with hop
  have hlanes' : op.numLanes = 16 := hlanes
  have hend : op.vectorEnd width = width / 16 * 16 := by
    rw [RowOperation.vectorEnd, hlanes']
    simp only [hop, PlaneOperation.adapter, htwice, Bool.not_false, if_true, Bool.false_eq_true,
      false_and, if_false]
  have hpointers : ∀ i, pointersAt (grayRows conversion base stride).src row i 0 =
        base + row * stride + i ∧
      pointersAt (grayRows conversion base stride).dst row i 0 =
        base + row * stride + i * conversion.outN := by
    intro i
    simp only [pointersAt, grayRows, hgray.inN, Nat.mul_one, and_self]
  -- A vector starts at a multiple of its length, so the first one reads what nothing wrote.
  have hblock : ∀ i, i + 16 ≤ width / 16 * 16 → ∀ s,
      (i % 16 = 0 ∧ GrayInPlace conversion.outN width (base + row * stride) m i s) →
      (i + 16) % 16 = 0 ∧ GrayInPlace conversion.outN width (base + row * stride) m (i + 16)
        (op.vectorPath row i s) := by
    rintro i hi s ⟨hmod, hs⟩
    refine ⟨by omega, ?_⟩
    show GrayInPlace _ _ _ _ _ ((conversion.operation interleaving).vectorPath _ _ s)
    rw [hvector, (hpointers i).1, (hpointers i).2]
    exact hs.step hgray fun k hk => hs.read hgray.outN (fun h0 => .inr (by omega))
      fun h0 => ⟨by omega, by omega⟩
  have hrow : (width ≤ width / 16 * 16 → width % 16 = 0) ∧ GrayInPlace conversion.outN width
      (base + row * stride) m width (op.processRow row width m) := by
    refine RowOperation.processRow_columns
      (fun i s => (i ≤ width / 16 * 16 → i % 16 = 0) ∧
        GrayInPlace conversion.outN width (base + row * stride) m i s)
      (by omega : 0 < op.numLanes)
      ⟨fun _ => rfl, ⟨fun x hx => absurd hx (Nat.not_lt_zero x), fun _ _ => rfl⟩⟩ ?_ ?_ ?_
    · rintro i hi s ⟨hmod, hs⟩
      rw [hend, hlanes'] at hi
      have hfirst := hblock i (by omega) s ⟨hmod (by omega), hs⟩
      have hsecond := hblock (i + 16) (by omega) _ hfirst
      have htwo : op.vectorPath2x row i s = op.vectorPath row (i + 16) (op.vectorPath row i s) := by
        show (conversion.operation interleaving).vectorPath2x _ _ s = _
        rw [hvector2x]
        refine congrFun (congrArg₂ (conversion.operation interleaving).vectorPath ?_ ?_) _ <;>
        · funext p
          simp only [pointersAt, grayRows, Nat.add_mul]
          omega
      rw [hlanes', htwo]
      exact ⟨fun _ => hsecond.1, hsecond.2⟩
    · rintro i j hij hji hback hi s ⟨hmod, hs⟩
      obtain rfl : i = j := hback.resolve_right Bool.false_ne_true
      rw [hend, hlanes'] at hi
      have hnext := hblock i hi s ⟨hmod (by omega), hs⟩
      rw [hlanes']
      exact ⟨fun _ => hnext.1, hnext.2⟩
    · rintro i hi hlt s ⟨hmod, hs⟩
      rw [hend] at hi
      refine ⟨fun hle => by omega, ?_⟩
      show GrayInPlace _ _ _ _ _ ((conversion.operation interleaving).scalarPath _ _ s)
      rw [hscalar, (hpointers i).1, (hpointers i).2]
      refine hs.step hgray fun k hk => hs.read hgray.outN (fun h0 => .inl (by omega)) fun h0 => ?_
      exact ⟨by omega, by omega⟩
  exact hrow.2

/-- **A gray image converted in place**, in either build, on rows of `stride` bytes: a pixel is
filled with its own gray value only in the first vector of a row, or in the first pixel of a row
that is narrower; every other pixel is filled with what `inPlaceGray` finds in the bytes that
pixels before it were written to. -/
theorem IsGray.image (hgray : IsGray conversion) {height stride : ℕ}
    (hrows : width * conversion.outN ≤ stride ∨ height ≤ 1)
    (hsize : width * height < sizeMod) (m : Mem) :
    ∀ y < height, ∀ x < width, ∀ c < conversion.outN,
      (conversion.operation interleaving).applyOperationByRows (grayRows conversion base stride)
        width height m (base + y * stride + (x * conversion.outN + c)) =
      if c = 3 then 0xff
      else inPlaceGray conversion.outN width (fun x => m (base + y * stride + x)) x := by
  intro y hy x hx c hc
  have hout := hgray.outN
  have hcontinuous : (grayRows conversion base stride).continuous width = false := by
    refine Bool.eq_false_iff.mpr fun htrue => ?_
    obtain ⟨hsrc, hdst⟩ := (grayRows conversion base stride).strides_of_continuous htrue
    have h1 : stride = width * conversion.inN := hsrc 0 Nat.one_pos
    have h2 : stride = width * conversion.outN := hdst 0 Nat.one_pos
    have hle := Nat.mul_le_mul_left width hout
    rw [hgray.inN] at h1
    omega
  rw [PlaneOperation.applyOperationByRows, zipRows_eq _ hsize, hcontinuous]
  simp only [Bool.false_eq_true, if_false]
  -- The rows that are done, and the rest of memory as it was.
  have hall := forRange_invariant
    (fun row s => (∀ y < row, ∀ x < width, ∀ c < conversion.outN,
        s (base + y * stride + (x * conversion.outN + c)) = if c = 3 then 0xff
          else inPlaceGray conversion.outN width (fun x => m (base + y * stride + x)) x) ∧
      (row < height → ∀ a, base + row * stride ≤ a → s a = m a))
    (s := m) (n := height) (f := fun row =>
      ((conversion.operation interleaving).adapter (grayRows conversion base stride)).processRow
        row width) ⟨fun y hy => absurd hy (Nat.not_lt_zero y), fun _ _ _ => rfl⟩ ?_
  · exact hall.1 y hy x hx c hc
  · rintro row hrow s ⟨hdone, hframe⟩
    have hlater := hframe hrow
    have hconverted : GrayInPlace conversion.outN width (base + row * stride) s width
        (((conversion.operation interleaving).adapter
          (grayRows conversion base stride)).processRow row width s) := hgray.row interleaving s
    obtain ⟨hpixel, hkept⟩ := hconverted
    have hnext : ∀ y next, y < next → next < height →
        y * stride + width * conversion.outN ≤ next * stride := by
      intro y next hy hlt
      have hle := Nat.mul_le_mul_right stride (Nat.succ_le_of_lt hy)
      rw [Nat.succ_mul] at hle
      have hgap := hrows.resolve_right (by omega)
      omega
    refine ⟨fun y hy x hx c hc => ?_, fun hlt a ha => ?_⟩
    · by_cases hyrow : y < row
      · have hbefore := hnext y row hyrow hrow
        have hbyte := Nat.mul_le_mul_right conversion.outN (Nat.succ_le_of_lt hx)
        rw [Nat.succ_mul] at hbyte
        rw [hkept _ (.inl (by omega))]
        exact hdone y hyrow x hx c hc
      · obtain rfl : y = row := by omega
        rw [hpixel x hx c hc]
        have hgray' : (fun x => s (base + y * stride + x)) = fun x => m (base + y * stride + x) :=
          funext fun x => hlater _ (by omega)
        rw [hgray']
    · have hbefore := hnext row (row + 1) (Nat.lt_succ_self row) hlt
      rw [hkept a (.inr (by omega))]
      exact hlater a (by omega)

/-- Rows that are narrower than a vector get one gray value. -/
theorem inPlaceGray_narrow (row : ℕ → U8) (hwidth : width < 16) (x : ℕ) :
    inPlaceGray 3 width row x = row 0 := by
  induction x using Nat.strong_induction_on with
  | _ x ih =>
    rw [inPlaceGray]
    by_cases hx : x = 0
    · rw [if_pos (.inl hx), hx]
    · rw [if_neg (by omega), if_neg (by omega)]
      exact ih (x / 3) (Nat.div_lt_self (by omega) (by omega))

end

end ColourOrder

open ColourOrder

/-- **Gray images converted in place**: where a call succeeds, in either build, pixel `x` of a row
is filled with `inPlaceGray`, which past the first vector is the gray value of another pixel or
0xff.  So the call converts the image exactly if every pixel happens to have that value, and
with rows narrower than a vector, to RGB, exactly if all pixels of a row are alike. -/
theorem convertColours_gray_in_place {conversion : ColourConversion} (hgray : IsGray conversion)
    (interleaving : Bool) {base stride width height : ℕ} {m : Mem}
    (hrows : width * conversion.outN ≤ stride ∨ height ≤ 1)
    (hok : (convertColours (conversion.operation interleaving) conversion.inN conversion.outN base
      stride base stride width height m).1 = .ok) :
    let result := (convertColours (conversion.operation interleaving) conversion.inN
      conversion.outN base stride base stride width height m).2
    let row := fun y x => m (base + y * stride + x)
    let converted := ∀ y < height, ∀ x < width, ∀ c < 3,
      result (base + y * stride + (x * conversion.outN + c)) = row y x
    (∀ y < height, ∀ x < width, ∀ c < conversion.outN,
      result (base + y * stride + (x * conversion.outN + c)) =
        if c = 3 then 0xff else inPlaceGray conversion.outN width (row y) x) ∧
    (converted ↔ ∀ y < height, ∀ x < width,
      inPlaceGray conversion.outN width (row y) x = row y x) ∧
    (conversion = .grayToRgb → width < 16 →
      (converted ↔ ∀ y < height, ∀ x < width, row y x = row y 0)) := by
  intro result row converted
  have hout := hgray.outN
  have hvalue : ∀ y < height, ∀ x < width, ∀ c < conversion.outN,
      result (base + y * stride + (x * conversion.outN + c)) =
        if c = 3 then 0xff else inPlaceGray conversion.outN width (row y) x := by
    obtain ⟨hsize, hresult⟩ := convertColours_of_ok hok
    rw [show result = _ from hresult]
    exact hgray.image interleaving hrows hsize m
  have hconverted : converted ↔ ∀ y < height, ∀ x < width,
      inPlaceGray conversion.outN width (row y) x = row y x := by
    constructor
    · intro h y hy x hx
      have hfirst := hvalue y hy x hx 0 (by omega)
      rw [if_neg (by decide)] at hfirst
      rw [← hfirst]
      exact h y hy x hx 0 (by decide)
    · intro h y hy x hx c hc
      rw [hvalue y hy x hx c (by omega), if_neg (by omega)]
      exact h y hy x hx
  refine ⟨hvalue, hconverted, ?_⟩
  rintro rfl hwidth
  rw [hconverted]
  refine forall_congr' fun y => forall_congr' fun _ => ?_
  refine forall_congr' fun x => forall_congr' fun _ => ?_
  rw [show ColourConversion.outN .grayToRgb = 3 from rfl, inPlaceGray_narrow (row y) hwidth]
  exact eq_comm

/-- Two gray pixels in place: the second is lost. -/
theorem convertColours_gray_in_place_twoPixels :
    ¬∀ y < 1, ∀ x < 2, ∀ c < 3, (convertColours (ColourConversion.grayToRgb.operation false) 1 3
      1000 6 1000 6 2 1 fun a => Fin.ofNat 256 a).2 (1000 + y * 6 + (x * 3 + c)) =
        Fin.ofNat 256 (1000 + y * 6 + x) := by
  obtain ⟨-, -, hnarrow⟩ := convertColours_gray_in_place (.inl rfl : IsGray .grayToRgb) false
    (.inl (by decide : 2 * 3 ≤ 6))
    (rfl : (convertColours (ColourConversion.grayToRgb.operation false) 1 3 1000 6 1000 6 2 1
      fun a => Fin.ofNat 256 a).1 = .ok)
  intro h
  have hsame := (hnarrow rfl (by decide)).mp h 0 (by decide) 1 (by decide)
  revert hsame
  decide

end KleidiCV
