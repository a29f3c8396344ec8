/-
The entry points of `resize_linear`: which sizes are implemented, which kernel
takes them, and the threaded versions.

* `resizeLinear_unchanged_iff` — when a call changes nothing outside of the
  destination image;
* `threadResizeLinear_agrees_iff` — when the threaded entry points answer like
  the others, with no more tasks than there are rows.
-/
import KleidiCV.ResizeGenericU8
import KleidiCV.ResizeLinearF32
import KleidiCV.ResizeLinearU8

namespace KleidiCV

/-- The arguments of a call; pointers and strides count bytes. -/
structure ResizeCall where
  src : ℕ
  srcStride : ℕ
  srcWidth : ℕ
  srcHeight : ℕ
  dst : ℕ
  dstStride : ℕ
  dstWidth : ℕ
  dstHeight : ℕ
  channels : ℕ

/-- `KLEIDICV_RESIZE_MAX_WIDTH_OR_HEIGHT`. -/
def kleidicvResizeMaxWidthOrHeight : ℕ := 2 ^ 24 - 1

namespace ResizeCall

variable (r : ResizeCall)

def tooLarge : Bool :=
  decide (kleidicvResizeMaxWidthOrHeight < r.srcWidth ∨ kleidicvResizeMaxWidthOrHeight < r.srcHeight ∨
    kleidicvResizeMaxWidthOrHeight < r.dstWidth ∨ kleidicvResizeMaxWidthOrHeight < r.dstHeight)

def isEmpty : Bool := decide (r.srcWidth = 0 ∨ r.srcHeight = 0)

def hasRatio (ratio : ℕ) : Bool :=
  decide (r.srcWidth * ratio = r.dstWidth ∧ r.srcHeight * ratio = r.dstHeight)

def isToQuarter : Bool := decide (r.srcWidth = 2 * r.dstWidth ∧ r.srcHeight = 2 * r.dstHeight)

/-- `CHECK_POINTER_AND_STRIDE` for source and destination, for a type of `sz`
bytes. -/
def checkPointersAndStrides (sz : ℕ) : KleidicvError :=
  let error := checkPointerAndStride sz r.src r.srcStride r.srcHeight
  if error ≠ .ok then error else checkPointerAndStride sz r.dst r.dstStride r.dstHeight

end ResizeCall

/-- `resize_linear_u8_is_implemented`. -/
def resizeLinearU8IsImplemented (r : ResizeCall) : Bool :=
  if r.tooLarge ∨ r.channels = 0 then false
  else if r.isEmpty then true
  else if r.isToQuarter ∧ r.channels ≤ 4 then true
  else if r.channels = 1 ∧ [2, 4].any r.hasRatio then true
  else if r.channels ≤ 4 ∧ r.srcWidth ≤ r.dstWidth then decide (16 ≤ r.srcWidth * r.channels)
  else if r.channels ≤ 4 ∧ r.srcWidth ≤ r.dstWidth * 3 ∧ r.dstWidth < r.srcWidth then
    if r.dstWidth * r.channels < 8 then false
    else if r.srcWidth ≤ r.dstWidth * 2 ∧ r.channels ≠ 3 then decide (16 ≤ r.srcWidth * r.channels)
    else decide (32 ≤ r.srcWidth * r.channels)
  else false

/-- `resize_linear_u8_is_2x2`. -/
def resizeLinearU8Is2x2 (r : ResizeCall) : Bool := r.channels = 1 && r.hasRatio 2

/-- `resize_linear_u8_is_4x4`. -/
def resizeLinearU8Is4x4 (r : ResizeCall) : Bool := r.channels = 1 && r.hasRatio 4

/-- `resize_linear_f32_is_implemented`. -/
def resizeLinearF32IsImplemented (r : ResizeCall) : Bool :=
  if r.tooLarge then false
  else if r.channels ≠ 1 then false
  else if r.isEmpty then true
  else [2, 4, 8].any r.hasRatio

/-- The ratio of the generic kernel that `resize_linear_stripe_u8` picks. -/
def genericRatio (r : ResizeCall) : ℕ :=
  if r.channels = 1 then
    if r.srcWidth * 15 < r.dstWidth * 14 then 1
    else if r.srcWidth ≤ r.dstWidth * 2 then 2
    else 3
  else if r.channels = 2 then
    if r.srcWidth * 7 < r.dstWidth * 6 then 1
    else if r.srcWidth ≤ r.dstWidth * 2 then 2
    else 3
  else if r.channels = 3 then
    if r.srcWidth * 3 < r.dstWidth * 2 then 1
    else if r.srcWidth ≤ r.dstWidth then 2
    -- The quotient is compared with 1.8 in `double`; below 2 ^ 24 that is exact.
    else if r.srcWidth * 5 < r.dstWidth * 9 then 2
    else 3
  else
    if r.srcWidth * 3 < r.dstWidth * 2 then 1
    else if r.srcWidth ≤ r.dstWidth * 2 then 2
    else 3

section

variable (malloc : ℕ → Bool) (resized : ResizedU8) (src : Mem)

/-- `resize_linear_stripe_u8<false>`. -/
def resizeLinearStripeU8 (r : ResizeCall) (yBegin yEnd : ℕ) (m : Mem) : KleidicvError × Mem :=
  if r.isToQuarter then
    let srcBegin := yBegin * 2
    let srcEnd := min r.srcHeight (yEnd * 2)
    kleidicvResizeToQuarterU8 r.channels resized r.srcWidth (sizeSub srcEnd srcBegin)
      (r.dst + yBegin * r.dstStride) r.dstStride m
  else
    kleidicvResizeGenericStripeU8 (genericRatio r) r.channels malloc resized r.srcWidth yBegin yEnd
      r.dst r.dstStride r.dstWidth m

/-- `kleidicv_resize_linear_u8`. -/
def kleidicvResizeLinearU8 (r : ResizeCall) (m : Mem) : KleidicvError × Mem :=
  if !resizeLinearU8IsImplemented r then (.notImplemented, m)
  else if r.checkPointersAndStrides 1 ≠ .ok then (r.checkPointersAndStrides 1, m)
  else if r.isEmpty then (.ok, m)
  else if resizeLinearU8Is2x2 r then
    resize2x2U8.stripe src r.src r.srcStride r.srcWidth r.srcHeight 0 r.srcHeight r.dst r.dstStride m
  else if resizeLinearU8Is4x4 r then
    resize4x4U8.stripe src r.src r.srcStride r.srcWidth r.srcHeight 0 r.srcHeight r.dst r.dstStride m
  else resizeLinearStripeU8 malloc resized r 0 r.dstHeight m

end

section

variable {α : Type} (ops : FloatOps α) (src : ℕ → α)

/-- `kleidicv_resize_linear_stripe_f32`. -/
def kleidicvResizeLinearStripeF32 (r : ResizeCall) (yBegin yEnd : ℕ) (m : ℕ → α) :
    KleidicvError × (ℕ → α) :=
  if r.checkPointersAndStrides 4 ≠ .ok then (r.checkPointersAndStrides 4, m)
  else if r.isEmpty then (.ok, m)
  else if r.hasRatio 2 then
    (resize2x2F32 ops).stripe src (r.src / 4) (r.srcStride / 4) r.srcWidth r.srcHeight yBegin yEnd
      (r.dst / 4) (r.dstStride / 4) m
  else if r.hasRatio 4 then
    (resize4x4F32 ops).stripe src (r.src / 4) (r.srcStride / 4) r.srcWidth r.srcHeight yBegin yEnd
      (r.dst / 4) (r.dstStride / 4) m
  else if r.hasRatio 8 then
    Resize8x8F32.stripe ops src (r.src / 4) (r.srcStride / 4) r.srcWidth r.srcHeight yBegin yEnd
      (r.dst / 4) (r.dstStride / 4) m
  else (.notImplemented, m)

/-- `kleidicv_resize_linear_f32`. -/
def kleidicvResizeLinearF32 (r : ResizeCall) (m : ℕ → α) : KleidicvError × (ℕ → α) :=
  if !resizeLinearF32IsImplemented r then (.notImplemented, m)
  else kleidicvResizeLinearStripeF32 ops src r 0 r.srcHeight m

end

/-! ### The threaded entry points -/

/-- What a threaded entry point does: it answers at once, or hands `count` tasks to
the scheduler. -/
inductive ThreadedCall (σ : Type)
  | answered (error : KleidicvError)
  | batches (callback : ℕ → ℕ → σ → KleidicvError × σ) (count : ℕ)

namespace ThreadedCall

variable {σ : Type}

/-- The tasks handed to the scheduler. -/
def tasks : ThreadedCall σ → ℕ
  | answered _ => 0
  | batches _ count => taskCount count 1

/-- A run with a scheduler. -/
def run (mt : ∀ n, Multithreading n) (s : σ) : ThreadedCall σ → KleidicvError × σ
  | answered error => (error, s)
  | batches callback count => runParallelBatches callback count 1 (mt _) s

end ThreadedCall

/-- `kleidicv_thread_resize_linear_u8`. -/
def kleidicvThreadResizeLinearU8 (malloc : ℕ → Bool) (resized : ResizedU8) (src : Mem)
    (r : ResizeCall) : ThreadedCall Mem :=
  if !resizeLinearU8IsImplemented r then .answered .notImplemented
  else if r.checkPointersAndStrides 1 ≠ .ok then .answered (r.checkPointersAndStrides 1)
  else if r.isEmpty then .answered .ok
  else if resizeLinearU8Is2x2 r then
    .batches (resize2x2U8.batch src r.src r.srcStride r.srcWidth r.srcHeight r.dst r.dstStride)
      (max 1 (sizeSub r.srcHeight 1))
  else if resizeLinearU8Is4x4 r then
    .batches (resize4x4U8.batch src r.src r.srcStride r.srcWidth r.srcHeight r.dst r.dstStride)
      (max 1 (sizeSub r.srcHeight 1))
  else .batches (resizeLinearStripeU8 malloc resized r) r.dstHeight

/-- `kleidicv_thread_resize_linear_f32`; pointers, strides and empty images are left
to the callback. -/
def kleidicvThreadResizeLinearF32 {α : Type} (ops : FloatOps α) (src : ℕ → α) (r : ResizeCall) :
    ThreadedCall (ℕ → α) :=
  if !resizeLinearF32IsImplemented r then .answered .notImplemented
  else
    .batches (fun yBegin yEnd =>
        kleidicvResizeLinearStripeF32 ops src r yBegin (min r.srcHeight ((yEnd + 1) % sizeMod)))
      (max 1 (sizeSub r.srcHeight 1))

/-! ### What a call changes -/

/-- Implemented, with valid pointers and strides. -/
def ResizeCall.AcceptedU8 (r : ResizeCall) : Prop :=
  resizeLinearU8IsImplemented r = true ∧ r.checkPointersAndStrides 1 = .ok

def ResizeCall.AcceptedF32 (r : ResizeCall) : Prop :=
  resizeLinearF32IsImplemented r = true ∧ r.checkPointersAndStrides 4 = .ok

section

variable {r : ResizeCall}

theorem ResizeCall.not_isEmpty_iff : ¬r.isEmpty ↔ 0 < r.srcWidth ∧ 0 < r.srcHeight := by
  simp only [ResizeCall.isEmpty, decide_eq_true_eq]
  omega

theorem ResizeCall.hasRatio_iff {ratio : ℕ} :
    r.hasRatio ratio = true ↔ r.srcWidth * ratio = r.dstWidth ∧ r.srcHeight * ratio = r.dstHeight :=
  decide_eq_true_iff

/-- A call has one ratio at most. -/
theorem ResizeCall.hasRatio_unique {a b : ℕ} (hempty : ¬r.isEmpty) (ha : r.hasRatio a)
    (hb : r.hasRatio b) : a = b := by
  have hw := (ResizeCall.not_isEmpty_iff.mp hempty).1
  have heq := (ResizeCall.hasRatio_iff.mp ha).1.trans (ResizeCall.hasRatio_iff.mp hb).1.symm
  exact Nat.eq_of_mul_eq_mul_left hw heq

theorem ResizeCall.not_tooLarge_iff : ¬r.tooLarge ↔
    r.srcWidth < 2 ^ 24 ∧ r.srcHeight < 2 ^ 24 ∧ r.dstWidth < 2 ^ 24 ∧ r.dstHeight < 2 ^ 24 := by
  unfold ResizeCall.tooLarge kleidicvResizeMaxWidthOrHeight
  rw [decide_eq_true_iff]
  omega

/-- The sizes of an implemented call, and what the generic kernels need of it where
they are reached. -/
theorem u8_sizes (h : resizeLinearU8IsImplemented r = true) :
    ¬r.tooLarge ∧ (¬r.isEmpty → ¬r.isToQuarter → ¬resizeLinearU8Is2x2 r → ¬resizeLinearU8Is4x4 r →
      r.channels ∈ [1, 2, 3, 4] ∧ 8 ≤ r.dstWidth * r.channels) := by
  rw [resizeLinearU8IsImplemented] at h
  by_cases hlimit : r.tooLarge ∨ r.channels = 0
  · rw [if_pos hlimit] at h
    exact absurd h Bool.false_ne_true
  obtain ⟨hlarge, hch⟩ := not_or.mp hlimit
  refine ⟨hlarge, fun hempty hquarter h2 h4 => ?_⟩
  have hratio : ¬(r.channels = 1 ∧ [2, 4].any r.hasRatio) := by
    rintro ⟨hone, hany⟩
    simp only [List.any_cons, List.any_nil, Bool.or_false, Bool.or_eq_true] at hany
    rcases hany with hany | hany
    · exact h2 (by simp [resizeLinearU8Is2x2, hone, hany])
    · exact h4 (by simp [resizeLinearU8Is4x4, hone, hany])
  rw [if_neg hlimit, if_neg hempty, if_neg fun hq => hquarter hq.1, if_neg hratio] at h
  have hchannels : r.channels ≤ 4 → r.channels ∈ [1, 2, 3, 4] := fun hle => by
    simp only [List.mem_cons, List.not_mem_nil, or_false]
    omega
  -- Up, and down.
  split_ifs at h with hup hdown hsmall hhalf
  · have hwide := Nat.mul_le_mul_right r.channels hup.2
    exact ⟨hchannels hup.1, by have := of_decide_eq_true h; omega⟩
  · exact ⟨hchannels hdown.1, Nat.not_lt.mp hsmall⟩
  · exact ⟨hchannels hdown.1, Nat.not_lt.mp hsmall⟩

theorem f32_ratio (h : resizeLinearF32IsImplemented r = true) (hempty : ¬r.isEmpty) :
    r.channels = 1 ∧ (r.hasRatio 2 ∨ r.hasRatio 4 ∨ r.hasRatio 8) := by
  rw [resizeLinearF32IsImplemented] at h
  split_ifs at h with hlarge hch
  refine ⟨Classical.not_not.mp hch, ?_⟩
  simpa [List.any_cons, List.any_nil, Bool.or_false, Bool.or_eq_true] using h

/-- The destination of a call, in elements. -/
def ResizeCall.dstRows (r : ResizeCall) (sz : ℕ) : Rows := ⟨r.dst / sz, r.dstStride / sz, 1⟩

theorem resizeLinearStripeU8_unchanged {malloc : ℕ → Bool} {resized : ResizedU8}
    (himpl : resizeLinearU8IsImplemented r = true) (hempty : ¬r.isEmpty)
    (h2 : ¬resizeLinearU8Is2x2 r) (h4 : ¬resizeLinearU8Is4x4 r) (m : Mem) :
    UnchangedOutside ((r.dstRows 1).image (r.dstWidth * r.channels) r.dstHeight) m
      (resizeLinearStripeU8 malloc resized r 0 r.dstHeight m).2 := by
  have hrows : r.dstRows 1 = ⟨r.dst, r.dstStride, 1⟩ := by
    rw [ResizeCall.dstRows, Nat.div_one, Nat.div_one]
  obtain ⟨hlarge, hgeneric⟩ := u8_sizes himpl
  obtain ⟨-, hheight, hwidth, hdst⟩ := ResizeCall.not_tooLarge_iff.mp hlarge
  rw [resizeLinearStripeU8, hrows]
  split
  · rename_i hquarter
    obtain ⟨hqw, hqh⟩ := of_decide_eq_true hquarter
    have hend : sizeSub (min r.srcHeight (r.dstHeight * 2)) (0 * 2) = r.srcHeight := by
      have hmin : min r.srcHeight (r.dstHeight * 2) = r.srcHeight := by omega
      rw [hmin, Nat.zero_mul, sizeSub_eq (Nat.zero_le _) (by rw [sizeMod]; omega), Nat.sub_zero]
    dsimp only
    rw [hend, Nat.zero_mul, Nat.add_zero]
    exact resizeToQuarterU8_unchanged ⟨r.dst, r.dstStride, 1⟩ hqw hqh m
  · rename_i hquarter
    obtain ⟨hch, hmin⟩ := hgeneric hempty hquarter h2 h4
    have hch4 : r.channels ≤ 4 := by
      simp only [List.mem_cons, List.not_mem_nil, or_false] at hch
      omega
    have hsize : r.dstWidth * r.channels < sizeMod := by
      calc r.dstWidth * r.channels ≤ 2 ^ 24 * 4 := Nat.mul_le_mul hwidth.le hch4
        _ < sizeMod := by decide
    exact resizeGenericStripeU8_unchanged ⟨r.dst, r.dstStride, 1⟩ hch hmin hsize le_rfl m

/-- The padding that a call may not change is kept: that of the copied rows, when it
enlarges by four. -/
def ResizeCall.PaddingKept {α : Type} (r : ResizeCall) (sz : ℕ) (m : ℕ → α) : Prop :=
  r.isEmpty = false → r.channels = 1 → r.hasRatio 4 = true →
    FixedScale.PaddingKept (r.dstRows sz) r.dstWidth r.dstHeight m

theorem resizeLinearU8_unchanged_iff {malloc : ℕ → Bool} {resized : ResizedU8} {src : Mem}
    (hr : r.AcceptedU8) (hstride : r.dstWidth * r.channels ≤ r.dstStride) (m : Mem) :
    UnchangedOutside ((r.dstRows 1).image (r.dstWidth * r.channels) r.dstHeight) m
        (kleidicvResizeLinearU8 malloc resized src r m).2 ↔ r.PaddingKept 1 m := by
  obtain ⟨himpl, hchecks⟩ := hr
  have hrows : r.dstRows 1 = ⟨r.dst, r.dstStride, 1⟩ := by
    rw [ResizeCall.dstRows, Nat.div_one, Nat.div_one]
  simp only [kleidicvResizeLinearU8, himpl, hchecks, Bool.not_true, Bool.false_eq_true, if_false,
    ne_eq, not_true_eq_false]
  by_cases hempty : r.isEmpty = true
  · rw [if_pos hempty]
    refine iff_of_true (UnchangedOutside.refl m) fun hcon => ?_
    rw [hempty] at hcon
    exact absurd hcon (by decide)
  have hempty' : r.isEmpty = false := by simpa using hempty
  obtain ⟨hw, hh⟩ := ResizeCall.not_isEmpty_iff.mp hempty
  rw [if_neg hempty]
  by_cases h2 : resizeLinearU8Is2x2 r = true
  · obtain ⟨hone, hratio⟩ : r.channels = 1 ∧ r.hasRatio 2 = true := by
      simpa [resizeLinearU8Is2x2] using h2
    obtain ⟨hdw, hdh⟩ := ResizeCall.hasRatio_iff.mp hratio
    rw [if_pos h2, hone, Nat.mul_one, hrows, ← hdw, ← hdh]
    rw [hone, Nat.mul_one, ← hdw] at hstride
    refine (FixedScale.stripe_unchanged_iff resize2x2U8 ⟨r.dst, r.dstStride, 1⟩ src r.src
      r.srcStride hw hh hstride m).trans (iff_of_true (fun hcon => ?_) fun _ _ h4 => ?_)
    · exact absurd hcon (by decide)
    · exact absurd (ResizeCall.hasRatio_unique hempty hratio h4) (by decide)
  by_cases h4 : resizeLinearU8Is4x4 r = true
  · obtain ⟨hone, hratio⟩ : r.channels = 1 ∧ r.hasRatio 4 = true := by
      simpa [resizeLinearU8Is4x4] using h4
    obtain ⟨hdw, hdh⟩ := ResizeCall.hasRatio_iff.mp hratio
    have hkept : r.PaddingKept 1 m ↔
        FixedScale.PaddingKept ⟨r.dst, r.dstStride, 1⟩ (r.srcWidth * 4) (r.srcHeight * 4) m := by
      rw [ResizeCall.PaddingKept, hrows, hdw, hdh]
      exact ⟨fun h => h hempty' hone hratio, fun h _ _ _ => h⟩
    rw [if_neg h2, if_pos h4, hone, Nat.mul_one, hrows, hkept, ← hdw, ← hdh]
    rw [hone, Nat.mul_one, ← hdw] at hstride
    refine (FixedScale.stripe_unchanged_iff resize4x4U8 ⟨r.dst, r.dstStride, 1⟩ src r.src
      r.srcStride hw hh hstride m).trans ⟨fun h => h rfl, fun h _ => h⟩
  · rw [if_neg h2, if_neg h4]
    refine iff_of_true (resizeLinearStripeU8_unchanged himpl hempty h2 h4 m) fun _ hone hratio => ?_
    exact absurd (by simp [resizeLinearU8Is4x4, hone, hratio]) h4

theorem resizeLinearF32_unchanged_iff {α : Type} {ops : FloatOps α} {src : ℕ → α}
    (hr : r.AcceptedF32) (hstride : r.dstWidth * 4 ≤ r.dstStride) (m : ℕ → α) :
    UnchangedOutside ((r.dstRows 4).image r.dstWidth r.dstHeight) m
        (kleidicvResizeLinearF32 ops src r m).2 ↔ r.PaddingKept 4 m := by
  obtain ⟨himpl, hchecks⟩ := hr
  have hrow : r.dstWidth ≤ (r.dstRows 4).stride := (Nat.le_div_iff_mul_le (by decide)).mpr hstride
  simp only [kleidicvResizeLinearF32, kleidicvResizeLinearStripeF32, himpl, hchecks, Bool.not_true,
    Bool.false_eq_true, if_false, ne_eq, not_true_eq_false]
  by_cases hempty : r.isEmpty = true
  · rw [if_pos hempty]
    refine iff_of_true (UnchangedOutside.refl m) fun hcon => ?_
    rw [hempty] at hcon
    exact absurd hcon (by decide)
  have hempty' : r.isEmpty = false := by simpa using hempty
  obtain ⟨hw, hh⟩ := ResizeCall.not_isEmpty_iff.mp hempty
  obtain ⟨hone, hratio⟩ := f32_ratio himpl hempty
  -- Only the ratio 4 leaves a condition.
  have hkept : ∀ ratio, r.hasRatio ratio → ratio ≠ 4 → r.PaddingKept 4 m := fun ratio h hne _ _ h4 =>
    absurd (ResizeCall.hasRatio_unique hempty h h4) hne
  rw [if_neg hempty]
  rcases hratio with h | h | h
  all_goals
    obtain ⟨hdw, hdh⟩ := ResizeCall.hasRatio_iff.mp h
    rw [← hdw] at hrow
  · rw [if_pos h, ← hdw, ← hdh]
    refine (FixedScale.stripe_unchanged_iff (resize2x2F32 ops) (r.dstRows 4) src (r.src / 4)
      (r.srcStride / 4) hw hh hrow m).trans (iff_of_true (fun hcon => ?_) (hkept 2 h (by decide)))
    exact absurd hcon (show ¬1 = 2 by decide)
  · have h2 : ¬r.hasRatio 2 := fun h2 =>
      absurd (ResizeCall.hasRatio_unique hempty h h2) (by decide)
    have hiff : r.PaddingKept 4 m ↔
        FixedScale.PaddingKept (r.dstRows 4) (r.srcWidth * 4) (r.srcHeight * 4) m := by
      rw [ResizeCall.PaddingKept, hdw, hdh]
      exact ⟨fun hk => hk hempty' hone h, fun hk _ _ _ => hk⟩
    rw [if_neg h2, if_pos h, hiff, ← hdw, ← hdh]
    exact (FixedScale.stripe_unchanged_iff (resize4x4F32 ops) (r.dstRows 4) src (r.src / 4)
      (r.srcStride / 4) hw hh hrow m).trans ⟨fun hk => hk rfl, fun hk _ => hk⟩
  · have h2 : ¬r.hasRatio 2 := fun h2 =>
      absurd (ResizeCall.hasRatio_unique hempty h h2) (by decide)
    have h4 : ¬r.hasRatio 4 := fun h4 =>
      absurd (ResizeCall.hasRatio_unique hempty h h4) (by decide)
    rw [if_neg h2, if_neg h4, if_pos h, ← hdw, ← hdh]
    exact iff_of_true (Resize8x8F32.stripe_unchanged hw hh le_rfl m) (hkept 8 h (by decide))

end

/-- **What a call changes outside of the destination image.**  Nothing, unless it
enlarges by four: there the padding of the first row and of the last but one is
copied to the row below, and nothing changes exactly if both have it already. -/
theorem resizeLinear_unchanged_iff (r : ResizeCall) :
    (r.AcceptedU8 → r.dstWidth * r.channels ≤ r.dstStride → ∀ malloc resized src m,
      (UnchangedOutside ((r.dstRows 1).image (r.dstWidth * r.channels) r.dstHeight) m
        (kleidicvResizeLinearU8 malloc resized src r m).2 ↔ r.PaddingKept 1 m)) ∧
    (r.AcceptedF32 → r.dstWidth * 4 ≤ r.dstStride → ∀ (α : Type) (ops : FloatOps α) src m,
      (UnchangedOutside ((r.dstRows 4).image r.dstWidth r.dstHeight) m
        (kleidicvResizeLinearF32 ops src r m).2 ↔ r.PaddingKept 4 m)) :=
  ⟨fun hr hstride _ _ _ => resizeLinearU8_unchanged_iff hr hstride,
    fun hr hstride _ _ _ => resizeLinearF32_unchanged_iff hr hstride⟩

/-- A pixel enlarged to 4 x 4 in a buffer with rows of 20 bytes. -/
theorem resizeLinear_unchanged_iff_pixel :
    let r : ResizeCall := ⟨400, 4, 1, 1, 400, 20, 4, 4, 1⟩
    (∀ malloc resized src m,
      (UnchangedOutside ((r.dstRows 1).image 4 4) m
        (kleidicvResizeLinearU8 malloc resized src r m).2 ↔ r.PaddingKept 1 m)) ∧
    ∀ (ops : FloatOps ℤ) src m,
      (UnchangedOutside ((r.dstRows 4).image 4 4) m
        (kleidicvResizeLinearF32 ops src r m).2 ↔ r.PaddingKept 4 m) :=
  ⟨(resizeLinear_unchanged_iff ⟨400, 4, 1, 1, 400, 20, 4, 4, 1⟩).1 ⟨by decide, by decide⟩ (by decide),
    (resizeLinear_unchanged_iff ⟨400, 4, 1, 1, 400, 20, 4, 4, 1⟩).2 ⟨by decide, by decide⟩ (by decide) ℤ⟩

/-- With rows of 5 bytes, the byte after the second row becomes that after the
first one. -/
theorem resizeLinearU8_changes_padding :
    ¬∀ r : ResizeCall, r.AcceptedU8 → r.dstWidth * r.channels ≤ r.dstStride →
      ∀ malloc resized src m,
        UnchangedOutside ((r.dstRows 1).image (r.dstWidth * r.channels) r.dstHeight) m
          (kleidicvResizeLinearU8 malloc resized src r m).2 := by
  intro hall
  let r : ResizeCall := ⟨400, 4, 1, 1, 100, 5, 4, 4, 1⟩
  have houtside : 109 ∉ (r.dstRows 1).image (r.dstWidth * r.channels) r.dstHeight := by
    rintro ⟨⟨y, x⟩, hy, hx, heq⟩
    replace hx : x < 4 := hx
    replace heq : 100 / 1 + y * (5 / 1) + x = 109 := heq
    omega
  have hsame := hall r ⟨by decide, by decide⟩ (by decide) (fun _ => true)
    ⟨fun _ _ _ => 0, fun _ _ _ => 0, fun _ _ _ => 0, fun _ _ _ => 0⟩ (fun _ => 0)
    (fun a => Fin.ofNat 256 a) 109 houtside
  revert hsame
  decide

/-! ### The threaded entry points answer like the others -/

/-- A threaded call does as the call `single`, for a class of schedulers: with the
same code, with no more tasks than there are rows, and without touching the
destination of an empty image. -/
structure ThreadedCall.Agrees {σ : Type} (schedulers : ∀ n, Multithreading n → Prop)
    (call : ThreadedCall σ) (single : σ → KleidicvError × σ) (r : ResizeCall) : Prop where
  error : ∀ mt, (∀ n, schedulers n (mt n)) → ∀ s, (call.run mt s).1 = (single s).1
  tasks : call.tasks ≤ max 1 (max r.srcHeight r.dstHeight)
  empty : r.isEmpty = true → ∀ mt s, (call.run mt s).2 = s

/-- The calls of `resize_linear_u8` that take a generic kernel. -/
def ResizeCall.IsGenericU8 (r : ResizeCall) : Prop :=
  r.AcceptedU8 ∧ ¬r.isEmpty ∧ ¬resizeLinearU8Is2x2 r ∧ ¬resizeLinearU8Is4x4 r ∧ ¬r.isToQuarter

/-- The bytes that a generic kernel allocates for its constants. -/
def ResizeCall.genericConstants (r : ResizeCall) : ℕ :=
  let num := ResizeGenericU8.calculateNumOfVectorPaths (genericRatio r) r.channels r.srcWidth
    r.dstWidth
  num.1 * 2 * 72 + num.2 * 48

namespace ThreadedCall

variable {σ : Type} {r : ResizeCall} {single : σ → KleidicvError × σ} {code : KleidicvError}
  {callback : ℕ → ℕ → σ → KleidicvError × σ} {count : ℕ}

theorem Agrees.answered (schedulers : ∀ n, Multithreading n → Prop)
    (hsingle : ∀ s, (single s).1 = code) : (ThreadedCall.answered code).Agrees schedulers single r where
  error := fun _ _ s => (hsingle s).symm
  tasks := Nat.zero_le _
  empty := fun _ _ _ => rfl

/-- Batches that all return the code of the single call. -/
theorem Agrees.batches {schedulers : ∀ n, Multithreading n → Prop}
    (hcode : code = .ok ∨ ∀ n mt, schedulers n mt → mt.HandsOn)
    (hcall : ∀ b e s, (callback b e s).1 = code) (hsingle : ∀ s, (single s).1 = code)
    (hcount : count ≤ max 1 (max r.srcHeight r.dstHeight))
    (hempty : r.isEmpty = true → ∀ b e s, (callback b e s).2 = s) :
    (ThreadedCall.batches callback count).Agrees schedulers single r where
  error := fun mt hmt s => by
    rw [hsingle]
    exact runParallelBatches_error_eq callback (mt _) s hcall (hcode.imp_right fun h => h _ _ (hmt _))
  tasks := by
    rw [ThreadedCall.tasks, taskCount, Nat.div_one]
    omega
  empty := fun hr mt s => by
    rw [run, runParallelBatches_state]
    induction parallelBatches count 1 (mt _).tasks with
    | nil => rfl
    | cons batch rest ih => rw [List.foldl_cons, hempty hr, ih]

/-- Batches that fail, under a scheduler with a code of its own. -/
theorem batches_not_agrees [Nonempty σ] (hcode : code ≠ .ok)
    (hcall : ∀ b e s, (callback b e s).1 = code) (hsingle : ∀ s, (single s).1 = code) :
    ¬(batches callback count).Agrees (fun _ _ => True) single r := by
  intro h
  obtain ⟨other, hother, hne⟩ : ∃ other, other ≠ KleidicvError.ok ∧ other ≠ code := by
    by_cases hrange : code = .range
    · exact ⟨.alignment, by decide, by rw [hrange]; decide⟩
    · exact ⟨.range, by decide, fun heq => hrange heq.symm⟩
  obtain ⟨s⟩ := ‹Nonempty σ›
  have herror := h.error (fun n => .answering n other hother) (fun _ => trivial) s
  rw [run, runParallelBatches_answering callback hother s hcall hcode, hsingle] at herror
  exact hne herror

end ThreadedCall

section

variable {r : ResizeCall}

theorem resizeLinearStripeU8_error (malloc : ℕ → Bool) (resized : ResizedU8) (yBegin yEnd : ℕ)
    (m : Mem) :
    (resizeLinearStripeU8 malloc resized r yBegin yEnd m).1 =
      if r.isToQuarter ∨ malloc r.genericConstants then .ok else .allocation := by
  rw [resizeLinearStripeU8]
  by_cases hquarter : r.isToQuarter
  · rw [if_pos hquarter, if_pos (Or.inl hquarter)]
    rfl
  · rw [if_neg hquarter, kleidicvResizeGenericStripeU8]
    by_cases hmalloc : malloc r.genericConstants
    · rw [if_pos (Or.inr hmalloc)]
      rw [ResizeCall.genericConstants] at hmalloc
      rw [if_pos hmalloc]
    · rw [if_neg (not_or.mpr ⟨hquarter, hmalloc⟩)]
      rw [ResizeCall.genericConstants] at hmalloc
      rw [if_neg hmalloc]

theorem resizeLinearStripeF32_error {α : Type} (ops : FloatOps α) (src : ℕ → α)
    (himpl : resizeLinearF32IsImplemented r = true) (yBegin yEnd : ℕ) (m : ℕ → α) :
    (kleidicvResizeLinearStripeF32 ops src r yBegin yEnd m).1 = r.checkPointersAndStrides 4 := by
  rw [kleidicvResizeLinearStripeF32]
  split_ifs with hchecks hempty h2 h4 h8
  · rfl
  all_goals rw [Classical.not_not.mp hchecks]
  -- An implemented call has one of the ratios.
  · rfl
  · rfl
  · rfl
  · exact absurd (f32_ratio himpl hempty).2 (by simp [h2, h4, h8])

/-- An empty image is left alone. -/
theorem resizeLinearStripeF32_empty {α : Type} (ops : FloatOps α) (src : ℕ → α)
    (hempty : r.isEmpty = true) (yBegin yEnd : ℕ) (m : ℕ → α) :
    (kleidicvResizeLinearStripeF32 ops src r yBegin yEnd m).2 = m := by
  rw [kleidicvResizeLinearStripeF32, if_pos hempty]
  split_ifs <;> rfl

/-- The gaps between the source rows. -/
theorem gaps_le (hlarge : ¬r.tooLarge) (h : r.srcHeight ≠ 0) :
    max 1 (sizeSub r.srcHeight 1) ≤ max 1 (max r.srcHeight r.dstHeight) := by
  obtain ⟨-, hheight, -, -⟩ := ResizeCall.not_tooLarge_iff.mp hlarge
  rw [sizeSub_eq (Nat.one_le_iff_ne_zero.mpr h) (by rw [sizeMod]; omega)]
  omega

theorem threadResizeLinearU8_agrees {schedulers : ∀ n, Multithreading n → Prop}
    {malloc : ℕ → Bool} (resized : ResizedU8) (src : Mem)
    (h : (r.IsGenericU8 → malloc r.genericConstants = true) ∨
      ∀ n mt, schedulers n mt → mt.HandsOn) :
    (kleidicvThreadResizeLinearU8 malloc resized src r).Agrees schedulers
      (kleidicvResizeLinearU8 malloc resized src r) r := by
  rw [kleidicvThreadResizeLinearU8]
  split_ifs with himpl hchecks hempty h2 h4
  · exact .answered _ fun s => by rw [kleidicvResizeLinearU8, if_pos himpl]
  · exact .answered _ fun s => by rw [kleidicvResizeLinearU8, if_neg himpl, if_pos hchecks]
  · exact .answered _ fun s => by
      rw [kleidicvResizeLinearU8, if_neg himpl, if_neg hchecks, if_pos hempty]
  all_goals
    have himpl' : resizeLinearU8IsImplemented r = true := by simpa using himpl
    have hheight := (ResizeCall.not_isEmpty_iff.mp hempty).2
    have hgaps := gaps_le (u8_sizes himpl').1 hheight.ne'
  · refine .batches (.inl rfl) (fun _ _ _ => rfl) (fun s => ?_) hgaps fun hr => absurd hr hempty
    rw [kleidicvResizeLinearU8, if_neg himpl, if_neg hchecks, if_neg hempty, if_pos h2]
    rfl
  · refine .batches (.inl rfl) (fun _ _ _ => rfl) (fun s => ?_) hgaps fun hr => absurd hr hempty
    rw [kleidicvResizeLinearU8, if_neg himpl, if_neg hchecks, if_neg hempty, if_neg h2, if_pos h4]
    rfl
  · refine .batches (h.imp_left fun hmalloc => if_pos ?_)
      (resizeLinearStripeU8_error malloc resized) (fun s => ?_) (by omega) fun hr => absurd hr hempty
    · by_cases hquarter : r.isToQuarter = true
      · exact .inl hquarter
      · exact .inr (hmalloc ⟨⟨himpl', Classical.not_not.mp hchecks⟩, hempty, h2, h4, hquarter⟩)
    · rw [kleidicvResizeLinearU8, if_neg himpl, if_neg hchecks, if_neg hempty, if_neg h2, if_neg h4]
      exact resizeLinearStripeU8_error malloc resized _ _ _

/-- Constants that cannot be allocated. -/
theorem threadResizeLinearU8_not_agrees {malloc : ℕ → Bool} (resized : ResizedU8) (src : Mem)
    (hr : r.IsGenericU8) (hmalloc : ¬malloc r.genericConstants = true) :
    ¬(kleidicvThreadResizeLinearU8 malloc resized src r).Agrees (fun _ _ => True)
      (kleidicvResizeLinearU8 malloc resized src r) r := by
  obtain ⟨⟨himpl, hchecks⟩, hempty, h2, h4, hquarter⟩ := hr
  have hcode : ∀ b e m, (resizeLinearStripeU8 malloc resized r b e m).1 = .allocation :=
    fun b e m => by
      rw [resizeLinearStripeU8_error, if_neg (not_or.mpr ⟨hquarter, hmalloc⟩)]
  have himpl' : ¬(!resizeLinearU8IsImplemented r) = true := by simpa using himpl
  rw [kleidicvThreadResizeLinearU8, if_neg himpl', if_neg (not_not_intro hchecks), if_neg hempty,
    if_neg h2, if_neg h4]
  have : Nonempty Mem := ⟨src⟩
  refine ThreadedCall.batches_not_agrees (by decide) hcode fun s => ?_
  rw [kleidicvResizeLinearU8, if_neg himpl', if_neg (not_not_intro hchecks), if_neg hempty, if_neg h2,
    if_neg h4]
  exact hcode _ _ s

section

variable {α : Type} (ops : FloatOps α) (src : ℕ → α)

theorem resizeLinearF32_error (himpl : resizeLinearF32IsImplemented r = true) (m : ℕ → α) :
    (kleidicvResizeLinearF32 ops src r m).1 = r.checkPointersAndStrides 4 := by
  rw [kleidicvResizeLinearF32, if_neg (by simp [himpl])]
  exact resizeLinearStripeF32_error ops src himpl _ _ m

theorem threadResizeLinearF32_agrees {schedulers : ∀ n, Multithreading n → Prop}
    (hheight : resizeLinearF32IsImplemented r = true → r.srcHeight ≠ 0)
    (h : (resizeLinearF32IsImplemented r = true → r.checkPointersAndStrides 4 = .ok) ∨
      ∀ n mt, schedulers n mt → mt.HandsOn) :
    (kleidicvThreadResizeLinearF32 ops src r).Agrees schedulers (kleidicvResizeLinearF32 ops src r)
      r := by
  rw [kleidicvThreadResizeLinearF32]
  split_ifs with himpl
  · exact .answered _ fun s => by rw [kleidicvResizeLinearF32, if_pos himpl]
  · have himpl' : resizeLinearF32IsImplemented r = true := by simpa using himpl
    have hlarge : ¬r.tooLarge := fun hlarge => by
      rw [resizeLinearF32IsImplemented, if_pos hlarge] at himpl'
      exact absurd himpl' (by decide)
    exact .batches (h.imp_left fun hchecks => hchecks himpl')
      (fun b e m => resizeLinearStripeF32_error ops src himpl' _ _ m)
      (resizeLinearF32_error ops src himpl') (gaps_le hlarge (hheight himpl'))
      fun hr b e m => resizeLinearStripeF32_empty ops src hr _ _ m

/-- Without source rows the gaps between them wrap. -/
theorem threadResizeLinearF32_tasks (himpl : resizeLinearF32IsImplemented r = true)
    (h : r.srcHeight = 0) : (kleidicvThreadResizeLinearF32 ops src r).tasks = sizeMod - 1 := by
  rw [kleidicvThreadResizeLinearF32, if_neg (by simp [himpl]), h]
  rfl

theorem threadResizeLinearF32_not_agrees {schedulers : ∀ n, Multithreading n → Prop}
    (himpl : resizeLinearF32IsImplemented r = true) (h : r.srcHeight = 0) :
    ¬(kleidicvThreadResizeLinearF32 ops src r).Agrees schedulers (kleidicvResizeLinearF32 ops src r)
      r := by
  intro hagrees
  have htasks := hagrees.tasks
  have hlarge : ¬r.tooLarge := fun hlarge => by
    rw [resizeLinearF32IsImplemented, if_pos hlarge] at himpl
    exact absurd himpl (by decide)
  obtain ⟨-, -, -, hdst⟩ := ResizeCall.not_tooLarge_iff.mp hlarge
  rw [threadResizeLinearF32_tasks ops src himpl h, h, sizeMod] at htasks
  omega

/-- Pointers or strides that every callback rejects. -/
theorem threadResizeLinearF32_not_agrees_of_checks (himpl : resizeLinearF32IsImplemented r = true)
    (hchecks : r.checkPointersAndStrides 4 ≠ .ok) :
    ¬(kleidicvThreadResizeLinearF32 ops src r).Agrees (fun _ _ => True)
      (kleidicvResizeLinearF32 ops src r) r := by
  rw [kleidicvThreadResizeLinearF32, if_neg (by simp [himpl])]
  have : Nonempty (ℕ → α) := ⟨src⟩
  exact ThreadedCall.batches_not_agrees hchecks
    (fun b e m => resizeLinearStripeF32_error ops src himpl _ _ m)
    (resizeLinearF32_error ops src himpl)

end

end

/-- **When the threaded entry points do as the others.**  For `uint8_t` they do,
with the codes of the callbacks handed on; a scheduler may have a code of its own
where the constants of a generic kernel cannot be allocated.  For `float` they do
not where there is no source row, as the count of gaps wraps; and pointers and
strides are left to the callbacks, so that a scheduler may have a code of its own
where they are not valid. -/
theorem threadResizeLinear_agrees_iff (r : ResizeCall) :
    (∀ malloc resized src,
      ((kleidicvThreadResizeLinearU8 malloc resized src r).Agrees (fun _ _ => True)
          (kleidicvResizeLinearU8 malloc resized src r) r ↔
        (r.IsGenericU8 → malloc r.genericConstants = true)) ∧
      (kleidicvThreadResizeLinearU8 malloc resized src r).Agrees (fun _ mt => mt.HandsOn)
        (kleidicvResizeLinearU8 malloc resized src r) r) ∧
    ∀ (α : Type) (ops : FloatOps α) (src : ℕ → α),
      ((kleidicvThreadResizeLinearF32 ops src r).Agrees (fun _ _ => True)
          (kleidicvResizeLinearF32 ops src r) r ↔
        (resizeLinearF32IsImplemented r = true →
          r.checkPointersAndStrides 4 = .ok ∧ r.srcHeight ≠ 0)) ∧
      ((kleidicvThreadResizeLinearF32 ops src r).Agrees (fun _ mt => mt.HandsOn)
          (kleidicvResizeLinearF32 ops src r) r ↔
        (resizeLinearF32IsImplemented r = true → r.srcHeight ≠ 0)) := by
  refine ⟨fun malloc resized src => ⟨⟨fun hagrees hgeneric => ?_, fun h => ?_⟩, ?_⟩,
    fun α ops src => ⟨⟨fun hagrees himpl => ⟨?_, fun hheight => ?_⟩, fun h => ?_⟩,
      ⟨fun hagrees himpl hheight => ?_, fun h => ?_⟩⟩⟩
  · exact by_contra fun hmalloc => threadResizeLinearU8_not_agrees resized src hgeneric hmalloc hagrees
  · exact threadResizeLinearU8_agrees resized src (.inl h)
  · exact threadResizeLinearU8_agrees resized src (.inr fun _ _ hmt => hmt)
  · exact by_contra fun hchecks =>
      threadResizeLinearF32_not_agrees_of_checks ops src himpl hchecks hagrees
  · exact threadResizeLinearF32_not_agrees ops src himpl hheight hagrees
  · exact threadResizeLinearF32_agrees ops src (fun himpl => (h himpl).2)
      (.inl fun himpl => (h himpl).1)
  · exact threadResizeLinearF32_not_agrees ops src himpl hheight hagrees
  · exact threadResizeLinearF32_agrees ops src h (.inr fun _ _ hmt => hmt)

/-- Four columns and no row, enlarged by two: more than `2 ^ 63` tasks. -/
theorem threadResizeLinearF32_too_many_tasks :
    ¬∀ (r : ResizeCall) (α : Type) (ops : FloatOps α) (src : ℕ → α),
      (kleidicvThreadResizeLinearF32 ops src r).Agrees (fun _ mt => mt.HandsOn)
        (kleidicvResizeLinearF32 ops src r) r := by
  intro hall
  have htasks := (hall ⟨400, 16, 4, 0, 800, 32, 8, 0, 1⟩ ℚ
    ⟨fun x y => x + y, fun x y => x - y, fun x y => x * y, fun x y z => x + y * z, fun q => q⟩
    fun _ => 0).tasks
  revert htasks
  decide

end KleidiCV
