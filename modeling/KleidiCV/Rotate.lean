/-
`kleidicv_rotate` on Neon and its threaded version, by 90 degrees either way.

* `rotateCwMap_sends`, `rotateCcwMap_sends` — where the pixels go;
* `rotateBatch_wrote` — a call of the threaded version;
* `kleidicvRotate_correct` — the entry points.
-/
import KleidiCV.Transpose

open Loop

namespace KleidiCV

/-- The functions `rotate_cw` passes to `rotate_transpose_rect`. -/
def rotateCwMap (height : ℕ) : RectMap where
  reverseRows := true
  vectorDstRowFromSrcCol := fun hindex _ => hindex
  vectorDstColFromSrcRow := fun vindex lanes => height - vindex - lanes
  scalarDstRowFromSrcCol := fun hindex _ => hindex
  scalarDstColFromSrcRow := fun vindex lanes => height - vindex - lanes
  verticalDstColBase := fun _ => 0
  rowIndex := fun index _ => index
  scalarStore := fun col row height _ => (col, height - row - 1)

/-- The functions `rotate_ccw` passes to `rotate_transpose_rect`. -/
def rotateCcwMap (width : ℕ) : RectMap where
  reverseRows := false
  vectorDstRowFromSrcCol := fun hindex lanes => width - hindex - lanes
  vectorDstColFromSrcRow := fun vindex _ => vindex
  scalarDstRowFromSrcCol := fun _ finalHindex => width - finalHindex
  scalarDstColFromSrcRow := fun vindex _ => vindex
  verticalDstColBase := fun vindex => vindex
  rowIndex := fun index lanes => lanes - index - 1
  scalarStore := fun col row _ rowWidth => (rowWidth - col - 1, row)

/-- `rotate_is_implemented`. -/
def rotateIsImplemented (b : Buffers) (angle : ℤ) (pixelSize : ℕ) : Bool :=
  if angle ≠ 90 ∧ angle ≠ -90 ∧ angle ≠ 270 then false
  else if b.src = b.dst then false
  else decide (pixelSize ∈ [1, 2, 3, 6, 4, 8])

/-- `rotate<T, k3Channels>`. -/
def rotateScalar (sz P : ℕ) (b : Buffers) (srcWidth srcHeight : ℕ) (angle : ℤ) (m : Mem) :
    KleidicvError × Mem :=
  let error := rotateTransposeChecks sz b srcWidth srcHeight
  if error ≠ .ok then (error, m)
  else if angle = 90 then
    rotateTransposeRect sz P (rotateCwMap srcHeight) srcWidth srcHeight (b.srcRows (P * sz))
      (b.dstRows (P * sz)) m
  else
    rotateTransposeRect sz P (rotateCcwMap srcWidth) srcWidth srcHeight (b.srcRows (P * sz))
      (b.dstRows (P * sz)) m

/-- `kleidicv_rotate`. -/
def kleidicvRotate (b : Buffers) (srcWidth srcHeight : ℕ) (angle : ℤ) (pixelSize : ℕ) (m : Mem) :
    KleidicvError × Mem :=
  if !rotateIsImplemented b angle pixelSize then (.notImplemented, m)
  else
    match pixelSize with
    | 1 => rotateScalar 1 1 b srcWidth srcHeight angle m
    | 2 => rotateScalar 2 1 b srcWidth srcHeight angle m
    | 4 => rotateScalar 4 1 b srcWidth srcHeight angle m
    | 8 => rotateScalar 8 1 b srcWidth srcHeight angle m
    | 3 => rotateScalar 1 3 b srcWidth srcHeight angle m
    | 6 => rotateScalar 2 3 b srcWidth srcHeight angle m
    | _ => (.notImplemented, m)

/-- The callback of `kleidicv_thread_rotate`. -/
def rotateBatch (b : Buffers) (width height : ℕ) (angle : ℤ) (pixelSize begin_ end_ : ℕ) (m : Mem) :
    KleidicvError × Mem :=
  let dstColumnOffset := if angle = 90 then begin_ else sizeSub width end_
  kleidicvRotate
    { b with src := b.src + begin_ * pixelSize, dst := b.dst + dstColumnOffset * b.dstStride }
    (sizeSub end_ begin_) height angle pixelSize m

/-- `kleidicv_thread_rotate`. -/
def kleidicvThreadRotate (b : Buffers) (width height : ℕ) (angle : ℤ) (pixelSize : ℕ)
    (mt : Multithreading (taskCount width 64)) (m : Mem) : KleidicvError × Mem :=
  if !rotateIsImplemented b angle pixelSize then (.notImplemented, m)
  else runParallelBatches (rotateBatch b width height angle pixelSize) width 64 mt m

/-! ### Where pixels go -/

/-- Clockwise, source row `y` becomes column `height - 1 - y`. -/
theorem rotateCwMap_sends (numOfLanes width height : ℕ) :
    Sends (rotateCwMap height) numOfLanes width height id fun y => height - 1 - y := by
  refine ⟨?_, ?_, ?_⟩
  · intro v h t i hv _ _ hi
    refine ⟨rfl, ?_⟩
    simp only [rotateCwMap, if_true]
    omega
  · intro v col row hv _ _ hrow
    refine ⟨Nat.zero_add col, ?_⟩
    simp only [rotateCwMap]
    omega
  · intro col row _ _ hrow
    refine ⟨rfl, ?_⟩
    simp only [rotateCwMap]
    omega

/-- Counter-clockwise, source column `x` becomes row `width - 1 - x`. -/
theorem rotateCcwMap_sends (numOfLanes width height : ℕ) :
    Sends (rotateCcwMap width) numOfLanes width height (fun x => width - 1 - x) id := by
  refine ⟨?_, ?_, ?_⟩
  · intro v h t i _ hh ht _
    refine ⟨?_, rfl⟩
    simp only [rotateCcwMap]
    omega
  · intro v col row _ _ hcol _
    refine ⟨?_, rfl⟩
    simp only [rotateCcwMap]
    omega
  · intro col row _ hcol _
    refine ⟨?_, Nat.zero_add row⟩
    simp only [rotateCcwMap]
    omega

/-- The destination row of source column `x`. -/
def rotatedRow (angle : ℤ) (width x : ℕ) : ℕ := if angle = 90 then x else width - 1 - x

/-- The destination column of source row `y`. -/
def rotatedCol (angle : ℤ) (height y : ℕ) : ℕ := if angle = 90 then height - 1 - y else y

section

variable {sz P srcWidth srcHeight pixelSize begin_ end_ : ℕ} {angle : ℤ} {b : Buffers}
  {m m' : Mem}

theorem TransposePlacement.apart_rotated {p : ℕ}
    (hb : TransposePlacement b srcWidth srcHeight p) (angle : ℤ) :
    Apart (b.srcRows p) (b.dstRows p) srcWidth srcHeight p (rotatedRow angle srcWidth)
      (rotatedCol angle srcHeight) := by
  refine hb.apart ?_ ?_ ?_ ?_
  · intro x hx
    unfold rotatedRow
    split <;> omega
  · intro y hy
    unfold rotatedCol
    split <;> omega
  · intro x hx x' hx' heq
    unfold rotatedRow at heq
    split at heq <;> omega
  · intro y hy y' hy' heq
    unfold rotatedCol at heq
    split at heq <;> omega

/-- Calls without a pixel, or with more than an image may have, write nothing. -/
theorem rotateScalar_noop (hsz : ScalarSize sz) (hP : P = 1 ∨ P = 3)
    (h : srcWidth = 0 ∨ srcHeight = 0 ∨ kleidicvMaxImagePixels < srcWidth * srcHeight) :
    (rotateScalar sz P b srcWidth srcHeight angle m).2 = m := by
  unfold rotateScalar
  simp only
  by_cases herror : rotateTransposeChecks sz b srcWidth srcHeight = .ok
  · have hsize := (rotateTransposeChecks_ok.mp herror).size
    have hempty : srcWidth = 0 ∨ srcHeight = 0 := by omega
    rw [herror, if_neg (by decide)]
    split
    · exact rotateTransposeRect_empty hsz hP (rotateCwMap_sends _ _ _) hempty _ _ _ _
    · exact rotateTransposeRect_empty hsz hP (rotateCcwMap_sends _ _ _) hempty _ _ _ _
  · rw [if_pos herror]

variable (angle) in
/-- A call on some columns writes its part of the rotated image. -/
theorem rotateScalar_wrote {p : ℕ} (hsz : ScalarSize sz) (hP : P = 1 ∨ P = 3) (hp : p = P * sz)
    (hb : TransposePlacement b srcWidth srcHeight p)
    (hc : ChecksPassed sz b srcWidth srcHeight) (hle : begin_ ≤ end_) (hend : end_ ≤ srcWidth)
    (hread : ∀ q ∈ rectPart 0 srcHeight 0 srcWidth p,
      m' ((b.srcRows p).byteAt q) = m ((b.srcRows p).byteAt q)) :
    Wrote (targetAt (b.dstRows p) (rotatedRow angle srcWidth) (rotatedCol angle srcHeight))
      (fun q => m ((b.srcRows p).byteAt q)) (rectPart 0 srcHeight begin_ end_ p) m'
      (rotateScalar sz P
        { b with
          src := b.src + begin_ * p
          dst := b.dst + (if angle = 90 then begin_ else srcWidth - end_) * b.dstStride }
        (end_ - begin_) srcHeight angle m').2 := by
  have ha := hb.apart_rotated angle
  by_cases hempty : end_ - begin_ = 0
  · rw [rotateScalar_noop hsz hP (.inl hempty)]
    refine (Wrote.refl m').congr (Set.eq_empty_of_forall_notMem ?_).symm
    rintro ⟨y, x, k⟩ ⟨-, hx, -⟩
    simp only at hx
    omega
  · have hrow : srcWidth ≤ 1 → (if angle = 90 then begin_ else srcWidth - end_) = 0 := by
      split <;> omega
    have hsub := hc.columns (begin_ * P) (if angle = 90 then begin_ else srcWidth - end_)
      (show end_ - begin_ ≤ srcWidth by omega) hrow
    rw [Nat.mul_assoc, ← hp] at hsub
    simp only [rotateScalar, rotateTransposeChecks_ok.mpr hsub, ne_eq, not_true_eq_false,
      if_false, ← hp]
    by_cases hangle : angle = 90
    · simp only [if_pos hangle]
      refine columns_wrote hsz hP hp ha hend (rotateCwMap_sends _ _ _) rfl rfl ?_ ?_ hread
      · intro y x k
        simp only [PixelRows.byteAt, Buffers.srcRows]
        ring
      · intro y _ x _ k
        simp only [targetAt, PixelRows.byteAt, Buffers.dstRows, id, rotatedRow, rotatedCol,
          if_pos hangle]
        ring
    · simp only [if_neg hangle]
      refine columns_wrote hsz hP hp ha hend (rotateCcwMap_sends _ _ _) rfl rfl ?_ ?_ hread
      · intro y x k
        simp only [PixelRows.byteAt, Buffers.srcRows]
        ring
      · intro y _ x hx k
        have hrow : srcWidth - 1 - (begin_ + x) = srcWidth - end_ + (end_ - begin_ - 1 - x) := by
          omega
        simp only [targetAt, PixelRows.byteAt, Buffers.dstRows, id, rotatedRow, rotatedCol,
          if_neg hangle, hrow]
        ring

theorem kleidicvRotate_rejected (h : rotateIsImplemented b angle pixelSize = false) :
    kleidicvRotate b srcWidth srcHeight angle pixelSize m = (.notImplemented, m) := by
  unfold kleidicvRotate
  rw [if_pos (by rw [h]; rfl)]

/-- An accepted call has its own scalar type; one whose source and destination
start at the same byte writes nothing. -/
theorem kleidicvRotate_format
    (hok : (kleidicvRotate b srcWidth srcHeight angle pixelSize m).1 = .ok) :
    ∃ sz P, ScalarSize sz ∧ (P = 1 ∨ P = 3) ∧ pixelSize = P * sz ∧
      rotateIsImplemented b angle pixelSize = true ∧
      ∀ b srcWidth srcHeight m, kleidicvRotate b srcWidth srcHeight angle pixelSize m =
        if b.src = b.dst then (.notImplemented, m)
        else rotateScalar sz P b srcWidth srcHeight angle m := by
  have himpl : rotateIsImplemented b angle pixelSize = true := by
    by_contra hcon
    rw [kleidicvRotate_rejected (Bool.eq_false_iff.mpr hcon)] at hok
    exact KleidicvError.noConfusion hok
  have hangle : ¬(angle ≠ 90 ∧ angle ≠ -90 ∧ angle ≠ 270) := by
    intro hcon
    rw [rotateIsImplemented, if_pos hcon] at himpl
    exact Bool.noConfusion himpl
  have hsize : pixelSize ∈ [1, 2, 3, 6, 4, 8] := by
    rw [rotateIsImplemented, if_neg hangle] at himpl
    split at himpl
    · exact Bool.noConfusion himpl
    · exact of_decide_eq_true himpl
  have hcall : ∀ b : Buffers,
      rotateIsImplemented b angle pixelSize = decide (b.src ≠ b.dst) := by
    intro b
    rw [rotateIsImplemented, if_neg hangle]
    by_cases hsame : b.src = b.dst
    · rw [if_pos hsame, hsame, decide_eq_false (not_not.mpr rfl)]
    · rw [if_neg hsame, decide_eq_true hsize, decide_eq_true hsame]
  have hformat : ∃ sz P, ScalarSize sz ∧ (P = 1 ∨ P = 3) ∧ pixelSize = P * sz ∧
      ∀ b srcWidth srcHeight m, b.src ≠ b.dst →
        kleidicvRotate b srcWidth srcHeight angle pixelSize m =
          rotateScalar sz P b srcWidth srcHeight angle m := by
    simp only [kleidicvRotate, hcall]
    simp only [List.mem_cons, List.not_mem_nil, or_false] at hsize
    rcases hsize with rfl | rfl | rfl | rfl | rfl | rfl
    · exact ⟨1, 1, .inl rfl, .inl rfl, rfl, fun b _ _ _ h => if_neg (by simp only [h, ne_eq, not_false_eq_true, decide_true, Bool.not_true, Bool.false_eq_true])⟩
    · exact ⟨2, 1, .inr (.inl rfl), .inl rfl, rfl, fun b _ _ _ h => if_neg (by simp only [h, ne_eq, not_false_eq_true, decide_true, Bool.not_true, Bool.false_eq_true])⟩
    · exact ⟨1, 3, .inl rfl, .inr rfl, rfl, fun b _ _ _ h => if_neg (by simp only [h, ne_eq, not_false_eq_true, decide_true, Bool.not_true, Bool.false_eq_true])⟩
    · exact ⟨2, 3, .inr (.inl rfl), .inr rfl, rfl, fun b _ _ _ h => if_neg (by simp only [h, ne_eq, not_false_eq_true, decide_true, Bool.not_true, Bool.false_eq_true])⟩
    · exact ⟨4, 1, .inr (.inr (.inl rfl)), .inl rfl, rfl, fun b _ _ _ h => if_neg (by simp only [h, ne_eq, not_false_eq_true, decide_true, Bool.not_true, Bool.false_eq_true])⟩
    · exact ⟨8, 1, .inr (.inr (.inr rfl)), .inl rfl, rfl, fun b _ _ _ h => if_neg (by simp only [h, ne_eq, not_false_eq_true, decide_true, Bool.not_true, Bool.false_eq_true])⟩
  obtain ⟨sz, P, hsz, hP, hp, hrun⟩ := hformat
  refine ⟨sz, P, hsz, hP, hp, himpl, fun b w h m => ?_⟩
  by_cases hsame : b.src = b.dst
  · rw [if_pos hsame, kleidicvRotate_rejected ((hcall b).trans (decide_eq_false (not_not.mpr hsame)))]
  · rw [if_neg hsame, hrun b w h m hsame]

/-- What is promised of an accepted rotation. -/
structure RotateCorrect (b : Buffers) (srcWidth srcHeight : ℕ) (angle : ℤ) (pixelSize : ℕ)
    (m : Mem) : Prop where
  rotated : ∃ m', kleidicvRotate b srcWidth srcHeight angle pixelSize m = (.ok, m') ∧
    ImageSent b srcWidth srcHeight pixelSize (rotatedRow angle srcWidth)
      (rotatedCol angle srcHeight) m m'
  any_order : ∀ l, ColumnsCovered srcWidth l →
    l.foldl (fun m r => (rotateBatch b srcWidth srcHeight angle pixelSize r.1 r.2 m).2) m =
      (kleidicvRotate b srcWidth srcHeight angle pixelSize m).2
  threaded : ∀ mt, (kleidicvThreadRotate b srcWidth srcHeight angle pixelSize mt m).2 =
    (kleidicvRotate b srcWidth srcHeight angle pixelSize m).2

/-- **Rotate sends source pixel `(i, j)` to `(j, H - 1 - i)`**, counter-clockwise
to `(W - 1 - j, i)`, and so do batches of columns in any order and the threaded
version under every schedule. -/
theorem kleidicvRotate_correct (hb : TransposePlacement b srcWidth srcHeight pixelSize)
    (hok : (kleidicvRotate b srcWidth srcHeight angle pixelSize m).1 = .ok) :
    RotateCorrect b srcWidth srcHeight angle pixelSize m := by
  obtain ⟨sz, P, hsz, hP, hp, himpl, hformat⟩ := kleidicvRotate_format hok
  have hpos : 0 < pixelSize := hp ▸ Nat.mul_pos (by omega) hsz.pos
  have hne : b.src ≠ b.dst := by
    intro hsame
    rw [rotateIsImplemented, if_pos hsame] at himpl
    split at himpl <;> exact Bool.noConfusion himpl
  have hrun : kleidicvRotate b srcWidth srcHeight angle pixelSize m =
      rotateScalar sz P b srcWidth srcHeight angle m := by
    rw [hformat, if_neg hne]
  have hc : ChecksPassed sz b srcWidth srcHeight := by
    rw [hrun, rotateScalar] at hok
    by_contra hcon
    rw [← rotateTransposeChecks_ok] at hcon
    simp only [if_pos hcon] at hok
    exact hcon hok
  have hwhole : ImageSent b srcWidth srcHeight pixelSize (rotatedRow angle srcWidth)
      (rotatedCol angle srcHeight) m
      (kleidicvRotate b srcWidth srcHeight angle pixelSize m).2 := by
    have h := rotateScalar_wrote angle hsz hP hp hb hc (Nat.zero_le srcWidth) le_rfl
      fun q _ => (rfl : m _ = m _)
    simp only [Nat.zero_mul, Nat.add_zero, Nat.sub_zero, Nat.sub_self, ite_self] at h
    rw [hrun]
    exact h
  have hnoop : ∀ b' e' m', srcHeight = 0 ∨
      kleidicvMaxImagePixels < sizeSub e' b' * srcHeight →
      (rotateBatch b srcWidth srcHeight angle pixelSize b' e' m').2 = m' := by
    intro b' e' m' h
    rw [rotateBatch, hformat]
    generalize ({ b with
      src := b.src + b' * pixelSize
      dst := b.dst + (if angle = 90 then b' else sizeSub srcWidth e') * b.dstStride } : Buffers) = c
    by_cases hsame : c.src = c.dst
    · rw [if_pos hsame]
    · rw [if_neg hsame]
      exact rotateScalar_noop hsz hP (.inr h)
  have hbatch : ∀ b' e', b' ≤ e' → e' ≤ srcWidth → 0 < srcHeight → ∀ m',
      (∀ q ∈ rectPart 0 srcHeight 0 srcWidth pixelSize,
        m' ((b.srcRows pixelSize).byteAt q) = m ((b.srcRows pixelSize).byteAt q)) →
      Wrote (targetAt (b.dstRows pixelSize) (rotatedRow angle srcWidth)
          (rotatedCol angle srcHeight))
        (fun q => m ((b.srcRows pixelSize).byteAt q)) (rectPart 0 srcHeight b' e' pixelSize) m'
        (rotateBatch b srcWidth srcHeight angle pixelSize b' e' m').2 := by
    intro b' e' hle hend h0 m' hread
    have hmax : kleidicvMaxImagePixels < sizeMod := by decide
    have hwidth := hc.width_le h0
    have hwrote := rotateScalar_wrote angle hsz hP hp hb hc hle hend hread
    rw [rotateBatch, hformat, sizeSub_eq hle (by omega), sizeSub_eq hend (by omega)]
    by_cases hsame : b.src + b' * pixelSize =
        b.dst + (if angle = 90 then b' else srcWidth - e') * b.dstStride
    · -- Source and destination of a call with pixels differ.
      have hempty : b' = e' := by
        by_contra hlt
        have hbyte := Nat.mul_le_mul_right pixelSize (show b' + 1 ≤ srcWidth by omega)
        rw [Nat.succ_mul] at hbyte
        refine hb.disjoint (if angle = 90 then b' else srcWidth - e') (by split <;> omega) 0
          (Nat.mul_pos h0 hpos) 0 h0 (b' * pixelSize) (by omega) ?_
        simp only [Buffers.dstAt, Buffers.srcAt]
        omega
      rw [if_pos hsame]
      refine (Wrote.refl m').congr (Set.eq_empty_of_forall_notMem ?_).symm
      rintro ⟨y, x, k⟩ ⟨-, hx, -⟩
      simp only at hx
      omega
    · rw [if_neg hsame]
      exact hwrote
  refine ⟨⟨_, Prod.ext hok rfl, hwhole⟩, fun l hl => ?_, fun mt => ?_⟩
  · exact batches_eq (hb.apart_rotated angle) hwhole hnoop hbatch
      (fun r hr => ⟨(hl.bounds r hr).2, .inl (hl.bounds r hr).1⟩) hl.cover
  · rw [kleidicvThreadRotate, himpl]
    exact threadedBatches_eq (hb.apart_rotated angle) hc hwhole hnoop hbatch mt

/-- **Out of place, transpose and rotate move every pixel to its place**, in
either direction of the rotation, for batches of columns in any order and for
the threaded versions under every schedule. -/
theorem transpose_rotate_correct (hb : TransposePlacement b srcWidth srcHeight pixelSize)
    (hne : b.src ≠ b.dst) :
    ((kleidicvTranspose b srcWidth srcHeight pixelSize m).1 = .ok →
      TransposeCorrect b srcWidth srcHeight pixelSize m) ∧
    ∀ angle, (kleidicvRotate b srcWidth srcHeight angle pixelSize m).1 = .ok →
      RotateCorrect b srcWidth srcHeight angle pixelSize m :=
  ⟨fun hok => kleidicvTranspose_correct hb hne hok, fun _ hok => kleidicvRotate_correct hb hok⟩

end

/-- Two by three pixels of one byte each. -/
def smallImage : Buffers where
  src := 1000
  srcStride := 2
  dst := 2000
  dstStride := 3

theorem transpose_rotate_correct_smallImage :
    TransposeCorrect smallImage 2 3 1 (fun a => Fin.ofNat 256 a) ∧
      RotateCorrect smallImage 2 3 90 1 (fun a => Fin.ofNat 256 a) ∧
      RotateCorrect smallImage 2 3 (-90) 1 (fun a => Fin.ofNat 256 a) := by
  have h : TransposePlacement smallImage 2 3 1 := by
    refine ⟨.inl (by decide), fun r hr c hc r' hr' c' hc' => ?_⟩
    simp only [Buffers.dstAt, Buffers.srcAt, smallImage]
    omega
  have hcorrect := transpose_rotate_correct (m := fun a => Fin.ofNat 256 a) h (by decide)
  exact ⟨hcorrect.1 rfl, hcorrect.2 90 rfl, hcorrect.2 (-90) rfl⟩

end KleidiCV
