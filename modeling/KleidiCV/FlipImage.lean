/-
`kleidicv_flip` and `kleidicv_thread_flip` over whole images.

The image is cut into work items: rows, or pairs of mirrored rows when the flip
is in place.  Each item writes its own rows from bytes that no other item
writes, so every partition of the items in every order leaves the flipped
image.

* `workItem_wrote` — one work item;
* `flipWorkItems_wrote` — any partition of the items, in any order;
* `flip_correct` — the entry points.
-/
import KleidiCV.Flip
import KleidiCV.Lib.Partition
import KleidiCV.Multithreading

open Loop

namespace KleidiCV

namespace Flip

/-- `flip_to_dst`. -/
def flipToDst (sz P : ℕ) (b : Buffers) (width height : ℕ) (flipMode : FlipMode)
    (workItemsBegin workItemsEnd : ℕ) (m : Mem) : KleidicvError × Mem :=
  match flipMode with
  | .horizontal =>
    (.ok, forFrom workItemsBegin (workItemsEnd - workItemsBegin) (fun srcRowIdx m =>
      let srcRow := b.srcAt (srcRowIdx, 0)
      let dstRow := b.dstAt (srcRowIdx, 0)
      copyReversedRowToDst sz P srcRow dstRow width m) m)
  | .vertical =>
    (.ok, forFrom workItemsBegin (workItemsEnd - workItemsBegin) (fun srcRowIdx m =>
      let srcRow := b.srcAt (srcRowIdx, 0)
      let dstRow := b.dstAt (height - srcRowIdx - 1, 0)
      copyRowToDst sz P srcRow dstRow width m) m)
  | .both =>
    (.ok, forFrom workItemsBegin (workItemsEnd - workItemsBegin) (fun srcRowIdx m =>
      let srcRow := b.srcAt (srcRowIdx, 0)
      let dstRow := b.dstAt (height - srcRowIdx - 1, 0)
      copyReversedRowToDst sz P srcRow dstRow width m) m)
  | .other => (.notImplemented, m)

/-- `flip_in_place`; the rows are those of the destination. -/
def flipInPlace (sz P : ℕ) (b : Buffers) (width height : ℕ) (flipMode : FlipMode)
    (workItemsBegin workItemsEnd : ℕ) (m : Mem) : KleidicvError × Mem :=
  match flipMode with
  | .horizontal =>
    (.ok, forFrom workItemsBegin (workItemsEnd - workItemsBegin) (fun rowIdx m =>
      let row := b.dstAt (rowIdx, 0)
      swapReversedRowPairInPlace sz P row row width (width / 2) m) m)
  | .vertical =>
    (.ok, forFrom workItemsBegin (workItemsEnd - workItemsBegin) (fun topRowIdx m =>
      let bottomRowIdx := height - topRowIdx - 1
      let topRow := b.dstAt (topRowIdx, 0)
      let bottomRow := b.dstAt (bottomRowIdx, 0)
      swapRowPairInPlace sz P topRow bottomRow width m) m)
  | .both =>
    (.ok, forFrom workItemsBegin (workItemsEnd - workItemsBegin) (fun topRowIdx m =>
      let bottomRowIdx := height - topRowIdx - 1
      let topRow := b.dstAt (topRowIdx, 0)
      let bottomRow := b.dstAt (bottomRowIdx, 0)
      let numPixelPairsToSwap := if topRowIdx = bottomRowIdx then width / 2 else width
      swapReversedRowPairInPlace sz P topRow bottomRow width numPixelPairsToSwap m) m)
  | .other => (.notImplemented, m)

/-- `flip_work_items_impl`. -/
def flipWorkItemsImpl (sz P : ℕ) (b : Buffers) (width height : ℕ) (flipMode : FlipMode)
    (workItemsBegin workItemsEnd : ℕ) (m : Mem) : KleidicvError × Mem :=
  if b.src = b.dst then
    flipInPlace sz P b width height flipMode workItemsBegin workItemsEnd m
  else flipToDst sz P b width height flipMode workItemsBegin workItemsEnd m

end Flip

/-- `flip_work_items`. -/
def flipWorkItems (b : Buffers) (width height : ℕ) (flipMode : FlipMode) (pixelSize : ℕ)
    (workItemsBegin workItemsEnd : ℕ) (m : Mem) : KleidicvError × Mem :=
  match pixelSize with
  | 1 => Flip.flipWorkItemsImpl 1 1 b width height flipMode workItemsBegin workItemsEnd m
  | 2 => Flip.flipWorkItemsImpl 2 1 b width height flipMode workItemsBegin workItemsEnd m
  | 4 => Flip.flipWorkItemsImpl 4 1 b width height flipMode workItemsBegin workItemsEnd m
  | 8 => Flip.flipWorkItemsImpl 8 1 b width height flipMode workItemsBegin workItemsEnd m
  | 3 => Flip.flipWorkItemsImpl 1 3 b width height flipMode workItemsBegin workItemsEnd m
  | 6 => Flip.flipWorkItemsImpl 2 3 b width height flipMode workItemsBegin workItemsEnd m
  | _ => (.notImplemented, m)

/-- `flip_validate<ScalarType>`. -/
def flipValidateScalar (sz : ℕ) (b : Buffers) (width height : ℕ) (flipMode : FlipMode) :
    KleidicvError :=
  if sz ≠ 1 ∧ isMisaligned sz b.src then .alignment
  else if sz ≠ 1 ∧ isMisaligned sz b.dst then .alignment
  else if checkPointerAndStride sz b.src b.srcStride height ≠ .ok then
    checkPointerAndStride sz b.src b.srcStride height
  else if checkPointerAndStride sz b.dst b.dstStride height ≠ .ok then
    checkPointerAndStride sz b.dst b.dstStride height
  else if !checkImageSize width height then .range
  else if b.src = b.dst ∧ b.srcStride ≠ b.dstStride then .range
  else if flipMode = .other then .notImplemented
  else .ok

/-- `flip_validate`. -/
def flipValidate (b : Buffers) (width height : ℕ) (flipMode : FlipMode) (pixelSize : ℕ) :
    KleidicvError :=
  match pixelSize with
  | 1 | 3 => flipValidateScalar 1 b width height flipMode
  | 2 | 6 => flipValidateScalar 2 b width height flipMode
  | 4 => flipValidateScalar 4 b width height flipMode
  | 8 => flipValidateScalar 8 b width height flipMode
  | _ => .notImplemented

/-- `flip_work_item_count`. -/
def flipWorkItemCount (height : ℕ) (inPlace : Bool) (flipMode : FlipMode) : ℕ :=
  if !inPlace || flipMode = .horizontal then height
  -- The centre row of an odd height does not change.
  else if flipMode = .vertical then height / 2
  else (height + 1) / 2

/-- `kleidicv_flip`. -/
def kleidicvFlip (b : Buffers) (width height : ℕ) (flipMode : FlipMode) (pixelSize : ℕ) (m : Mem) :
    KleidicvError × Mem :=
  let error := flipValidate b width height flipMode pixelSize
  if error ≠ .ok then (error, m)
  else if width = 0 ∨ height = 0 then (.ok, m)
  else
    let workItemCount := flipWorkItemCount height (b.src = b.dst) flipMode
    flipWorkItems b width height flipMode pixelSize 0 workItemCount m

/-- `kleidicv_thread_flip`. -/
def kleidicvThreadFlip (b : Buffers) (width height : ℕ) (flipMode : FlipMode) (pixelSize : ℕ)
    (mt : Multithreading (taskCount (flipWorkItemCount height (b.src = b.dst) flipMode) 1))
    (m : Mem) : KleidicvError × Mem :=
  let error := flipValidate b width height flipMode pixelSize
  if error ≠ .ok then (error, m)
  else if width = 0 ∨ height = 0 then (.ok, m)
  else
    let workItemCount := flipWorkItemCount height (b.src = b.dst) flipMode
    if workItemCount = 0 then (.ok, m)
    else
      runParallelBatches (flipWorkItems b width height flipMode pixelSize) workItemCount 1 mt m

namespace Flip

/-! ### One work item -/

/-- Where the byte at row `q.1` and offset `q.2` comes from; a pixel has `p`
bytes. -/
def flipAt (flipMode : FlipMode) (width height p : ℕ) (q : ℕ × ℕ) : ℕ × ℕ :=
  match flipMode with
  | .horizontal => (q.1, mirror width p q.2)
  | .vertical => (height - 1 - q.1, q.2)
  | .both => (height - 1 - q.1, mirror width p q.2)
  | .other => q

/-- The rows that work item `t` writes. -/
def itemRows (inPlace : Bool) (flipMode : FlipMode) (height t : ℕ) : Set ℕ :=
  if flipMode = .horizontal then {t}
  else if inPlace then {t, height - t - 1}
  else {height - t - 1}

/-- The bytes of some rows of an image with `n` bytes in a row. -/
def rowsPart (n height : ℕ) (rows : Set ℕ) : Set (ℕ × ℕ) := {q | q ∈ pixels n height ∧ q.1 ∈ rows}

/-- The loop body for one work item. -/
def workItem (sz P : ℕ) (b : Buffers) (width height : ℕ) (flipMode : FlipMode) (t : ℕ) (m : Mem) :
    Mem :=
  (flipWorkItemsImpl sz P b width height flipMode t (t + 1) m).2

section

variable {sz P width height t : ℕ} {b : Buffers} {flipMode : FlipMode} {m m' : Mem}

theorem flipWorkItemsImpl_eq (hmode : flipMode ≠ .other) (begin_ end_ : ℕ) :
    flipWorkItemsImpl sz P b width height flipMode begin_ end_ m =
      (.ok, forFrom begin_ (end_ - begin_) (workItem sz P b width height flipMode) m) := by
  have hbody : ∀ body : ℕ → Mem → Mem,
      (∀ t m, flipWorkItemsImpl sz P b width height flipMode t (t + 1) m =
        (.ok, forFrom t (t + 1 - t) body m)) →
      workItem sz P b width height flipMode = body := by
    intro body h
    funext t m
    rw [workItem, h, Nat.add_sub_cancel_left]
    rfl
  by_cases hsame : b.src = b.dst
  · simp only [flipWorkItemsImpl, if_pos hsame] at hbody ⊢
    cases flipMode with
    | other => exact absurd rfl hmode
    | horizontal => rw [hbody _ fun _ _ => rfl]; rfl
    | vertical => rw [hbody _ fun _ _ => rfl]; rfl
    | both => rw [hbody _ fun _ _ => rfl]; rfl
  · simp only [flipWorkItemsImpl, if_neg hsame] at hbody ⊢
    cases flipMode with
    | other => exact absurd rfl hmode
    | horizontal => rw [hbody _ fun _ _ => rfl]; rfl
    | vertical => rw [hbody _ fun _ _ => rfl]; rfl
    | both => rw [hbody _ fun _ _ => rfl]; rfl

variable {n top bottom : ℕ} {v : ℕ × ℕ → U8} {m'' : Mem}

/-- A row written through its own address. -/
theorem row_wrote {g : ℕ → U8} {row : ℕ} (hrow : row < height)
    (h : Wrote (b.dstAt (row, 0) + ·) g {k | k < n} m' m'') (hv : ∀ k < n, g k = v (row, k)) :
    Wrote b.dstAt v (rowsPart n height {row}) m' m'' := by
  refine h.reindex Prod.snd ?_ fun k hk => ⟨(row, k), ⟨⟨hrow, hk⟩, rfl⟩, rfl⟩
  rintro ⟨r, k⟩ ⟨⟨-, hk⟩, rfl⟩
  exact ⟨hk, rfl, hv k hk⟩

/-- Two rows, or two parts of one, written through their own addresses. -/
theorem pair_wrote {g : Bool × ℕ → U8} {hi lo : ℕ} (hsplit : top = bottom → hi ≤ lo)
    (h : Wrote (pairAt (b.dstAt (top, 0)) (b.dstAt (bottom, 0))) g (pairPart 0 hi lo n) m' m'')
    (htop : ∀ k < hi, g (false, k) = v (top, k))
    (hbottom : ∀ k, lo ≤ k → k < n → g (true, k) = v (bottom, k)) :
    Wrote b.dstAt v {q | (q.1 = top ∧ q.2 < hi) ∨ (q.1 = bottom ∧ lo ≤ q.2 ∧ q.2 < n)} m' m'' := by
  refine h.reindex (fun q => (decide (¬(q.1 = top ∧ q.2 < hi)), q.2)) ?_ ?_
  · rintro ⟨r, k⟩ hq
    by_cases hfront : r = top ∧ k < hi
    · obtain ⟨rfl, hk⟩ := hfront
      simp only [hk, and_self, not_true_eq_false, decide_false]
      exact ⟨mem_pairPart_top.mpr ⟨Nat.zero_le k, hk⟩, rfl, htop k hk⟩
    · obtain ⟨rfl, hlo, hk⟩ := hq.resolve_left hfront
      simp only [hfront, not_false_eq_true, decide_true]
      exact ⟨mem_pairPart_bottom.mpr ⟨hlo, hk⟩, rfl, hbottom k hlo hk⟩
  · rintro ⟨_ | _, k⟩ hq
    · have hk := (mem_pairPart_top.mp hq).2
      exact ⟨(top, k), .inl ⟨rfl, hk⟩, by simp [hk]⟩
    · have hk := mem_pairPart_bottom.mp hq
      refine ⟨(bottom, k), .inr ⟨rfl, hk⟩, ?_⟩
      have : ¬(bottom = top ∧ k < hi) := fun hcon => by
        have := hsplit hcon.1.symm
        omega
      simp [this]

/-- Source and destination rows of an out-of-place flip lie apart. -/
theorem rows_apart (hb : Placement b n height) (hne : b.src ≠ b.dst) {r r' : ℕ} (hr : r < height)
    (hr' : r' < height) :
    b.srcAt (r, 0) + n ≤ b.dstAt (r', 0) ∨ b.dstAt (r', 0) + n ≤ b.srcAt (r, 0) := by
  rcases Nat.eq_zero_or_pos n with rfl | hn
  · exact Nat.le_total _ _
  · refine ranges_disjoint hn hn fun i hi j hj heq => ?_
    refine (hb.same_or_disjoint.resolve_left fun h => hne h.1) r' hr' j hj r hr i hi ?_
    simp only [Buffers.dstAt, Buffers.srcAt] at heq ⊢
    omega

/-- Parts of destination rows lie apart. -/
theorem partsDisjoint_rows (hb : Placement b n height) (htop : top < height)
    (hbottom : bottom < height) {hi lo : ℕ} (hhi : hi ≤ n) (hsplit : top = bottom → hi ≤ lo) :
    PartsDisjoint (b.dstAt (top, 0)) (b.dstAt (bottom, 0)) 0 hi lo n := by
  intro i _ hi' j hj hj' heq
  have hpos : ((top, i) : ℕ × ℕ) = (bottom, j) := by
    refine hb.injOn ⟨htop, by simp only; omega⟩ ⟨hbottom, hj'⟩ ?_
    simp only [Buffers.dstAt] at heq ⊢
    omega
  obtain ⟨h1, h2⟩ := Prod.mk.inj hpos
  have := hsplit h1
  omega

variable (top bottom) in
/-- The mirrored swap of two rows, or of the two halves of one. -/
theorem swapReversed_wrote {p pairs : ℕ} (hp : p = P * sz) (hb : Placement b (width * p) height)
    (hsz : ScalarSize sz) (hP : P = 1 ∨ P = 3) (htop : top < height) (hbottom : bottom < height)
    (hpairs : pairs = if top = bottom then width / 2 else width) :
    Wrote b.dstAt (fun q => m (b.dstAt (top + bottom - q.1, mirror width p q.2)))
      (rowsPart (width * p) height {top, bottom}) m
      (swapReversedRowPairInPlace sz P (b.dstAt (top, 0)) (b.dstAt (bottom, 0)) width pairs m) := by
  subst hp
  have hpos : 0 < P * sz := Nat.mul_pos (by omega) hsz.pos
  have hle : pairs ≤ width := by
    rw [hpairs]
    split <;> omega
  have hfront : pairs * (P * sz) ≤ width * (P * sz) := Nat.mul_le_mul_right _ hle
  have hsplit : top = bottom → pairs * (P * sz) ≤ (width - pairs) * (P * sz) := fun h => by
    rw [if_pos h] at hpairs
    exact Nat.mul_le_mul_right _ (by omega)
  have hrows := swapReversedRowPairInPlace_wrote (m := m) hsz hP hle
    (partsDisjoint_rows hb htop hbottom hfront hsplit)
  have hpart := pair_wrote (b := b)
    (v := fun q => m (b.dstAt (top + bottom - q.1, mirror width (P * sz) q.2))) hsplit hrows
    (fun k _ => by rw [Nat.add_sub_cancel_left]; rfl)
    (fun k _ _ => by rw [Nat.add_sub_cancel]; rfl)
  refine hpart.extend (hb.injOn.mono fun q hq => hq.1) ?_ ?_
  · rintro ⟨r, k⟩ (⟨rfl, hk⟩ | ⟨rfl, -, hk⟩)
    · exact ⟨⟨htop, hk.trans_le hfront⟩, .inl rfl⟩
    · exact ⟨⟨hbottom, hk⟩, .inr rfl⟩
  · -- Only the middle pixel of a row that is swapped with itself is left.
    rintro ⟨r, k⟩ ⟨⟨-, hk⟩, hr⟩ hout
    simp only [Set.mem_ofPred_eq, not_or, not_and] at hk hout
    by_cases htb : top = bottom
    · subst htb
      rw [if_pos rfl] at hpairs
      obtain rfl : r = top := hr.elim id id
      have h1 := Nat.le_of_not_lt (hout.1 rfl)
      have h2 : k < (width - pairs) * (P * sz) :=
        Nat.lt_of_not_le fun hle => hout.2 rfl hle hk
      rw [hpairs] at h1 h2
      show m (b.dstAt (r + r - r, mirror width (P * sz) k)) = m (b.dstAt (r, k))
      rw [Nat.add_sub_cancel, mirror_middle hpos h1 h2]
    · rw [if_neg htb] at hpairs
      rw [hpairs, Nat.sub_self, Nat.zero_mul] at hout
      rcases hr with hr | hr
      · exact absurd hk (hout.1 hr)
      · exact absurd hk (hout.2 hr (Nat.zero_le k))

variable (top bottom) in
/-- The straight swap of two rows. -/
theorem swapRows_wrote {p : ℕ} (hp : p = P * sz) (hb : Placement b (width * p) height)
    (hsz : ScalarSize sz) (htop : top < height) (hbottom : bottom < height)
    (hne : top ≠ bottom) :
    Wrote b.dstAt (fun q => m (b.dstAt (top + bottom - q.1, q.2)))
      (rowsPart (width * p) height {top, bottom}) m
      (swapRowPairInPlace sz P (b.dstAt (top, 0)) (b.dstAt (bottom, 0)) width m) := by
  subst hp
  have hrows := swapRowPairInPlace_wrote (P := P) (w := width) (m := m) hsz
    (by rw [Nat.mul_assoc]
        exact partsDisjoint_rows hb htop hbottom le_rfl fun h => absurd h hne)
  rw [Nat.mul_assoc] at hrows
  refine (pair_wrote (b := b) (v := fun q => m (b.dstAt (top + bottom - q.1, q.2)))
    (fun h => absurd h hne) hrows (fun k _ => by rw [Nat.add_sub_cancel_left]; rfl)
    (fun k _ _ => by rw [Nat.add_sub_cancel]; rfl)).congr ?_
  ext ⟨r, k⟩
  simp only [rowsPart, pixels, Set.mem_ofPred_eq, Set.mem_insert_iff, Set.mem_singleton_iff]
  constructor
  · rintro (⟨rfl, hk⟩ | ⟨rfl, -, hk⟩)
    · exact ⟨⟨htop, hk⟩, .inl rfl⟩
    · exact ⟨⟨hbottom, hk⟩, .inr rfl⟩
  · rintro ⟨⟨-, hk⟩, rfl | rfl⟩
    · exact .inl ⟨rfl, hk⟩
    · exact .inr ⟨rfl, Nat.zero_le k, hk⟩

/-- A work item of an in-place flip. -/
theorem workItem_inPlace_wrote {p : ℕ} (hp : p = P * sz) (hb : Placement b (width * p) height)
    (hsz : ScalarSize sz) (hP : P = 1 ∨ P = 3) (hmode : flipMode ≠ .other) (hsame : b.src = b.dst)
    (ht : t < flipWorkItemCount height true flipMode) :
    Wrote b.dstAt (fun q => m (b.dstAt (flipAt flipMode width height p q)))
      (rowsPart (width * p) height (itemRows true flipMode height t)) m
      (workItem sz P b width height flipMode t m) := by
  have hone : ∀ body : ℕ → Mem → Mem, forFrom t (t + 1 - t) body m = body t m := fun body => by
    rw [Nat.add_sub_cancel_left]
    rfl
  simp only [workItem, flipWorkItemsImpl, hsame, if_true]
  cases flipMode with
  | other => exact absurd rfl hmode
  | horizontal =>
    have htop : t < height := ht
    have h := swapReversed_wrote t t (m := m) hp hb hsz hP htop htop (if_pos rfl).symm
    rw [flipInPlace, hone]
    refine (h.congr_value ?_).congr (by simp [itemRows])
    rintro ⟨r, k⟩ ⟨-, hr⟩
    obtain rfl : r = t := hr.elim id id
    show m (b.dstAt (r + r - r, _)) = m (b.dstAt (r, _))
    rw [Nat.add_sub_cancel]
  | vertical =>
    have htop : t < height / 2 := ht
    have h := swapRows_wrote t (height - t - 1) (m := m) hp hb hsz
      (show t < height by omega) (by omega) (by omega)
    rw [flipInPlace, hone]
    refine (h.congr_value ?_).congr (by simp [itemRows])
    rintro ⟨r, k⟩ ⟨-, hr⟩
    show m (b.dstAt (t + (height - t - 1) - r, _)) = m (b.dstAt (height - 1 - r, _))
    congr 3
    omega
  | both =>
    have htop : t < (height + 1) / 2 := ht
    have h := swapReversed_wrote t (height - t - 1) (m := m) hp hb hsz hP
      (show t < height by omega) (by omega) rfl
    rw [flipInPlace, hone]
    refine (h.congr_value ?_).congr (by simp [itemRows])
    rintro ⟨r, k⟩ ⟨-, hr⟩
    show m (b.dstAt (t + (height - t - 1) - r, _)) = m (b.dstAt (height - 1 - r, _))
    congr 3
    omega

/-- A work item of an out-of-place flip. -/
theorem workItem_toDst_wrote {p : ℕ} (hp : p = P * sz) (hb : Placement b (width * p) height)
    (hsz : ScalarSize sz) (hP : P = 1 ∨ P = 3) (hmode : flipMode ≠ .other) (hne : b.src ≠ b.dst)
    (ht : t < height) :
    Wrote b.dstAt (fun q => m (b.srcAt (flipAt flipMode width height p q)))
      (rowsPart (width * p) height (itemRows false flipMode height t)) m
      (workItem sz P b width height flipMode t m) := by
  subst hp
  have hone : ∀ body : ℕ → Mem → Mem, forFrom t (t + 1 - t) body m = body t m := fun body => by
    rw [Nat.add_sub_cancel_left]
    rfl
  have hback : height - 1 - (height - t - 1) = t := by omega
  simp only [workItem, flipWorkItemsImpl, hne, if_false]
  cases flipMode with
  | other => exact absurd rfl hmode
  | horizontal =>
    have h := copyReversedRowToDst_wrote (m := m) hsz hP (rows_apart hb hne ht ht)
    rw [flipToDst, hone]
    refine (row_wrote ht h fun k _ => rfl).congr (by simp [itemRows])
  | vertical =>
    have hrow : height - t - 1 < height := by omega
    have h := copyRowToDst_wrote (P := P) (w := width) (m := m) hsz
      (by rw [Nat.mul_assoc]; exact rows_apart hb hne ht hrow)
    rw [Nat.mul_assoc] at h
    rw [flipToDst, hone]
    refine (row_wrote hrow h fun k _ => ?_).congr (by simp [itemRows])
    rw [flipAt, hback]
    rfl
  | both =>
    have hrow : height - t - 1 < height := by omega
    have h := copyReversedRowToDst_wrote (m := m) hsz hP (rows_apart hb hne ht hrow)
    rw [flipToDst, hone]
    refine (row_wrote hrow h fun k _ => ?_).congr (by simp [itemRows])
    rw [flipAt, hback]
    rfl

theorem flipWorkItemCount_le (inPlace : Bool) :
    flipWorkItemCount height inPlace flipMode ≤ height := by
  unfold flipWorkItemCount
  split_ifs <;> omega

/-- A work item writes its rows of the flipped image. -/
theorem workItem_wrote {p : ℕ} (hp : p = P * sz) (hb : Placement b (width * p) height)
    (hsz : ScalarSize sz) (hP : P = 1 ∨ P = 3) (hmode : flipMode ≠ .other)
    (hstride : b.src = b.dst → b.srcStride = b.dstStride)
    (ht : t < flipWorkItemCount height (b.src = b.dst) flipMode) :
    Wrote b.dstAt (fun q => m (b.srcAt (flipAt flipMode width height p q)))
      (rowsPart (width * p) height (itemRows (b.src = b.dst) flipMode height t)) m
      (workItem sz P b width height flipMode t m) := by
  by_cases hsame : b.src = b.dst
  · have hat : b.srcAt = b.dstAt := by
      funext q
      rw [Buffers.srcAt, Buffers.dstAt, hsame, hstride hsame]
    simp only [hsame, decide_true] at ht ⊢
    rw [hat]
    exact workItem_inPlace_wrote hp hb hsz hP hmode hsame ht
  · simp only [hsame, decide_false] at ht ⊢
    exact workItem_toDst_wrote hp hb hsz hP hmode hsame (ht.trans_le (flipWorkItemCount_le _))

/-! ### All work items -/

variable (flipMode) in
theorem flipAt_mem {p : ℕ} {q : ℕ × ℕ} (hp : 0 < p) (hq : q ∈ pixels (width * p) height) :
    flipAt flipMode width height p q ∈ pixels (width * p) height := by
  obtain ⟨hy, hk⟩ := hq
  cases flipMode with
  | horizontal => exact ⟨hy, mirror_lt hp hk⟩
  | vertical => exact ⟨by simp only [flipAt]; omega, hk⟩
  | both => exact ⟨by simp only [flipAt]; omega, mirror_lt hp hk⟩
  | other => exact ⟨hy, hk⟩

/-- In place, a work item only moves bytes within its own rows. -/
theorem flipAt_row_mem {p : ℕ} {q : ℕ × ℕ} (hmode : flipMode ≠ .other) (ht : t < height)
    (hq : q.1 ∈ itemRows true flipMode height t) :
    (flipAt flipMode width height p q).1 ∈ itemRows true flipMode height t := by
  cases flipMode with
  | other => exact absurd rfl hmode
  | horizontal => exact hq
  | vertical =>
    simp only [itemRows, reduceCtorEq, if_false, if_true, Set.mem_insert_iff,
      Set.mem_singleton_iff, flipAt] at hq ⊢
    omega
  | both =>
    simp only [itemRows, reduceCtorEq, if_false, if_true, Set.mem_insert_iff,
      Set.mem_singleton_iff, flipAt] at hq ⊢
    omega

/-- Different work items have different rows. -/
theorem itemRows_disjoint {inPlace : Bool} {u : ℕ} (hmode : flipMode ≠ .other)
    (ht : t < flipWorkItemCount height inPlace flipMode)
    (hu : u < flipWorkItemCount height inPlace flipMode) (hne : t ≠ u) :
    Disjoint (itemRows inPlace flipMode height t) (itemRows inPlace flipMode height u) := by
  rw [Set.disjoint_left]
  intro r hr hr'
  cases flipMode <;> cases inPlace <;>
    simp only [itemRows, flipWorkItemCount, reduceCtorEq, if_false, if_true, Set.mem_insert_iff,
      Set.mem_singleton_iff, decide_true, decide_false, Bool.not_true, Bool.not_false,
      Bool.or_true, Bool.or_false, Bool.false_eq_true, ne_eq, not_true_eq_false]
      at hr hr' ht hu hmode <;> omega

/-- A row without a work item keeps its place. -/
theorem exists_item_or_fixed (inPlace : Bool) {r : ℕ} (hmode : flipMode ≠ .other) (hr : r < height) :
    (∃ t < flipWorkItemCount height inPlace flipMode, r ∈ itemRows inPlace flipMode height t) ∨
      (inPlace = true ∧ flipMode = .vertical ∧ height - 1 - r = r) := by
  cases flipMode with
  | other => exact absurd rfl hmode
  | horizontal => exact .inl ⟨r, by simpa [flipWorkItemCount] using hr, by simp [itemRows]⟩
  | vertical =>
    cases inPlace with
    | false =>
      refine .inl ⟨height - r - 1, ?_, ?_⟩
      · simp only [flipWorkItemCount, Bool.not_false, Bool.true_or, if_true]
        omega
      · simp only [itemRows, reduceCtorEq, Bool.false_eq_true, if_false, Set.mem_singleton_iff]
        omega
    | true =>
      simp only [itemRows, flipWorkItemCount, reduceCtorEq, if_false, if_true, Bool.not_true,
        decide_false, Bool.or_false, Bool.false_eq_true, Set.mem_insert_iff, Set.mem_singleton_iff,
        true_and]
      by_cases hmid : height - 1 - r = r
      · exact .inr hmid
      · exact .inl ⟨min r (height - 1 - r), by omega, by omega⟩
  | both =>
    cases inPlace with
    | false =>
      refine .inl ⟨height - r - 1, ?_, ?_⟩
      · simp only [flipWorkItemCount, Bool.not_false, Bool.true_or, if_true]
        omega
      · simp only [itemRows, reduceCtorEq, Bool.false_eq_true, if_false, Set.mem_singleton_iff]
        omega
    | true =>
      refine .inl ⟨min r (height - 1 - r), ?_, ?_⟩
      · simp only [flipWorkItemCount, reduceCtorEq, if_false, Bool.not_true, decide_false,
          Bool.or_false, Bool.false_eq_true]
        omega
      · simp only [itemRows, reduceCtorEq, if_false, if_true, Set.mem_insert_iff,
          Set.mem_singleton_iff]
        omega

/-- The memory `m'` holds the flipped image of `m` at the destination and is
`m` elsewhere. -/
def Flipped (b : Buffers) (width height : ℕ) (flipMode : FlipMode) (p : ℕ) (m m' : Mem) : Prop :=
  Wrote b.dstAt (fun q => m (b.srcAt (flipAt flipMode width height p q)))
    (pixels (width * p) height) m m'

/-- Every partition of the work items, in any order, flips the image. -/
theorem workItems_flipped {p : ℕ} (hp : p = P * sz) (hb : Placement b (width * p) height)
    (hsz : ScalarSize sz) (hP : P = 1 ∨ P = 3) (hmode : flipMode ≠ .other)
    (hstride : b.src = b.dst → b.srcStride = b.dstStride) {l : List (ℕ × ℕ)}
    (hl : IsPartition (flipWorkItemCount height (b.src = b.dst) flipMode) l) :
    Flipped b width height flipMode p m
      (l.foldl (fun m r => forFrom r.1 (r.2 - r.1) (workItem sz P b width height flipMode) m) m) := by
  have hpos : 0 < p := hp ▸ Nat.mul_pos (by omega) hsz.pos
  have hat : b.src = b.dst → b.srcAt = b.dstAt := fun hsame => by
    funext q
    rw [Buffers.srcAt, Buffers.dstAt, hsame, hstride hsame]
  have hpieces := Wrote.partition
    (v := fun q => m (b.srcAt (flipAt flipMode width height p q))) (m := m) hb.injOn
    (S := fun t => rowsPart (width * p) height (itemRows (b.src = b.dst) flipMode height t))
    (f := workItem sz P b width height flipMode) (fun t _ q hq => hq.1) hl ?_
  · refine Wrote.extend hb.injOn hpieces (Wrote.pieces_subset fun t _ q hq => hq.1) ?_
    rintro ⟨r, k⟩ hq hout
    rcases exists_item_or_fixed (decide (b.src = b.dst)) hmode hq.1 with
      ⟨t, ht, hrow⟩ | ⟨hsame, rfl, hmid⟩
    · exact absurd ⟨t, ht, hq, hrow⟩ hout
    · simp only at hmid
      simp only [flipAt, hmid, hat (of_decide_eq_true hsame)]
  · intro t ht D htD hD m' hm'
    -- What the item reads has not been written by another item.
    have hread : ∀ q ∈ rowsPart (width * p) height (itemRows (b.src = b.dst) flipMode height t),
        m' (b.srcAt (flipAt flipMode width height p q)) =
          m (b.srcAt (flipAt flipMode width height p q)) := by
      rintro q ⟨hq, hrow⟩
      refine hm'.read ?_
      rintro r ⟨u, huD, hr, hrow'⟩ heq
      have hflip := flipAt_mem flipMode hpos hq
      have hpos := hb.eq_of_dstAt_eq_srcAt hr hflip heq
      by_cases hsame : b.src = b.dst
      · simp only [hsame, decide_true] at hrow hrow' ht hD
        have hmem : (flipAt flipMode width height p q).1 ∈ itemRows true flipMode height t :=
          flipAt_row_mem hmode (ht.trans_le (flipWorkItemCount_le _)) hrow
        rw [← hpos] at hmem
        exact Set.disjoint_left.mp (itemRows_disjoint hmode ht (hD u huD)
          fun h => htD (h ▸ huD)) hmem hrow'
      · refine hb.same_or_disjoint.resolve_left (fun h => hsame h.1) r.1 hr.1 r.2 hr.2 _ hflip.1 _
          hflip.2 heq
    exact (workItem_wrote hp hb hsz hP hmode hstride ht).congr_value hread

end

theorem flipAt_flipAt {flipMode : FlipMode} {width height p : ℕ} {q : ℕ × ℕ} (hp : 0 < p)
    (hq : q ∈ pixels (width * p) height) :
    flipAt flipMode width height p (flipAt flipMode width height p q) = q := by
  obtain ⟨y, k⟩ := q
  obtain ⟨hy, hk⟩ := hq
  simp only at hy hk
  cases flipMode with
  | horizontal => exact Prod.ext rfl (mirror_mirror hp hk)
  | vertical => exact Prod.ext (by simp only [flipAt]; omega) rfl
  | both => exact Prod.ext (by simp only [flipAt]; omega) (mirror_mirror hp hk)
  | other => rfl

end Flip

open Flip

section

variable {b : Buffers} {width height pixelSize : ℕ} {flipMode : FlipMode} {m : Mem}

/-- What `flip_validate` lets through. -/
structure FlipAccepted (b : Buffers) (width height : ℕ) (flipMode : FlipMode) (pixelSize : ℕ) :
    Prop where
  mode : flipMode ≠ .other
  size : width * height ≤ kleidicvMaxImagePixels
  stride : b.src = b.dst → b.srcStride = b.dstStride
  pixel : ∃ sz P, ScalarSize sz ∧ (P = 1 ∨ P = 3) ∧ pixelSize = P * sz ∧
    ∀ begin_ end_ m, flipWorkItems b width height flipMode pixelSize begin_ end_ m =
      flipWorkItemsImpl sz P b width height flipMode begin_ end_ m

theorem flipValidateScalar_ok {sz : ℕ} (h : flipValidateScalar sz b width height flipMode = .ok) :
    flipMode ≠ .other ∧ width * height ≤ kleidicvMaxImagePixels ∧
      (b.src = b.dst → b.srcStride = b.dstStride) := by
  unfold flipValidateScalar at h
  split_ifs at h with h1 h2 h3 h4 h5 h6 h7
  · exact absurd h h3
  · exact absurd h h4
  · refine ⟨h7, checkImageSize_iff.mp (by simpa using h5), fun hsame => ?_⟩
    by_contra hne
    exact h6 ⟨hsame, hne⟩

theorem flipValidate_ok (h : flipValidate b width height flipMode pixelSize = .ok) :
    FlipAccepted b width height flipMode pixelSize := by
  unfold flipValidate at h
  split at h
  all_goals first
    | exact absurd h (by decide)
    | obtain ⟨h1, h2, h3⟩ := flipValidateScalar_ok h
  · exact ⟨h1, h2, h3, 1, 1, .inl rfl, .inl rfl, rfl, fun _ _ _ => rfl⟩
  · exact ⟨h1, h2, h3, 1, 3, .inl rfl, .inr rfl, rfl, fun _ _ _ => rfl⟩
  · exact ⟨h1, h2, h3, 2, 1, .inr (.inl rfl), .inl rfl, rfl, fun _ _ _ => rfl⟩
  · exact ⟨h1, h2, h3, 2, 3, .inr (.inl rfl), .inr rfl, rfl, fun _ _ _ => rfl⟩
  · exact ⟨h1, h2, h3, 4, 1, .inr (.inr (.inl rfl)), .inl rfl, rfl, fun _ _ _ => rfl⟩
  · exact ⟨h1, h2, h3, 8, 1, .inr (.inr (.inr rfl)), .inl rfl, rfl, fun _ _ _ => rfl⟩

/-- What is promised of an accepted flip. -/
structure FlipCorrect (b : Buffers) (width height : ℕ) (flipMode : FlipMode) (pixelSize : ℕ)
    (m : Mem) : Prop where
  flipped : ∃ m', kleidicvFlip b width height flipMode pixelSize m = (.ok, m') ∧
    Flipped b width height flipMode pixelSize m m'
  threaded : ∀ mt, kleidicvThreadFlip b width height flipMode pixelSize mt m =
    kleidicvFlip b width height flipMode pixelSize m
  /-- Work items write different rows. -/
  rows_disjoint : ∀ t < flipWorkItemCount height (b.src = b.dst) flipMode,
    ∀ u < flipWorkItemCount height (b.src = b.dst) flipMode, t ≠ u →
      Disjoint (itemRows (b.src = b.dst) flipMode height t)
        (itemRows (b.src = b.dst) flipMode height u)
  /-- A work item writes its rows only, in place from the bytes of these rows. -/
  rows_local : ∀ t < flipWorkItemCount height (b.src = b.dst) flipMode, ∀ m,
    Wrote b.dstAt (fun q => m (b.srcAt (flipAt flipMode width height pixelSize q)))
      (rowsPart (width * pixelSize) height (itemRows (b.src = b.dst) flipMode height t)) m
      (flipWorkItems b width height flipMode pixelSize t (t + 1) m).2 ∧
    (b.src = b.dst → ∀ q, q.1 ∈ itemRows (b.src = b.dst) flipMode height t →
      (flipAt flipMode width height pixelSize q).1 ∈
        itemRows (b.src = b.dst) flipMode height t)
  any_order : ∀ l, IsPartition (flipWorkItemCount height (b.src = b.dst) flipMode) l →
    l.foldl (fun m r => (flipWorkItems b width height flipMode pixelSize r.1 r.2 m).2) m =
      (kleidicvFlip b width height flipMode pixelSize m).2
  involutive : b.src = b.dst →
    kleidicvFlip b width height flipMode pixelSize
      (kleidicvFlip b width height flipMode pixelSize m).2 = (.ok, m)

/-- The work items of an accepted flip under any partition. -/
theorem flipWorkItems_flipped (hb : Placement b (width * pixelSize) height)
    (h : FlipAccepted b width height flipMode pixelSize) {l : List (ℕ × ℕ)}
    (hl : IsPartition (flipWorkItemCount height (b.src = b.dst) flipMode) l) :
    Flipped b width height flipMode pixelSize m
      (l.foldl (fun m r => (flipWorkItems b width height flipMode pixelSize r.1 r.2 m).2) m) := by
  obtain ⟨sz, P, hsz, hP, hp, hitems⟩ := h.pixel
  have hfold : (fun (m : Mem) (r : ℕ × ℕ) =>
      (flipWorkItems b width height flipMode pixelSize r.1 r.2 m).2) =
      fun m r => forFrom r.1 (r.2 - r.1) (workItem sz P b width height flipMode) m := by
    funext m r
    rw [hitems, flipWorkItemsImpl_eq h.mode]
  rw [hfold]
  exact workItems_flipped hp hb hsz hP h.mode h.stride hl

/-- An accepted call runs all work items. -/
theorem kleidicvFlip_eq (hb : Placement b (width * pixelSize) height)
    (hok : flipValidate b width height flipMode pixelSize = .ok) :
    kleidicvFlip b width height flipMode pixelSize m =
      (.ok, (flipWorkItems b width height flipMode pixelSize 0
        (flipWorkItemCount height (b.src = b.dst) flipMode) m).2) := by
  have h := flipValidate_ok hok
  have hflip := flipWorkItems_flipped (m := m) hb h (IsPartition.whole _)
  simp only [kleidicvFlip, hok, ne_eq, not_true_eq_false, if_false]
  split
  · rename_i hempty
    -- No byte is written.
    refine Prod.ext rfl (funext fun a => (hflip.frame a ?_).symm)
    rintro ⟨y, k⟩ ⟨hy, hk⟩
    rcases hempty with rfl | rfl
    · simp at hk
    · simp at hy
  · obtain ⟨sz, P, -, -, -, hitems⟩ := h.pixel
    rw [hitems, flipWorkItemsImpl_eq h.mode]

/-- The threaded entry point, under every schedule. -/
theorem kleidicvThreadFlip_eq (hb : Placement b (width * pixelSize) height)
    (hok : flipValidate b width height flipMode pixelSize = .ok)
    (mt : Multithreading (taskCount (flipWorkItemCount height (b.src = b.dst) flipMode) 1)) :
    kleidicvThreadFlip b width height flipMode pixelSize mt m =
      kleidicvFlip b width height flipMode pixelSize m := by
  have h := flipValidate_ok hok
  obtain ⟨sz, P, -, -, -, hitems⟩ := h.pixel
  simp only [kleidicvThreadFlip, hok, ne_eq, not_true_eq_false, if_false]
  split
  · rename_i hempty
    simp only [kleidicvFlip, hok, ne_eq, not_true_eq_false, if_false, if_pos hempty]
  · rename_i hempty
    rw [kleidicvFlip_eq hb hok]
    split
    · rename_i hcount
      rw [hcount, hitems, flipWorkItemsImpl_eq h.mode]
      rfl
    · rename_i hcount
      have hheight : height ≤ width * height := Nat.le_mul_of_pos_left _ (by omega)
      have hle : flipWorkItemCount height (b.src = b.dst) flipMode ≤ height :=
        flipWorkItemCount_le _
      have hmax : kleidicvMaxImagePixels < sizeMod := by decide
      have hsize := h.size
      have hpart := parallelBatches_isPartition (by omega) (Nat.pos_of_ne_zero hcount) mt.tasks
      rw [runParallelBatches_of_ok _ mt m
        (f := fun b' e' m => (flipWorkItems b width height flipMode pixelSize b' e' m).2)
        fun b' e' s => by rw [hitems, flipWorkItemsImpl_eq h.mode]]
      exact Prod.ext rfl ((flipWorkItems_flipped hb h hpart).eq_of
        (flipWorkItems_flipped hb h (IsPartition.whole _)))

/-- **An accepted flip writes the flipped image**, out of place and in place;
the threaded version gives the same under every schedule, its work items own
different rows, any partition of them in any order gives the same image, and
flipping twice in place restores the original. -/
theorem flip_correct (hb : Placement b (width * pixelSize) height)
    (hok : flipValidate b width height flipMode pixelSize = .ok) :
    FlipCorrect b width height flipMode pixelSize m := by
  have h := flipValidate_ok hok
  obtain ⟨sz, P, hsz, hP, hp, hitems⟩ := h.pixel
  have hpos : 0 < pixelSize := hp ▸ Nat.mul_pos (by omega) hsz.pos
  have hany : ∀ {m : Mem} {l}, IsPartition (flipWorkItemCount height (b.src = b.dst) flipMode) l →
      Flipped b width height flipMode pixelSize m
        (l.foldl (fun m r => (flipWorkItems b width height flipMode pixelSize r.1 r.2 m).2) m) :=
    fun hl => flipWorkItems_flipped hb h hl
  have hsingle : ∀ m, kleidicvFlip b width height flipMode pixelSize m = (.ok, _) :=
    fun m => kleidicvFlip_eq hb hok
  have hflipped : ∀ m, Flipped b width height flipMode pixelSize m
      (kleidicvFlip b width height flipMode pixelSize m).2 := fun m => by
    rw [hsingle]
    exact hany (IsPartition.whole _)
  have hat : b.src = b.dst → b.srcAt = b.dstAt := fun hsame => by
    funext q
    rw [Buffers.srcAt, Buffers.dstAt, hsame, h.stride hsame]
  refine ⟨⟨_, by rw [hsingle], hflipped m⟩, fun mt => ?_, fun t ht u hu hne =>
    itemRows_disjoint h.mode ht hu hne, fun t ht m => ⟨?_, fun hsame q hq => ?_⟩, fun l hl =>
    (hany hl).eq_of (hflipped m), fun hsame => ?_⟩
  · exact kleidicvThreadFlip_eq hb hok mt
  · have hitem : workItem sz P b width height flipMode t m =
        (flipWorkItems b width height flipMode pixelSize t (t + 1) m).2 := by rw [hitems]; rfl
    rw [← hitem]
    exact workItem_wrote hp hb hsz hP h.mode h.stride ht
  · simp only [hsame, decide_true] at ht hq ⊢
    exact flipAt_row_mem h.mode (ht.trans_le (flipWorkItemCount_le _)) hq
  · -- The second flip writes the bytes that were there before the first.
    have hback : Flipped b width height flipMode pixelSize
        (kleidicvFlip b width height flipMode pixelSize m).2 m := by
      refine ⟨fun q hq => ?_, fun a ha => ((hflipped m).frame a ha).symm⟩
      rw [hat hsame, (hflipped m).value _ (flipAt_mem flipMode hpos hq), hat hsame,
        flipAt_flipAt hpos hq]
    have heq := (hflipped _).eq_of hback
    rw [hsingle] at heq ⊢
    rw [heq]

end

/-- Three pixels of three bytes, flipped in place. -/
def colourRow : Buffers where
  src := 1000
  srcStride := 9
  dst := 1000
  dstStride := 9

theorem flip_correct_colourRow :
    FlipCorrect colourRow 3 1 .horizontal 3 (fun a => Fin.ofNat 256 a) :=
  flip_correct ⟨.inl (by decide), .inl ⟨rfl, rfl⟩⟩ (by decide)

end KleidiCV
