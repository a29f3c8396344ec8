/-
`kleidicv_flip` on scalable vectors, over whole images.

A work item leaves the memory that the work item of the Neon flip leaves, so that what is known
of partitions and orders there holds here.  The tallies add where the kernels look: loads stay
in the source rows, and each byte that has another place to go to is stored once.

* `workItem_mem`, `workItem_touched` — one work item;
* `flip_exact` — any partition of the work items, in any order.
-/
import KleidiCV.FlipImage
import KleidiCV.ScalableFlip

open Loop

namespace KleidiCV

namespace Scalable

namespace Flip

open KleidiCV.Flip (flipAt itemRows rowsPart Flipped)

/-- `flip_to_dst`. -/
def flipToDst (vl : VectorLength) (sz P : ℕ) (b : Buffers) (width height : ℕ) (flipMode : FlipMode)
    (workItemsBegin workItemsEnd : ℕ) (r : Tallied U8) : KleidicvError × Tallied U8 :=
  match flipMode with
  | .horizontal =>
    (.ok, forFrom workItemsBegin (workItemsEnd - workItemsBegin) (fun srcRowIdx r =>
      let srcRow := b.srcAt (srcRowIdx, 0)
      let dstRow := b.dstAt (srcRowIdx, 0)
      copyReversedRowToDst vl sz P srcRow dstRow width r) r)
  | .vertical =>
    (.ok, forFrom workItemsBegin (workItemsEnd - workItemsBegin) (fun srcRowIdx r =>
      let srcRow := b.srcAt (srcRowIdx, 0)
      let dstRow := b.dstAt (height - srcRowIdx - 1, 0)
      copyRowToDst vl sz P srcRow dstRow width r) r)
  | .both =>
    (.ok, forFrom workItemsBegin (workItemsEnd - workItemsBegin) (fun srcRowIdx r =>
      let srcRow := b.srcAt (srcRowIdx, 0)
      let dstRow := b.dstAt (height - srcRowIdx - 1, 0)
      copyReversedRowToDst vl sz P srcRow dstRow width r) r)
  | .other => (.notImplemented, r)

/-- `flip_in_place`; the rows are those of the destination. -/
def flipInPlace (vl : VectorLength) (sz P : ℕ) (b : Buffers) (width height : ℕ)
    (flipMode : FlipMode) (workItemsBegin workItemsEnd : ℕ) (r : Tallied U8) :
    KleidicvError × Tallied U8 :=
  match flipMode with
  | .horizontal =>
    (.ok, forFrom workItemsBegin (workItemsEnd - workItemsBegin) (fun rowIdx r =>
      let row := b.dstAt (rowIdx, 0)
      -- The middle pixel of an odd width can stay in its place.
      swapReversedRowPairInPlace vl sz P row row width (width / 2) r) r)
  | .vertical =>
    (.ok, forFrom workItemsBegin (workItemsEnd - workItemsBegin) (fun topRowIdx r =>
      let bottomRowIdx := height - topRowIdx - 1
      let topRow := b.dstAt (topRowIdx, 0)
      let bottomRow := b.dstAt (bottomRowIdx, 0)
      swapRowPairInPlace vl sz P topRow bottomRow width r) r)
  | .both =>
    (.ok, forFrom workItemsBegin (workItemsEnd - workItemsBegin) (fun topRowIdx r =>
      let bottomRowIdx := height - topRowIdx - 1
      let topRow := b.dstAt (topRowIdx, 0)
      let bottomRow := b.dstAt (bottomRowIdx, 0)
      let numPixelPairsToSwap := if topRowIdx = bottomRowIdx then width / 2 else width
      swapReversedRowPairInPlace vl sz P topRow bottomRow width numPixelPairsToSwap r) r)
  | .other => (.notImplemented, r)

/-- `flip_work_items_impl<ScalarType, kScalarsPerPixel>`. -/
def flipWorkItemsImpl (vl : VectorLength) (sz P : ℕ) (b : Buffers) (width height : ℕ)
    (flipMode : FlipMode) (workItemsBegin workItemsEnd : ℕ) (r : Tallied U8) :
    KleidicvError × Tallied U8 :=
  if b.src = b.dst then
    flipInPlace vl sz P b width height flipMode workItemsBegin workItemsEnd r
  else flipToDst vl sz P b width height flipMode workItemsBegin workItemsEnd r

/-- `flip_work_items`. -/
def flipWorkItems (vl : VectorLength) (b : Buffers) (width height : ℕ) (flipMode : FlipMode)
    (pixelSize workItemsBegin workItemsEnd : ℕ) (r : Tallied U8) : KleidicvError × Tallied U8 :=
  match pixelSize with
  | 1 => flipWorkItemsImpl vl 1 1 b width height flipMode workItemsBegin workItemsEnd r
  | 2 => flipWorkItemsImpl vl 2 1 b width height flipMode workItemsBegin workItemsEnd r
  | 4 => flipWorkItemsImpl vl 4 1 b width height flipMode workItemsBegin workItemsEnd r
  | 8 => flipWorkItemsImpl vl 8 1 b width height flipMode workItemsBegin workItemsEnd r
  | 3 => flipWorkItemsImpl vl 1 3 b width height flipMode workItemsBegin workItemsEnd r
  | 6 => flipWorkItemsImpl vl 2 3 b width height flipMode workItemsBegin workItemsEnd r
  | _ => (.notImplemented, r)

/-- `flip<WorkItemFlipFunction>`. -/
def flip (vl : VectorLength) (b : Buffers) (width height : ℕ) (flipMode : FlipMode)
    (pixelSize : ℕ) (r : Tallied U8) : KleidicvError × Tallied U8 :=
  let error := flipValidate b width height flipMode pixelSize
  if error ≠ .ok then (error, r)
  else if width = 0 ∨ height = 0 then (.ok, r)
  else
    let workItemCount := flipWorkItemCount height (b.src = b.dst) flipMode
    flipWorkItems vl b width height flipMode pixelSize 0 workItemCount r

/-! ### One work item -/

/-- The loop body for one work item. -/
def workItem (vl : VectorLength) (sz P : ℕ) (b : Buffers) (width height : ℕ)
    (flipMode : FlipMode) (t : ℕ) (r : Tallied U8) : Tallied U8 :=
  (flipWorkItemsImpl vl sz P b width height flipMode t (t + 1) r).2

/-- The bytes that a flip stores: in place, those that have another place to go to. -/
def storedBytes (inPlace : Bool) (flipMode : FlipMode) (width height p : ℕ) : Set (ℕ × ℕ) :=
  {q | q ∈ pixels (width * p) height ∧ (inPlace = true → flipAt flipMode width height p q ≠ q)}

section

variable {vl : VectorLength} {sz P width height t : ℕ} {b : Buffers} {flipMode : FlipMode}
  {r : Tallied U8}

theorem forFrom_one (body : ℕ → Tallied U8 → Tallied U8) (t : ℕ) (r : Tallied U8) :
    forFrom t (t + 1 - t) body r = body t r := by
  rw [Nat.add_sub_cancel_left]
  rfl

theorem forFrom_one_mem (body : ℕ → Mem → Mem) (t : ℕ) (m : Mem) :
    forFrom t (t + 1 - t) body m = body t m := by
  rw [Nat.add_sub_cancel_left]
  rfl

theorem flipWorkItemsImpl_eq (hmode : flipMode ≠ .other) (begin_ end_ : ℕ) :
    flipWorkItemsImpl vl sz P b width height flipMode begin_ end_ r =
      (.ok, forFrom begin_ (end_ - begin_) (workItem vl sz P b width height flipMode) r) := by
  have hbody : ∀ body : ℕ → Tallied U8 → Tallied U8,
      (∀ t r, flipWorkItemsImpl vl sz P b width height flipMode t (t + 1) r =
        (.ok, forFrom t (t + 1 - t) body r)) →
      workItem vl sz P b width height flipMode = body := by
    intro body h
    funext t r
    rw [workItem, h, forFrom_one]
  by_cases hsame : b.src = b.dst
  · simp only [flipWorkItemsImpl, if_pos hsame] at hbody ⊢
    cases flipMode with
    | other => exact absurd rfl hmode
    | horizontal => rw [hbody _ fun _ _ => rfl]; rfl
    | vertical => rw [hbody _ fun _ _ => rfl]; rfl
    | both => rw [hbody _ fun _ _ => rfl]; rfl
  · simp only [flipWorkItemsImpl, if_neg hsame] at hbody ⊢
    cases flipMode with
    | other => exact absurd rfl hmode
    | horizontal => rw [hbody _ fun _ _ => rfl]; rfl
    | vertical => rw [hbody _ fun _ _ => rfl]; rfl
    | both => rw [hbody _ fun _ _ => rfl]; rfl

/-- A byte keeps its place under the mirror in the middle pixel only. -/
theorem mirror_eq_self_iff {w p k : ℕ} (hp : 0 < p) (hk : k < w * p) :
    mirror w p k = k ↔ w / 2 * p ≤ k ∧ k < (w - w / 2) * p := by
  constructor
  · intro h
    have hq : k / p < w := Nat.div_lt_of_lt_mul (by rwa [Nat.mul_comm] at hk)
    have hsplit : k / p * p + k % p = k := Nat.div_add_mod' k p
    have hsame : (w - 1 - k / p) * p = k / p * p := by
      rw [mirror] at h
      omega
    have hpixel : w - 1 - k / p = k / p := Nat.eq_of_mul_eq_mul_right hp hsame
    generalize k / p = q at hq hpixel hsplit
    have hlow : w / 2 * p ≤ q * p := Nat.mul_le_mul_right p (by omega)
    have hhigh : (q + 1) * p ≤ (w - w / 2) * p := Nat.mul_le_mul_right p (by omega)
    have hmod := Nat.mod_lt k hp
    rw [Nat.succ_mul] at hhigh
    omega
  · rintro ⟨h1, h2⟩
    exact mirror_middle hp h1 h2

/-- Part of a destination row, as bytes of the image. -/
theorem dstRow_eq_image (b : Buffers) (row lo hi : ℕ) :
    Set.Ico (b.dstAt (row, 0) + lo) (b.dstAt (row, 0) + hi) =
      b.dstAt '' {q | q.1 = row ∧ lo ≤ q.2 ∧ q.2 < hi} := by
  ext a
  simp only [Buffers.dstAt, Nat.add_zero]
  constructor
  · rintro ⟨h1, h2⟩
    obtain ⟨k, rfl⟩ := Nat.exists_eq_add_of_le (show b.dst + row * b.dstStride ≤ a by omega)
    exact ⟨(row, k), ⟨rfl, show lo ≤ k by omega, show k < hi by omega⟩, rfl⟩
  · rintro ⟨⟨r, k⟩, ⟨rfl, h1, h2⟩, rfl⟩
    have hlo : lo ≤ k := h1
    have hhi : k < hi := h2
    show b.dst + r * b.dstStride + lo ≤ b.dst + r * b.dstStride + k ∧
      b.dst + r * b.dstStride + k < b.dst + r * b.dstStride + hi
    exact ⟨by omega, by omega⟩

/-- A source row lies in the source image. -/
theorem srcRow_subset {n row : ℕ} (hrow : row < height) :
    Set.Ico (b.srcAt (row, 0)) (b.srcAt (row, 0) + n) ⊆ b.srcAt '' pixels n height := by
  rintro a ⟨h1, h2⟩
  simp only [Buffers.srcAt, Nat.add_zero] at h1 h2
  obtain ⟨k, rfl⟩ := Nat.exists_eq_add_of_le h1
  exact ⟨(row, k), ⟨hrow, show k < n by omega⟩, rfl⟩

/-- Destination bytes as source bytes, when both images are one. -/
theorem dst_subset_src {n : ℕ} {S : Set (ℕ × ℕ)} (hsame : b.src = b.dst)
    (hstride : b.srcStride = b.dstStride) (hS : S ⊆ pixels n height) :
    b.dstAt '' S ⊆ b.srcAt '' pixels n height := by
  have hat : b.srcAt = b.dstAt := by
    funext q
    rw [Buffers.srcAt, Buffers.dstAt, hsame, hstride]
  rw [hat]
  exact Set.image_mono hS

/-- The bytes that work item `t` stores. -/
def itemBytes (inPlace : Bool) (flipMode : FlipMode) (width height p t : ℕ) : Set (ℕ × ℕ) :=
  {q | q ∈ storedBytes inPlace flipMode width height p ∧ q.1 ∈ itemRows inPlace flipMode height t}

/-- A row copied to a row of its own. -/
theorem copied_touched {p row src : ℕ} {r' : Tallied U8} (hsrc : src < height)
    (hrow : row < height) (hitem : itemRows false flipMode height t = {row})
    (h : Touched (Set.Ico (b.srcAt (src, 0)) (b.srcAt (src, 0) + width * p))
      (Set.Ico (b.dstAt (row, 0)) (b.dstAt (row, 0) + width * p)) r r') :
    Touched (b.srcAt '' pixels (width * p) height)
      (b.dstAt '' itemBytes false flipMode width height p t) r r' := by
  refine h.congr (srcRow_subset hsrc) ?_
  have himage := dstRow_eq_image b row 0 (width * p)
  rw [Nat.add_zero] at himage
  rw [himage]
  congr 1
  ext ⟨y, k⟩
  constructor
  · rintro ⟨rfl, -, hk⟩
    exact ⟨⟨⟨hrow, hk⟩, fun h => absurd h Bool.false_ne_true⟩, by rw [hitem]; rfl⟩
  · rintro ⟨⟨⟨-, hk⟩, -⟩, hy⟩
    rw [hitem] at hy
    exact ⟨hy, Nat.zero_le _, hk⟩

/-- A work item of an out-of-place flip. -/
theorem workItem_toDst {p : ℕ} (hp : p = P * sz) (hb : Placement b (width * p) height)
    (hsz : ScalarSize sz) (hP : P = 1 ∨ P = 3) (hmode : flipMode ≠ .other) (hne : b.src ≠ b.dst)
    (ht : t < height) :
    (workItem vl sz P b width height flipMode t r).mem =
        KleidiCV.Flip.workItem sz P b width height flipMode t r.mem ∧
      Touched (b.srcAt '' pixels (width * p) height)
        (b.dstAt '' itemBytes false flipMode width height p t) r
        (workItem vl sz P b width height flipMode t r) := by
  subst hp
  have hrow : height - t - 1 < height := by omega
  have hapart : ∀ {row}, row < height →
      b.srcAt (t, 0) + width * (P * sz) ≤ b.dstAt (row, 0) ∨
        b.dstAt (row, 0) + width * (P * sz) ≤ b.srcAt (t, 0) := fun h =>
    KleidiCV.Flip.rows_apart hb hne ht h
  simp only [workItem, flipWorkItemsImpl, KleidiCV.Flip.workItem,
    KleidiCV.Flip.flipWorkItemsImpl, hne, if_false]
  cases flipMode with
  | other => exact absurd rfl hmode
  | horizontal =>
    have hspec := copyReversedRowToDst_spec vl (r := r) hsz hP (hapart ht)
    rw [flipToDst, KleidiCV.Flip.flipToDst, forFrom_one, forFrom_one_mem]
    exact ⟨hspec.1.eq_of (KleidiCV.Flip.copyReversedRowToDst_wrote hsz hP (hapart ht)),
      copied_touched ht ht (by simp [itemRows]) hspec.2⟩
  | vertical =>
    have hd : b.srcAt (t, 0) + width * P * sz ≤ b.dstAt (height - t - 1, 0) ∨
        b.dstAt (height - t - 1, 0) + width * P * sz ≤ b.srcAt (t, 0) := by
      rw [Nat.mul_assoc]
      exact hapart hrow
    have hspec := copyRowToDst_spec vl (P := P) (w := width) (r := r) hsz hd
    rw [flipToDst, KleidiCV.Flip.flipToDst, forFrom_one, forFrom_one_mem]
    refine ⟨hspec.1.eq_of (KleidiCV.Flip.copyRowToDst_wrote hsz hd), ?_⟩
    rw [Nat.mul_assoc] at hspec
    exact copied_touched ht hrow (by simp [itemRows]) hspec.2
  | both =>
    have hspec := copyReversedRowToDst_spec vl (r := r) hsz hP (hapart hrow)
    rw [flipToDst, KleidiCV.Flip.flipToDst, forFrom_one, forFrom_one_mem]
    exact ⟨hspec.1.eq_of (KleidiCV.Flip.copyReversedRowToDst_wrote hsz hP (hapart hrow)),
      copied_touched ht hrow (by simp [itemRows]) hspec.2⟩

/-- The mirrored swap of two rows, or of the two halves of one. -/
theorem swapReversed_spec (vl : VectorLength) {p pairs : ℕ} (top bottom : ℕ) (hp : p = P * sz)
    (hb : Placement b (width * p) height) (hsz : ScalarSize sz) (hP : P = 1 ∨ P = 3)
    (htop : top < height) (hbottom : bottom < height)
    (hpairs : pairs = if top = bottom then width / 2 else width) :
    (swapReversedRowPairInPlace vl sz P (b.dstAt (top, 0)) (b.dstAt (bottom, 0)) width pairs r).mem =
        KleidiCV.Flip.swapReversedRowPairInPlace sz P (b.dstAt (top, 0)) (b.dstAt (bottom, 0)) width
          pairs r.mem ∧
      Touched
        (b.dstAt '' {q | q ∈ rowsPart (width * p) height {top, bottom} ∧
          (top = bottom → mirror width p q.2 ≠ q.2)})
        (b.dstAt '' {q | q ∈ rowsPart (width * p) height {top, bottom} ∧
          (top = bottom → mirror width p q.2 ≠ q.2)}) r
        (swapReversedRowPairInPlace vl sz P (b.dstAt (top, 0)) (b.dstAt (bottom, 0)) width pairs
          r) := by
  subst hp
  have hpos : 0 < P * sz := Nat.mul_pos (by omega) hsz.pos
  have hle : pairs ≤ width := by
    rw [hpairs]
    split <;> omega
  have hfront : pairs * (P * sz) ≤ width * (P * sz) := Nat.mul_le_mul_right _ hle
  have hsplit : top = bottom → pairs * (P * sz) ≤ (width - pairs) * (P * sz) := fun h => by
    rw [if_pos h] at hpairs
    exact Nat.mul_le_mul_right _ (by omega)
  have hd := KleidiCV.Flip.partsDisjoint_rows hb htop hbottom hfront hsplit
  have hspec := swapReversedRowPairInPlace_spec vl (r := r) hsz hP hle hd
  refine ⟨hspec.1.eq_of (KleidiCV.Flip.swapReversedRowPairInPlace_wrote hsz hP hle hd), ?_⟩
  -- The bytes of both parts are those that have another place to go to.
  have hset : {q : ℕ × ℕ | q.1 = top ∧ 0 ≤ q.2 ∧ q.2 < pairs * (P * sz)} ∪
      {q | q.1 = bottom ∧ (width - pairs) * (P * sz) ≤ q.2 ∧ q.2 < width * (P * sz)} =
      {q | q ∈ rowsPart (width * (P * sz)) height {top, bottom} ∧
        (top = bottom → mirror width (P * sz) q.2 ≠ q.2)} := by
    ext ⟨y, k⟩
    simp only [Set.mem_union, Set.mem_ofPred_eq, rowsPart, pixels, Set.mem_insert_iff,
      Set.mem_singleton_iff]
    by_cases htb : top = bottom
    · subst htb
      rw [if_pos rfl] at hpairs
      subst hpairs
      constructor
      · rintro (⟨rfl, -, hk⟩ | ⟨rfl, hk, hw⟩)
        · refine ⟨⟨⟨htop, by omega⟩, .inl rfl⟩, fun _ heq => ?_⟩
          have := ((mirror_eq_self_iff hpos (by omega)).mp heq).1
          omega
        · refine ⟨⟨⟨htop, hw⟩, .inl rfl⟩, fun _ heq => ?_⟩
          have := ((mirror_eq_self_iff hpos hw).mp heq).2
          omega
      · rintro ⟨⟨⟨-, hk⟩, hy⟩, hmirror⟩
        obtain rfl : y = top := hy.elim id id
        have hout : ¬(width / 2 * (P * sz) ≤ k ∧ k < (width - width / 2) * (P * sz)) := fun h =>
          hmirror rfl ((mirror_eq_self_iff hpos hk).mpr h)
        rcases Nat.lt_or_ge k (width / 2 * (P * sz)) with hlt | hge
        · exact .inl ⟨rfl, Nat.zero_le _, hlt⟩
        · exact .inr ⟨rfl, Nat.le_of_not_lt fun h => hout ⟨hge, h⟩, hk⟩
    · rw [if_neg htb] at hpairs
      subst hpairs
      rw [Nat.sub_self, Nat.zero_mul]
      constructor
      · rintro (⟨rfl, -, hk⟩ | ⟨rfl, -, hk⟩)
        · exact ⟨⟨⟨htop, hk⟩, .inl rfl⟩, fun h => absurd h htb⟩
        · exact ⟨⟨⟨hbottom, hk⟩, .inr rfl⟩, fun h => absurd h htb⟩
      · rintro ⟨⟨⟨-, hk⟩, rfl | rfl⟩, -⟩
        · exact .inl ⟨rfl, Nat.zero_le _, hk⟩
        · exact .inr ⟨rfl, Nat.zero_le _, hk⟩
  have htouched := hspec.2
  have htopRow := dstRow_eq_image b top 0 (pairs * (P * sz))
  rw [Nat.add_zero] at htopRow
  rw [htopRow, dstRow_eq_image, ← Set.image_union, hset] at htouched
  exact htouched

/-- A work item of an in-place flip. -/
theorem workItem_inPlace (vl : VectorLength) {p : ℕ} (hp : p = P * sz) (hb : Placement b (width * p) height)
    (hsz : ScalarSize sz) (hP : P = 1 ∨ P = 3) (hmode : flipMode ≠ .other) (hsame : b.src = b.dst)
    (ht : t < flipWorkItemCount height true flipMode) :
    (workItem vl sz P b width height flipMode t r).mem =
        KleidiCV.Flip.workItem sz P b width height flipMode t r.mem ∧
      Touched (b.dstAt '' itemBytes true flipMode width height p t)
        (b.dstAt '' itemBytes true flipMode width height p t) r
        (workItem vl sz P b width height flipMode t r) := by
  simp only [workItem, flipWorkItemsImpl, KleidiCV.Flip.workItem,
    KleidiCV.Flip.flipWorkItemsImpl, hsame, if_true]
  cases flipMode with
  | other => exact absurd rfl hmode
  | horizontal =>
    have htop : t < height := ht
    have hspec := swapReversed_spec vl (r := r) t t hp hb hsz hP htop htop (if_pos rfl).symm
    have hset : {q | q ∈ rowsPart (width * p) height {t, t} ∧
        (t = t → mirror width p q.2 ≠ q.2)} =
        itemBytes true .horizontal width height p t := by
      ext ⟨y, k⟩
      constructor
      · rintro ⟨⟨hq, hy⟩, hmirror⟩
        refine ⟨⟨hq, fun _ heq => hmirror rfl (Prod.mk.inj heq).2⟩, ?_⟩
        exact hy.elim id id
      · rintro ⟨⟨hq, hmoves⟩, hy⟩
        exact ⟨⟨hq, .inl hy⟩, fun _ heq => hmoves rfl (Prod.ext rfl heq)⟩
    rw [flipInPlace, KleidiCV.Flip.flipInPlace, forFrom_one, forFrom_one_mem]
    rw [hset] at hspec
    exact hspec
  | vertical =>
    have htop : t < height / 2 := ht
    have hbottom : height - t - 1 < height := by omega
    have hne : t ≠ height - t - 1 := by omega
    have hd : KleidiCV.Flip.PartsDisjoint (b.dstAt (t, 0)) (b.dstAt (height - t - 1, 0)) 0
        (width * P * sz) 0 (width * P * sz) := by
      rw [Nat.mul_assoc, ← hp]
      exact KleidiCV.Flip.partsDisjoint_rows hb (by omega) hbottom le_rfl fun h => absurd h hne
    have hspec := swapRowPairInPlace_spec vl (r := r) hsz hd
    rw [flipInPlace, KleidiCV.Flip.flipInPlace, forFrom_one, forFrom_one_mem]
    refine ⟨hspec.1.eq_of (KleidiCV.Flip.swapRowPairInPlace_wrote hsz hd), ?_⟩
    have hset : {q : ℕ × ℕ | q.1 = t ∧ 0 ≤ q.2 ∧ q.2 < width * p} ∪
        {q | q.1 = height - t - 1 ∧ 0 ≤ q.2 ∧ q.2 < width * p} =
        itemBytes true .vertical width height p t := by
      ext ⟨y, k⟩
      have hmoves : ∀ y < height, y = t ∨ y = height - t - 1 → (height - 1 - y, k) ≠ (y, k) := by
        intro y hy hor heq
        have := (Prod.mk.inj heq).1
        omega
      constructor
      · rintro (⟨rfl, -, hk⟩ | ⟨rfl, -, hk⟩)
        · exact ⟨⟨⟨show y < height by omega, hk⟩, fun _ => hmoves y (by omega) (.inl rfl)⟩, .inl rfl⟩
        · exact ⟨⟨⟨hbottom, hk⟩, fun _ => hmoves _ hbottom (.inr rfl)⟩, .inr rfl⟩
      · rintro ⟨⟨⟨-, hk⟩, -⟩, hy | hy⟩
        · exact .inl ⟨hy, Nat.zero_le _, hk⟩
        · exact .inr ⟨hy, Nat.zero_le _, hk⟩
    have htouched := hspec.2
    have hrow := fun row => dstRow_eq_image b row 0 (width * p)
    simp only [Nat.add_zero] at hrow
    rw [Nat.mul_assoc, ← hp, hrow, hrow, ← Set.image_union, hset] at htouched
    exact htouched
  | both =>
    have htop : t < (height + 1) / 2 := ht
    have hbottom : height - t - 1 < height := by omega
    have hspec := swapReversed_spec vl (r := r) t (height - t - 1) hp hb hsz hP
      (show t < height by omega) hbottom rfl
    have hset : {q | q ∈ rowsPart (width * p) height {t, height - t - 1} ∧
        (t = height - t - 1 → mirror width p q.2 ≠ q.2)} =
        itemBytes true .both width height p t := by
      ext ⟨y, k⟩
      constructor
      · rintro ⟨⟨hq, hy⟩, hmirror⟩
        refine ⟨⟨hq, fun _ heq => ?_⟩, hy⟩
        obtain ⟨h1, h2⟩ := Prod.mk.inj heq
        refine hmirror ?_ h2
        have hy' : y = t ∨ y = height - t - 1 := hy
        omega
      · rintro ⟨⟨hq, hmoves⟩, hy⟩
        refine ⟨⟨hq, hy⟩, fun htb heq => hmoves rfl (Prod.ext ?_ heq)⟩
        have hy' : y = t ∨ y = height - t - 1 := hy
        show height - 1 - y = y
        omega
    rw [flipInPlace, KleidiCV.Flip.flipInPlace, forFrom_one, forFrom_one_mem]
    rw [hset] at hspec
    exact hspec

/-- **A work item leaves the memory of the Neon work item**, and accesses its rows only. -/
theorem workItem_exact {p : ℕ} (hp : p = P * sz) (hb : Placement b (width * p) height)
    (hsz : ScalarSize sz) (hP : P = 1 ∨ P = 3) (hmode : flipMode ≠ .other)
    (hstride : b.src = b.dst → b.srcStride = b.dstStride)
    (ht : t < flipWorkItemCount height (b.src = b.dst) flipMode) (r : Tallied U8) :
    (workItem vl sz P b width height flipMode t r).mem =
        KleidiCV.Flip.workItem sz P b width height flipMode t r.mem ∧
      Touched (b.srcAt '' pixels (width * p) height)
        (b.dstAt '' itemBytes (b.src = b.dst) flipMode width height p t) r
        (workItem vl sz P b width height flipMode t r) := by
  by_cases hsame : b.src = b.dst
  · simp only [hsame, decide_true] at ht ⊢
    obtain ⟨hmem, htouched⟩ := workItem_inPlace vl (r := r) hp hb hsz hP hmode hsame ht
    exact ⟨hmem, htouched.congr (dst_subset_src hsame (hstride hsame) fun q hq => hq.1.1) rfl⟩
  · simp only [hsame, decide_false] at ht ⊢
    exact workItem_toDst hp hb hsz hP hmode hsame
      (ht.trans_le (KleidiCV.Flip.flipWorkItemCount_le _))

/-! ### All work items -/

/-- The memory of any partition of the work items is that of the Neon flip. -/
theorem workItems_mem {p : ℕ} (hp : p = P * sz) (hb : Placement b (width * p) height)
    (hsz : ScalarSize sz) (hP : P = 1 ∨ P = 3) (hmode : flipMode ≠ .other)
    (hstride : b.src = b.dst → b.srcStride = b.dstStride) {l : List (ℕ × ℕ)}
    (hl : ∀ q ∈ l, q.1 ≤ q.2 ∧ q.2 ≤ flipWorkItemCount height (b.src = b.dst) flipMode)
    (r : Tallied U8) :
    (l.foldl (fun r q => forFrom q.1 (q.2 - q.1) (workItem vl sz P b width height flipMode) r)
        r).mem =
      l.foldl (fun m q => forFrom q.1 (q.2 - q.1)
        (KleidiCV.Flip.workItem sz P b width height flipMode) m) r.mem := by
  induction l generalizing r with
  | nil => rfl
  | cons q l ih =>
    have hq := hl q List.mem_cons_self
    rw [List.foldl_cons, List.foldl_cons, ih (fun q' h => hl q' (List.mem_cons_of_mem _ h))]
    congr 1
    refine forRange_rel (fun _ (s : Tallied U8) m => s.mem = m) rfl fun i hi s m hsm => ?_
    rw [(workItem_exact hp hb hsz hP hmode hstride (by omega) s).1, hsm]

/-- The work items store the bytes that have another place to go to. -/
theorem itemBytes_union {p : ℕ} (hmode : flipMode ≠ .other) (inPlace : Bool) :
    {a | ∃ t < flipWorkItemCount height inPlace flipMode,
      a ∈ b.dstAt '' itemBytes inPlace flipMode width height p t} =
      b.dstAt '' storedBytes inPlace flipMode width height p := by
  ext a
  constructor
  · rintro ⟨t, -, q, hq, rfl⟩
    exact ⟨q, hq.1, rfl⟩
  · rintro ⟨q, hq, rfl⟩
    obtain ⟨t, ht, hrow⟩ | ⟨hsame, rfl, hmid⟩ :=
      KleidiCV.Flip.exists_item_or_fixed inPlace hmode hq.1.1
    · exact ⟨t, ht, q, ⟨hq, hrow⟩, rfl⟩
    · have hfixed : flipAt .vertical width height p q = q := Prod.ext hmid rfl
      exact absurd hfixed (hq.2 hsame)

/-- Any partition of the work items flips the image, and stores each byte once. -/
theorem workItems_exact (vl : VectorLength) {p : ℕ} (hp : p = P * sz) (hb : Placement b (width * p) height)
    (hsz : ScalarSize sz) (hP : P = 1 ∨ P = 3) (hmode : flipMode ≠ .other)
    (hstride : b.src = b.dst → b.srcStride = b.dstStride) {l : List (ℕ × ℕ)}
    (hl : IsPartition (flipWorkItemCount height (b.src = b.dst) flipMode) l) (r : Tallied U8) :
    Flipped b width height flipMode p r.mem
        (l.foldl (fun r q => forFrom q.1 (q.2 - q.1) (workItem vl sz P b width height flipMode) r)
          r).mem ∧
      Touched (b.srcAt '' pixels (width * p) height)
        (b.dstAt '' storedBytes (b.src = b.dst) flipMode width height p) r
        (l.foldl (fun r q => forFrom q.1 (q.2 - q.1) (workItem vl sz P b width height flipMode) r)
          r) := by
  refine ⟨?_, ?_⟩
  · rw [workItems_mem hp hb hsz hP hmode hstride hl.bounds]
    exact KleidiCV.Flip.workItems_flipped hp hb hsz hP hmode hstride hl
  · have htouched := Touched.partition (f := workItem vl sz P b width height flipMode)
      (L := fun _ => b.srcAt '' pixels (width * p) height)
      (S := fun t => b.dstAt '' itemBytes (b.src = b.dst) flipMode width height p t) hl
      (fun t ht r => (workItem_exact hp hb hsz hP hmode hstride ht r).2) ?_ r
    · refine htouched.congr ?_ (itemBytes_union hmode _)
      rintro a ⟨-, -, ha⟩
      exact ha
    · rintro t ht u hu hne
      refine Set.disjoint_left.mpr ?_
      rintro _ ⟨q, hq, rfl⟩ ⟨q', hq', heq⟩
      have hsame := hb.injOn hq'.1.1 hq.1.1 heq
      subst hsame
      exact Set.disjoint_left.mp (KleidiCV.Flip.itemRows_disjoint hmode ht hu hne) hq.2 hq'.2

end

section

variable {b : Buffers} {width height pixelSize : ℕ} {flipMode : FlipMode}

/-- The layouts of pixels: one scalar, or three interleaved ones. -/
def pixelLayouts : List (ℕ × ℕ) := [(1, 1), (2, 1), (4, 1), (8, 1), (1, 3), (2, 3)]

/-- What is promised of a flip on scalable vectors. -/
structure FlipExact (vl : VectorLength) (b : Buffers) (width height : ℕ) (flipMode : FlipMode)
    (pixelSize : ℕ) (r : Tallied U8) : Prop where
  /-- Work items leave the flipped image, however they are cut and ordered. -/
  flipped : ∀ l, IsPartition (flipWorkItemCount height (b.src = b.dst) flipMode) l →
    KleidiCV.Flip.Flipped b width height flipMode pixelSize r.mem
      (l.foldl (fun r q => (flipWorkItems vl b width height flipMode pixelSize q.1 q.2 r).2) r).mem
  /-- Loads stay in the source rows; a byte of the destination is stored once, or, in place and
  at its own mirrored place, never. -/
  touched : ∀ l, IsPartition (flipWorkItemCount height (b.src = b.dst) flipMode) l →
    Touched (b.srcAt '' pixels (width * pixelSize) height)
      (b.dstAt '' storedBytes (b.src = b.dst) flipMode width height pixelSize) r
      (l.foldl (fun r q => (flipWorkItems vl b width height flipMode pixelSize q.1 q.2 r).2) r)
  /-- No range of work items fails. -/
  ok : ∀ begin_ end_ r, (flipWorkItems vl b width height flipMode pixelSize begin_ end_ r).1 = .ok
  /-- The public function runs all of them. -/
  entry : flipValidate b width height flipMode pixelSize = .ok →
    (flip vl b width height flipMode pixelSize r).1 = .ok ∧
    (flip vl b width height flipMode pixelSize r).2.mem =
      (flipWorkItems vl b width height flipMode pixelSize 0
        (flipWorkItemCount height (b.src = b.dst) flipMode) r).2.mem

theorem flipWorkItems_layout (vl : VectorLength) (b : Buffers) (width height : ℕ)
    (flipMode : FlipMode) (hlayout : ∃ q ∈ pixelLayouts, pixelSize = q.2 * q.1) :
    ∃ sz P, pixelSize = P * sz ∧ ScalarSize sz ∧ (P = 1 ∨ P = 3) ∧ ∀ begin_ end_ r,
      flipWorkItems vl b width height flipMode pixelSize begin_ end_ r =
        flipWorkItemsImpl vl sz P b width height flipMode begin_ end_ r := by
  obtain ⟨q, hq, rfl⟩ := hlayout
  simp only [pixelLayouts, List.mem_cons, List.not_mem_nil, or_false] at hq
  rcases hq with rfl | rfl | rfl | rfl | rfl | rfl
  · exact ⟨1, 1, rfl, .inl rfl, .inl rfl, fun _ _ _ => rfl⟩
  · exact ⟨2, 1, rfl, .inr (.inl rfl), .inl rfl, fun _ _ _ => rfl⟩
  · exact ⟨4, 1, rfl, .inr (.inr (.inl rfl)), .inl rfl, fun _ _ _ => rfl⟩
  · exact ⟨8, 1, rfl, .inr (.inr (.inr rfl)), .inl rfl, fun _ _ _ => rfl⟩
  · exact ⟨1, 3, rfl, .inl rfl, .inr rfl, fun _ _ _ => rfl⟩
  · exact ⟨2, 3, rfl, .inr (.inl rfl), .inr rfl, fun _ _ _ => rfl⟩

/-- **The scalable flip writes the flipped image**, for every length of the vectors, every
layout of pixels, every size and every partition of the work items in any order; it reads and
writes inside the rows only and stores each byte that changes its place once. -/
theorem flip_exact (vl : VectorLength) (hlayout : ∃ q ∈ pixelLayouts, pixelSize = q.2 * q.1)
    (hmode : flipMode ≠ .other) (hb : Placement b (width * pixelSize) height)
    (hstride : b.src = b.dst → b.srcStride = b.dstStride) (r : Tallied U8) :
    FlipExact vl b width height flipMode pixelSize r := by
  obtain ⟨sz, P, hp, hsz, hP, hitems⟩ := flipWorkItems_layout vl b width height flipMode hlayout
  have hfold : (fun (r : Tallied U8) (q : ℕ × ℕ) =>
      (flipWorkItems vl b width height flipMode pixelSize q.1 q.2 r).2) =
      fun r q => forFrom q.1 (q.2 - q.1) (workItem vl sz P b width height flipMode) r := by
    funext r q
    rw [hitems, flipWorkItemsImpl_eq hmode]
  refine ⟨fun l hl => ?_, fun l hl => ?_, fun begin_ end_ r => ?_, fun hok => ?_⟩
  · rw [hfold]
    exact (workItems_exact vl hp hb hsz hP hmode hstride hl r).1
  · rw [hfold]
    exact (workItems_exact vl hp hb hsz hP hmode hstride hl r).2
  · rw [hitems, flipWorkItemsImpl_eq hmode]
  · have hwhole := (workItems_exact vl hp hb hsz hP hmode hstride
      (IsPartition.whole _) r).1
    simp only [flip, hok, ne_eq, not_true_eq_false, if_false]
    split
    · rename_i hempty
      -- No byte is written.
      refine ⟨rfl, funext fun a => ?_⟩
      rw [hitems, flipWorkItemsImpl_eq hmode]
      refine (hwhole.frame a ?_).symm
      rintro ⟨y, k⟩ ⟨hy, hk⟩
      rcases hempty with rfl | rfl
      · simp at hk
      · simp at hy
    · rw [hitems, flipWorkItemsImpl_eq hmode]
      exact ⟨rfl, rfl⟩

end

/-- Vectors of 16 bytes. -/
def shortVectors : VectorLength := ⟨16, 4, by decide⟩

/-- Three pixels of three bytes, flipped in place. -/
theorem flip_exact_colourRow :
    FlipExact shortVectors colourRow 3 1 .horizontal 3
      ⟨fun a => Fin.ofNat 256 a, fun _ => 0, fun _ => 0⟩ :=
  flip_exact shortVectors ⟨(1, 3), by decide, rfl⟩ (by decide)
    ⟨.inl (by decide), .inl ⟨rfl, rfl⟩⟩ (fun _ => rfl) _

end Flip

end Scalable

end KleidiCV
