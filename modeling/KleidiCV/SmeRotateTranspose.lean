/-
Transposing and rotating by tiles, with SME.

A rectangle is cut into tiles of a vector length each way, smaller ones at its right and lower
edge.  Every tile goes to its place in the destination; in place, two tiles opposite each other
are exchanged through an array on the stack.

* `tile_stored` — a tile, as a part of the rectangle;
* `rotateTransposeToDst_moved` — all tiles;
* `transposeInPlace_moved` — the same image as source and destination;
* `rotateTranspose_exact` — the functions that call them.
-/
import KleidiCV.Rotate
import KleidiCV.SmeTile

open Loop

namespace KleidiCV

namespace Scalable

namespace Sme

/-- `kBlkSize`. -/
def blkSize (svcntb pixelSize : ℕ) : ℕ := svcntb / elementSize pixelSize

/-- `rotate_transpose_to_dst`. -/
def rotateTransposeToDst (svcntb pixelSize : ℕ) (reverseLoadRows reverseStoreCols : Bool)
    (b : Buffers) (width height : ℕ) (s : Machine) : KleidicvError × Machine :=
  let kBlkSize := blkSize svcntb pixelSize
  (.ok, forSteps 0 kBlkSize width (fun col =>
    let pgsrc := svwhilelt col width
    let kBlkWidth := min kBlkSize (width - col)
    forSteps 0 kBlkSize height fun row =>
      let psrc : Pointer := ⟨.image, b.src + row * b.srcStride + col * pixelSize⟩
      let pgdst := svwhilelt row height
      let kBlkHeight := min kBlkSize (height - row)
      let dstRow := if reverseStoreCols then width - col - kBlkWidth else col
      let dstCol := if reverseLoadRows then height - row - kBlkHeight else row
      let pdst : Pointer := ⟨.image, b.dst + dstRow * b.dstStride + dstCol * pixelSize⟩
      transformTile svcntb pixelSize reverseLoadRows reverseStoreCols psrc b.srcStride pgsrc
        kBlkWidth pdst b.dstStride pgdst kBlkHeight) s)

/-- `transpose_in_place`. -/
def transposeInPlace (svcntb pixelSize img imgStride width : ℕ) (s : Machine) :
    KleidicvError × Machine :=
  let kBlkSize := blkSize svcntb pixelSize
  let tmp : Pointer := ⟨.tmp, 0⟩
  let tmpStride := svcntb * channelCount pixelSize
  (.ok, forSteps 0 kBlkSize width (fun vindex s =>
    -- Tiles on the diagonal.
    let ptile : Pointer := ⟨.image, img + vindex * pixelSize + vindex * imgStride⟩
    let pgV := svwhilelt vindex width
    let sizeV := min kBlkSize (width - vindex)
    let s := transformTile svcntb pixelSize false false ptile imgStride pgV sizeV ptile imgStride
      pgV sizeV s
    -- Tiles from and to the right and bottom of the diagonal.
    forSteps (vindex + kBlkSize) kBlkSize width (fun hindex s =>
      let tile1 : Pointer := ⟨.image, img + vindex * pixelSize + hindex * imgStride⟩
      let pgH := svwhilelt hindex width
      let sizeH := min kBlkSize (width - hindex)
      let tile2 : Pointer := ⟨.image, img + hindex * pixelSize + vindex * imgStride⟩
      let s := transformTile svcntb pixelSize false false tile1 imgStride pgV sizeV tmp tmpStride
        pgH sizeH s
      let s := transformTile svcntb pixelSize false false tile2 imgStride pgH sizeH tile1 imgStride
        pgV sizeV s
      copyTile svcntb pixelSize tmp tmpStride pgH tile2 imgStride sizeV s) s) s)

/-- `transpose`; in place the height is not looked at. -/
def transpose (svcntb pixelSize : ℕ) (b : Buffers) (width height : ℕ) (s : Machine) :
    KleidicvError × Machine :=
  if b.src = b.dst then transposeInPlace svcntb pixelSize b.dst b.dstStride width s
  else rotateTransposeToDst svcntb pixelSize false false b width height s

/-- `rotate_cw`. -/
def rotateCw (svcntb pixelSize : ℕ) (b : Buffers) (width height : ℕ) (s : Machine) :
    KleidicvError × Machine :=
  rotateTransposeToDst svcntb pixelSize true false b width height s

/-- `rotate_ccw`. -/
def rotateCcw (svcntb pixelSize : ℕ) (b : Buffers) (width height : ℕ) (s : Machine) :
    KleidicvError × Machine :=
  rotateTransposeToDst svcntb pixelSize false true b width height s

/-! ### A tile in its image -/

/-- Bytes of an array on the stack. -/
def stackSize (svcntb p : ℕ) (sp : Space) : ℕ :=
  blkSize svcntb p * svcntb * if sp = .tmp then channelCount p else 1

/-- What a rectangle that was moved leaves: each byte of it at its target, stored once, no
other byte of the images, and accesses to the stack in its arrays. -/
structure Moved (svcntb p : ℕ) (srcRows dstRows : PixelRows) (width height : ℕ)
    (toRow toCol : ℕ → ℕ) (S : Set (ℕ × ℕ × ℕ)) (s s' : Machine) : Prop where
  stored : Stored (targetAt dstRows toRow toCol) (fun q => (s.memory .image).mem (srcRows.byteAt q))
    (srcRows.byteAt '' rectPart 0 height 0 width p) S (s.memory .image) (s'.memory .image)
  stack : ∀ sp, sp ≠ .image → Confined (stackSize svcntb p sp) (s.memory sp) (s'.memory sp)

section

variable {svcntb p width height row col w h : ℕ} {srcRows dstRows : PixelRows}
  {toRow toCol : ℕ → ℕ} {s : Machine}

/-- Where a tile goes in the destination. -/
structure TileSent (toRow toCol : ℕ → ℕ) (reverseLoadRows reverseStoreCols : Bool)
    (row col w h dstRow dstCol : ℕ) : Prop where
  toRow_eq : ∀ i < w, toRow (col + turned reverseStoreCols w i) = dstRow + i
  toCol_eq : ∀ j < h, toCol (row + turned reverseLoadRows h j) = dstCol + j

/-- A tile that is stored in the destination is a part of the rectangle. -/
theorem tile_stored {reverseLoadRows reverseStoreCols : Bool} {dstRow dstCol : ℕ}
    {r : Tallied U8} {g : ℕ → ℕ → U8} {v : ℕ × ℕ × ℕ → U8} {L : Set ℕ} (hp : 0 < p)
    (hpixel : dstRows.pixel = p)
    (hinj : Set.InjOn (targetAt dstRows toRow toCol) (rectPart 0 height 0 width p))
    (hh : row + h ≤ height) (hw : col + w ≤ width)
    (hsent : TileSent toRow toCol reverseLoadRows reverseStoreCols row col w h dstRow dstCol)
    (hg : ∀ i < w, ∀ j < h, ∀ k < p, g i (j * p + k) =
      v (row + turned reverseLoadRows h j, col + turned reverseStoreCols w i, k)) :
    Stored (targetAt dstRows toRow toCol) v L (rectPart row (row + h) col (col + w) p) r
      (storeRows (dstRows.atPixel dstRow dstCol).base dstRows.stride (h * p) w g r) := by
  -- Place `j * p + k` of row `i` of the tile holds byte `k` of a pixel.
  have htarget : ∀ i < w, ∀ j < h, ∀ k,
      targetAt dstRows toRow toCol
          (row + turned reverseLoadRows h j, col + turned reverseStoreCols w i, k) =
        blockAt (dstRows.atPixel dstRow dstCol).base dstRows.stride (i, j * p + k) := by
    intro i hi j hj k
    simp only [targetAt, PixelRows.byteAt, PixelRows.atPixel, blockAt, hpixel, hsent.toRow_eq i hi,
      hsent.toCol_eq j hj]
    ring
  have hmem : ∀ i < w, ∀ j < h, ∀ k < p,
      (row + turned reverseLoadRows h j, col + turned reverseStoreCols w i, k) ∈
        rectPart 0 height 0 width p := by
    intro i hi j hj k hk
    have h1 := turned_lt reverseLoadRows hj
    have h2 := turned_lt reverseStoreCols hi
    exact ⟨⟨Nat.zero_le _, by simp only; omega⟩, ⟨Nat.zero_le _, by simp only; omega⟩, hk⟩
  have hsplit : ∀ {jj}, jj < h * p → jj / p < h ∧ jj % p < p ∧ jj = jj / p * p + jj % p :=
    fun hjj => ⟨Nat.div_lt_of_lt_mul (by rwa [Nat.mul_comm]), Nat.mod_lt _ hp,
      (Nat.div_add_mod' _ _).symm⟩
  have hblock : Set.InjOn (blockAt (dstRows.atPixel dstRow dstCol).base dstRows.stride)
      (blockPart (h * p) w) := by
    rintro ⟨i, jj⟩ ⟨hi, hjj⟩ ⟨i', jj'⟩ ⟨hi', hjj'⟩ heq
    simp only at hi hjj hi' hjj'
    obtain ⟨hj, hk, hsum⟩ := hsplit hjj
    obtain ⟨hj', hk', hsum'⟩ := hsplit hjj'
    rw [hsum, hsum', ← htarget i hi _ hj, ← htarget i' hi' _ hj'] at heq
    obtain ⟨h1, h2, h3⟩ : _ ∧ _ ∧ _ := by
      simpa only [Prod.mk.injEq] using hinj (hmem i hi _ hj _ hk) (hmem i' hi' _ hj' _ hk') heq
    have hrow : turned reverseLoadRows h (jj / p) = turned reverseLoadRows h (jj' / p) := by omega
    have hcol : turned reverseStoreCols w i = turned reverseStoreCols w i' := by omega
    have hj : jj / p = jj' / p := by
      rw [← turned_turned reverseLoadRows hj, hrow, turned_turned reverseLoadRows hj']
    have hi : i = i' := by
      rw [← turned_turned reverseStoreCols hi, hcol, turned_turned reverseStoreCols hi']
    rw [hi, hsum, hsum', hj, h3]
  refine ((storeRows_stored hblock g r).congr (Set.empty_subset L) rfl).reindex
    (fun q => (turned reverseStoreCols w (q.2.1 - col),
      turned reverseLoadRows h (q.1 - row) * p + q.2.2)) ?_ ?_
  · rintro ⟨y, x, k⟩ ⟨hy, hx, hk⟩
    simp only at hy hx hk ⊢
    have hj : y - row < h := by omega
    have hi : x - col < w := by omega
    have hpos : (row + turned reverseLoadRows h (turned reverseLoadRows h (y - row)),
        col + turned reverseStoreCols w (turned reverseStoreCols w (x - col)), k) = (y, x, k) := by
      rw [turned_turned _ hj, turned_turned _ hi, Nat.add_sub_cancel' hy.1,
        Nat.add_sub_cancel' hx.1]
    refine ⟨⟨turned_lt _ hi, scalarByte_lt (turned_lt _ hj) hk⟩, ?_, ?_⟩
    · rw [← htarget _ (turned_lt _ hi) _ (turned_lt _ hj), hpos]
    · rw [hg _ (turned_lt _ hi) _ (turned_lt _ hj) _ hk, hpos]
  · rintro ⟨i, jj⟩ ⟨hi, hjj⟩
    simp only at hi hjj
    obtain ⟨hj, hk, hsum⟩ := hsplit hjj
    refine ⟨(row + turned reverseLoadRows h (jj / p), col + turned reverseStoreCols w i, jj % p),
      ⟨⟨Nat.le_add_right _ _, Nat.add_lt_add_left (turned_lt _ hj) _⟩,
        ⟨Nat.le_add_right _ _, Nat.add_lt_add_left (turned_lt _ hi) _⟩, hk⟩, ?_⟩
    simp only [Nat.add_sub_cancel_left]
    rw [turned_turned _ hj, turned_turned _ hi, ← hsum]

/-- Loads of a tile are loads of its rectangle. -/
theorem tile_loaded (width : ℕ) (index : ℕ → ℕ) (hp : 0 < p) (hpixel : srcRows.pixel = p)
    (hh : row + h ≤ height) (hw : col + w ≤ width) (hindex : ∀ i < h, index i < h) (r : Tallied U8) :
    Touched (srcRows.byteAt '' rectPart 0 height 0 width p) ∅ r
      (loadRows (srcRows.atPixel row col).base srcRows.stride index (w * p) h r) := by
  refine (loadRows_touched hindex r).congr ?_ rfl
  rintro _ ⟨⟨i, jj⟩, ⟨hi, hjj⟩, rfl⟩
  simp only at hi hjj
  have hx : jj / p < w := Nat.div_lt_of_lt_mul (by rwa [Nat.mul_comm])
  refine ⟨(row + i, col + jj / p, jj % p), ⟨⟨Nat.zero_le _, by simp only; omega⟩,
    ⟨Nat.zero_le _, by simp only; omega⟩, Nat.mod_lt _ hp⟩, ?_⟩
  simp only [PixelRows.byteAt, PixelRows.atPixel, blockAt, hpixel]
  have hsum := Nat.div_add_mod' jj p
  rw [Nat.add_mul, Nat.add_mul]
  omega

/-- The byte of a tile, as a byte of the rectangle. -/
theorem tile_byte (srcRows : PixelRows) (row col : ℕ) (hpixel : srcRows.pixel = p) (y x k : ℕ) :
    (srcRows.atPixel row col).base + y * srcRows.stride + (x * p + k) =
      srcRows.byteAt (row + y, col + x, k) := by
  simp only [PixelRows.byteAt, PixelRows.atPixel, hpixel]
  ring

theorem pixelSize_pos (hp : p ∈ [1, 2, 3, 4, 6, 8]) : 0 < p := by
  obtain ⟨hn, hsz, heq⟩ := pixelSize_cases hp
  rw [heq]
  exact Nat.mul_pos (by omega) hsz

/-! ### All tiles -/

/-- A part moved after others, when the source is still what it was. -/
theorem Moved.step {S T : Set (ℕ × ℕ × ℕ)} {s s' s'' : Machine}
    (hinj : Set.InjOn (targetAt dstRows toRow toCol) (rectPart 0 height 0 width p))
    (hS : S ⊆ rectPart 0 height 0 width p) (hT : T ⊆ rectPart 0 height 0 width p)
    (hdisjoint : Disjoint S T)
    (h : Moved svcntb p srcRows dstRows width height toRow toCol S s s')
    (hstored : Stored (targetAt dstRows toRow toCol)
      (fun q => (s.memory .image).mem (srcRows.byteAt q))
      (srcRows.byteAt '' rectPart 0 height 0 width p) T (s'.memory .image) (s''.memory .image))
    (hstack : ∀ sp, sp ≠ .image →
      Confined (stackSize svcntb p sp) (s'.memory sp) (s''.memory sp)) :
    Moved svcntb p srcRows dstRows width height toRow toCol (S ∪ T) s s'' :=
  ⟨h.stored.trans hinj hS hT hdisjoint hstored, fun sp hsp =>
    (h.stack sp hsp).trans (hstack sp hsp)⟩

theorem Moved.refl (s : Machine) :
    Moved svcntb p srcRows dstRows width height toRow toCol ∅ s s :=
  ⟨Stored.refl _, fun _ _ => Confined.refl _ _⟩

theorem Moved.congr {S T : Set (ℕ × ℕ × ℕ)} {s s' : Machine}
    (h : Moved svcntb p srcRows dstRows width height toRow toCol S s s') (hST : S = T) :
    Moved svcntb p srcRows dstRows width height toRow toCol T s s' := hST ▸ h

/-- The temporaries of a tile lie within their arrays, and the array of the pairs is left. -/
theorem TileMoved.stack {reverseLoadRows reverseStoreCols : Bool} {src dst : Pointer}
    {srcStride dstStride : ℕ} {s s' : Machine}
    (h' : TileMoved (blkSize svcntb p * svcntb) p reverseLoadRows reverseStoreCols src srcStride w
      dst dstStride h s s')
    (hsrc : src.space = .image) (hdst : dst.space = .image) (sp : Space) (hsp : sp ≠ .image) :
    Confined (stackSize svcntb p sp) (s.memory sp) (s'.memory sp) := by
  by_cases htmp : sp = .tmp
  · subst htmp
    rw [h'.memory _ (by simp [Space.IsTemporary]), hdst, Function.update_of_ne (by decide), hsrc,
      Function.update_of_ne (by decide)]
    exact Confined.refl _ _
  · rw [stackSize, if_neg htmp, Nat.mul_one]
    refine h'.temporary sp ?_
    cases sp with
    | image => exact absurd rfl hsp
    | tmpR => exact .inl rfl
    | tmpG => exact .inr (.inl rfl)
    | tmpB => exact .inr (.inr rfl)
    | tmp => exact absurd rfl htmp

/-- **All tiles of a rectangle go to their targets**, each byte once. -/
theorem rotateTransposeToDst_moved (hp : p ∈ [1, 2, 3, 4, 6, 8]) (hblk : 0 < blkSize svcntb p)
    (reverseLoadRows reverseStoreCols : Bool) {b : Buffers}
    (hb : TransposePlacement b width height p) (s : Machine) :
    Moved svcntb p (b.srcRows p) (b.dstRows p) width height (turned reverseStoreCols width)
      (turned reverseLoadRows height) (rectPart 0 height 0 width p) s
      (rotateTransposeToDst svcntb p reverseLoadRows reverseStoreCols b width height s).2 := by
  have hpos := pixelSize_pos hp
  have hturned : ∀ reverse n, ∀ i < n, ∀ j < n, turned reverse n i = turned reverse n j → i = j := by
    intro reverse n i hi j hj heq
    rw [← turned_turned reverse hi, heq, turned_turned reverse hj]
  have ha : Apart (b.srcRows p) (b.dstRows p) width height p (turned reverseStoreCols width)
      (turned reverseLoadRows height) :=
    hb.apart (fun _ hx => turned_lt _ hx) (fun _ hy => turned_lt _ hy) (hturned _ _) (hturned _ _)
  generalize htoRow : turned reverseStoreCols width = toRow at ha ⊢
  generalize htoCol : turned reverseLoadRows height = toCol at ha ⊢
  simp only [rotateTransposeToDst]
  -- Over the columns: the rectangle left of `c` is done.
  refine forSteps_invariant (fun c t => Moved svcntb p (b.srcRows p) (b.dstRows p) width height
    toRow toCol (rectPart 0 height 0 c p) s t) hblk (Nat.zero_le width) ?_ ?_
  · refine (Moved.refl s).congr (Set.eq_empty_of_forall_notMem ?_).symm
    rintro q ⟨-, hx, -⟩
    exact Nat.not_lt_zero _ hx.2
  · intro c _ hc t ht
    generalize hw : min (blkSize svcntb p) (width - c) = w
    have hcw : c + w ≤ width := by omega
    -- Over the rows: the part of these columns above `r` is done, too.
    refine (forSteps_invariant (fun r t => Moved svcntb p (b.srcRows p) (b.dstRows p) width height
      toRow toCol (rectPart 0 height 0 c p ∪ rectPart 0 r c (c + w) p) s t) hblk
      (Nat.zero_le height) ?_ ?_).congr ?_
    · refine ht.congr (Set.union_eq_self_of_subset_right ?_).symm
      rintro q ⟨hy, -, -⟩
      exact absurd hy.2 (Nat.not_lt_zero _)
    · intro r _ hr t ht
      generalize hh : min (blkSize svcntb p) (height - r) = h
      have hrh : r + h ≤ height := by omega
      have hsub : rectPart 0 height 0 c p ∪ rectPart 0 r c (c + w) p ⊆
          rectPart 0 height 0 width p :=
        Set.union_subset (rectPart_subset le_rfl (by omega)) (rectPart_subset (by omega) hcw)
      have hpart : rectPart r (r + h) c (c + w) p ⊆ rectPart 0 height 0 width p :=
        rectPart_subset hrh hcw
      have hpgsrc : Leading (blkSize svcntb p) (svwhilelt c width) w := hw ▸ leading_whilelt_min _ _
      have hpgdst : Leading (blkSize svcntb p) (svwhilelt r height) h :=
        hh ▸ leading_whilelt_min _ _
      have hsent : TileSent toRow toCol reverseLoadRows reverseStoreCols r c w h
          (if reverseStoreCols then width - c - w else c)
          (if reverseLoadRows then height - r - h else r) := by
        subst htoRow htoCol
        refine ⟨fun i hi => ?_, fun j hj => ?_⟩
        · cases reverseStoreCols with
          | false => rfl
          | true =>
            simp only [turned, if_true]
            omega
        · cases reverseLoadRows with
          | false => rfl
          | true =>
            simp only [turned, if_true]
            omega
      have hrun := transformTile_run ⟨.image, ((b.srcRows p).atPixel r c).base⟩ b.srcStride
        ⟨.image, ((b.dstRows p).atPixel (if reverseStoreCols then width - c - w else c)
          (if reverseLoadRows then height - r - h else r)).base⟩ b.dstStride hp hpgsrc hpgdst (by simp [Space.IsTemporary])
        (by simp [Space.IsTemporary]) reverseLoadRows reverseStoreCols t
      have hmem := hrun.memory .image (by simp [Space.IsTemporary])
      simp only [Function.update_self] at hmem
      have hload : Touched ((b.srcRows p).byteAt '' rectPart 0 height 0 width p) ∅ (t.memory .image)
          (loadRows ((b.srcRows p).atPixel r c).base b.srcStride (turned reverseLoadRows h) (w * p) h
            (t.memory .image)) :=
        tile_loaded width _ hpos rfl hrh hcw (fun _ hi => turned_lt _ hi) _
      refine (ht.step ha.injOn hsub hpart ?_ ?_
        (hrun.stack rfl rfl)).congr ?_
      · refine Set.disjoint_left.mpr ?_
        rintro ⟨y, x, k⟩ (⟨-, hx, -⟩ | ⟨hy, -, -⟩) ⟨hy', hx', -⟩
        · simp only at hx hx'
          omega
        · simp only at hy hy'
          omega
      · rw [hmem, ← Set.union_self (((b.srcRows p).byteAt) '' _)]
        refine Stored.after_loads hload (tile_stored hpos rfl ha.injOn hrh hcw hsent ?_)
        intro i hi j hj k hk
        obtain ⟨hdiv, hmod⟩ := byte_div_mod (l := j) hk
        rw [hdiv, hmod]
        have hbyte := tile_byte (b.srcRows p) r c rfl
          (turned reverseLoadRows h j) (turned reverseStoreCols w i) k
        refine (congrArg (t.memory .image).mem hbyte).trans ?_
        have h1 := turned_lt reverseLoadRows hj
        have h2 := turned_lt reverseStoreCols hi
        refine ht.stored.read fun q hq => ha.disjoint q (hsub hq) _ ?_
        exact ⟨⟨Nat.zero_le _, by simp only; omega⟩, ⟨Nat.zero_le _, by simp only; omega⟩,
          hk⟩
      · ext ⟨y, x, k⟩
        simp only [rectPart, Set.mem_union, Set.mem_ofPred_eq]
        omega
    · ext ⟨y, x, k⟩
      simp only [rectPart, Set.mem_union, Set.mem_ofPred_eq]
      omega

/-! ### In place -/

/-- Pixels of a square that are done: those of the first `v` rows and columns, and of the next
up to `v'` those within the first `h` rows and columns. -/
def donePart (n v v' h p : ℕ) : Set (ℕ × ℕ × ℕ) :=
  {q | q ∈ rectPart 0 n 0 n p ∧
    (min q.1 q.2.1 < v ∨ (min q.1 q.2.1 < v' ∧ max q.1 q.2.1 < h))}

/-- A pixel of the square and the one across the diagonal. -/
theorem targetAt_swap (rows : PixelRows) (y x k : ℕ) :
    targetAt rows id id (y, x, k) = rows.byteAt (x, y, k) := rfl

/-- The targets of a square are its bytes. -/
theorem targetAt_injOn {n : ℕ} {rows : PixelRows} (hpixel : rows.pixel = p)
    (hrows : n * p ≤ rows.stride ∨ n ≤ 1) :
    Set.InjOn (targetAt rows id id) (rectPart 0 n 0 n p) := by
  rintro ⟨y, x, k⟩ ⟨hy, hx, hk⟩ ⟨y', x', k'⟩ ⟨hy', hx', hk'⟩ heq
  have hsame := byteAt_injOn hpixel hrows (show (x, y, k) ∈ _ from ⟨hx, hy, hk⟩)
    (show (x', y', k') ∈ _ from ⟨hx', hy', hk'⟩) heq
  simp only [Prod.mk.injEq] at hsame ⊢
  exact ⟨hsame.2.1, hsame.1, hsame.2.2⟩

/-- A pixel that is not done holds its value: the done ones lie across the diagonal, too. -/
theorem donePart_read {n v v' h : ℕ} {rows : PixelRows} {r r' : Tallied U8} {L : Set ℕ}
    {value : ℕ × ℕ × ℕ → U8} (hpixel : rows.pixel = p) (hrows : n * p ≤ rows.stride ∨ n ≤ 1)
    (hs : Stored (targetAt rows id id) value L (donePart n v v' h p) r r') {y x k : ℕ}
    (hq : (y, x, k) ∈ rectPart 0 n 0 n p) (hnot : (y, x, k) ∉ donePart n v v' h p) :
    r'.mem (rows.byteAt (y, x, k)) = r.mem (rows.byteAt (y, x, k)) := by
  refine hs.read ?_
  rintro ⟨y', x', k'⟩ ⟨hin, hdone⟩ heq
  have hsame := byteAt_injOn hpixel hrows
    (show (x', y', k') ∈ rectPart 0 n 0 n p from ⟨hin.2.1, hin.1, hin.2.2⟩) hq heq
  simp only [Prod.mk.injEq] at hsame
  obtain ⟨rfl, rfl, rfl⟩ := hsame
  refine hnot ⟨hq, ?_⟩
  simp only at hdone ⊢
  rwa [min_comm, max_comm]

/-- Every pixel of a tile of the square goes across the diagonal. -/
theorem tileSent_id (row col w h : ℕ) : TileSent id id false false row col w h col row :=
  ⟨fun _ _ => rfl, fun _ _ => rfl⟩

/-- **Two tiles opposite each other are exchanged**, one of them through the array. -/
theorem exchange_moved {n v u wv wu : ℕ} {rows : PixelRows} {pgV pgH : ℕ → Bool}
    (hp : p ∈ [1, 2, 3, 4, 6, 8]) (hpixel : rows.pixel = p)
    (hrows : n * p ≤ rows.stride ∨ n ≤ 1) (hpgV : Leading (blkSize svcntb p) pgV wv)
    (hpgH : Leading (blkSize svcntb p) pgH wu) (hvu : v + wv ≤ u) (hu : u + wu ≤ n) (s : Machine) :
    let tile1 : Pointer := ⟨.image, (rows.atPixel u v).base⟩
    let tile2 : Pointer := ⟨.image, (rows.atPixel v u).base⟩
    let tmpStride := svcntb * channelCount p
    let s1 := transformTile svcntb p false false tile1 rows.stride pgV wv ⟨.tmp, 0⟩ tmpStride pgH
      wu s
    let s2 := transformTile svcntb p false false tile2 rows.stride pgH wu tile1 rows.stride pgV wv
      s1
    let s3 := copyTile svcntb p ⟨.tmp, 0⟩ tmpStride pgH tile2 rows.stride wv s2
    Stored (targetAt rows id id) (fun q => (s.memory .image).mem (rows.byteAt q))
        (rows.byteAt '' rectPart 0 n 0 n p)
        (rectPart v (v + wv) u (u + wu) p ∪ rectPart u (u + wu) v (v + wv) p) (s.memory .image)
        (s3.memory .image) ∧
      ∀ sp, sp ≠ .image → Confined (stackSize svcntb p sp) (s.memory sp) (s3.memory sp) := by
  intro tile1 tile2 tmpStride s1 s2 s3
  obtain ⟨hcount, hsz, hpeq⟩ := pixelSize_cases hp
  have hpos := pixelSize_pos hp
  have himage : ¬Space.image.IsTemporary := by simp [Space.IsTemporary]
  have htmp : ¬Space.tmp.IsTemporary := by simp [Space.IsTemporary]
  have hinj := targetAt_injOn hpixel hrows
  have hne : Space.tmp ≠ Space.image := by decide
  have hrun1 : TileMoved (blkSize svcntb p * svcntb) p false false tile1 rows.stride wv ⟨.tmp, 0⟩
      tmpStride wu s s1 :=
    transformTile_run tile1 rows.stride ⟨.tmp, 0⟩ tmpStride hp hpgV hpgH himage htmp false false s
  have hrun2 : TileMoved (blkSize svcntb p * svcntb) p false false tile2 rows.stride wu tile1
      rows.stride wv s1 s2 :=
    transformTile_run tile2 rows.stride tile1 rows.stride hp hpgH hpgV himage himage false false s1
  have hcopy : s3.memory = _ :=
    copyTile_run ⟨.tmp, 0⟩ tmpStride tile2 rows.stride wv hpgH (by omega) hsz
      hne s2
  rw [← hpeq] at hcopy
  -- The lower tile is in the array, and the array is left by the second step.
  have himage1 : s1.memory .image = loadRows tile1.offset rows.stride (turned false wu) (wv * p) wu
      (s.memory .image) := by
    rw [hrun1.memory _ himage, Function.update_of_ne hne.symm]
    exact Function.update_self ..
  have htmp1 : s1.memory .tmp = storeRows 0 tmpStride (wu * p) wv (fun i jj =>
      (s.memory .image).mem (tile1.offset + jj / p * rows.stride + (i * p + jj % p)))
      (s.memory .tmp) := by
    rw [hrun1.memory _ htmp, Function.update_self, Function.update_of_ne hne]
    rfl
  have htmp2 : s2.memory .tmp = s1.memory .tmp := by
    rw [hrun2.memory _ htmp, Function.update_of_ne hne, Function.update_of_ne hne]
  have himage2 : s2.memory .image = storeRows tile1.offset rows.stride (wv * p) wu (fun i jj =>
      (s.memory .image).mem (tile2.offset + jj / p * rows.stride + (i * p + jj % p)))
      (loadRows tile2.offset rows.stride (turned false wv) (wu * p) wv (s1.memory .image)) := by
    rw [hrun2.memory _ himage]
    have hmem : (s1.memory .image).mem = (s.memory .image).mem := by
      rw [himage1, loadRows_mem]
    rw [← hmem]
    simp only [tile1, tile2, Function.update_self]
    rfl
  have hfit : wu * p ≤ tmpStride := by
    have hsplit : wu * p = wu * elementSize p * channelCount p := by
      conv_lhs => rw [hpeq]
      ring
    calc wu * p = wu * elementSize p * channelCount p := hsplit
      _ ≤ svcntb * channelCount p := Nat.mul_le_mul_right _
        ((Nat.mul_le_mul_right _ hpgH.le).trans (Nat.div_mul_le_self svcntb (elementSize p)))
  have hstack : wv * tmpStride ≤ stackSize svcntb p .tmp := by
    rw [stackSize, if_pos rfl, Nat.mul_assoc]
    exact Nat.mul_le_mul_right _ hpgV.le
  refine ⟨?_, fun sp hsp => ?_⟩
  · have himage3 : s3.memory .image = storeRows tile2.offset rows.stride (wu * p) wv (fun i jj =>
        (s2.memory .tmp).mem (0 + i * tmpStride + jj)) (s2.memory .image) := by
      rw [hcopy]
      exact Function.update_self ..
    rw [himage3, himage2, himage1]
    have hload1 := tile_loaded n (turned false wu) hpos hpixel hu
      (show v + wv ≤ n by omega) (fun _ hi => hi) (s.memory .image)
    have hload2 := tile_loaded n (turned false wv) hpos hpixel
      (show v + wv ≤ n by omega) hu (fun _ hi => hi)
      (loadRows tile1.offset rows.stride (turned false wu) (wv * p) wu (s.memory .image))
    have hupper : rectPart v (v + wv) u (u + wu) p ⊆ rectPart 0 n 0 n p :=
      rectPart_subset (by omega) hu
    have hlower : rectPart u (u + wu) v (v + wv) p ⊆ rectPart 0 n 0 n p :=
      rectPart_subset hu (by omega)
    rw [← Set.union_self (rows.byteAt '' _)]
    refine Stored.after_loads (((hload1.trans hload2 (Set.empty_disjoint _)).congr
      (Set.union_self _).subset (Set.union_self _))) ?_
    refine Stored.trans hinj hupper hlower ?_ (tile_stored hpos hpixel hinj (by omega) hu
      (tileSent_id _ _ _ _) ?_) (tile_stored hpos hpixel hinj hu (by omega) (tileSent_id _ _ _ _) ?_)
    · refine Set.disjoint_left.mpr ?_
      rintro ⟨y, x, k⟩ ⟨hy, -, -⟩ ⟨hy', -, -⟩
      simp only at hy hy'
      omega
    · intro i _ j _ k hk
      obtain ⟨hdiv, hmod⟩ := byte_div_mod (l := j) hk
      rw [hdiv, hmod]
      exact congrArg (s.memory .image).mem (tile_byte rows _ _ hpixel _ _ _)
    · intro i hi j hj k hk
      obtain ⟨hdiv, hmod⟩ := byte_div_mod (l := j) hk
      rw [htmp2, htmp1, storeRows_mem hfit _ _ hi (scalarByte_lt hj hk), hdiv, hmod]
      exact congrArg (s.memory .image).mem (tile_byte rows _ _ hpixel _ _ _)
  · by_cases hsptmp : sp = .tmp
    · subst hsptmp
      rw [hcopy, Function.update_of_ne hne, Function.update_self, htmp2, htmp1]
      exact (storeRows_confined hfit hstack _ _).trans
        (loadRows_confined (fun _ hi => hi) hfit hstack _)
    · have htemporary : sp.IsTemporary := by
        cases sp with
        | image => exact absurd rfl hsp
        | tmpR => exact .inl rfl
        | tmpG => exact .inr (.inl rfl)
        | tmpB => exact .inr (.inr rfl)
        | tmp => exact absurd rfl hsptmp
      rw [hcopy, Function.update_of_ne hsp, Function.update_of_ne hsptmp, stackSize, if_neg hsptmp,
        Nat.mul_one]
      exact (hrun1.temporary sp htemporary).trans (hrun2.temporary sp htemporary)

/-- **A square is transposed in place**, each byte stored once. -/
theorem transposeInPlace_moved {n stride : ℕ} (img : ℕ) (hp : p ∈ [1, 2, 3, 4, 6, 8])
    (hblk : 0 < blkSize svcntb p) (hrows : n * p ≤ stride ∨ n ≤ 1) (s : Machine) :
    Moved svcntb p ⟨img, stride, p⟩ ⟨img, stride, p⟩ n n id id (rectPart 0 n 0 n p) s
      (transposeInPlace svcntb p img stride n s).2 := by
  have hpos := pixelSize_pos hp
  have hptr : ∀ u v, img + v * p + u * stride = (PixelRows.atPixel ⟨img, stride, p⟩ u v).base := by
    intro u v
    simp only [PixelRows.atPixel]
    ring
  have hstride : stride = (PixelRows.mk img stride p).stride := rfl
  have hpixel : (PixelRows.mk img stride p).pixel = p := rfl
  simp only [transposeInPlace, hptr]
  generalize PixelRows.mk img stride p = rows at hstride hpixel hrows ⊢
  subst hstride
  have hinj := targetAt_injOn hpixel hrows
  have hdone : ∀ {v v' h}, donePart n v v' h p ⊆ rectPart 0 n 0 n p := fun hq => hq.1
  -- Over the diagonal: the first `v` rows and columns are done.
  refine (forSteps_invariant (fun v t => Moved svcntb p rows rows n n id id (donePart n v v v p) s t)
    hblk (Nat.zero_le n) ?_ ?_).congr ?_
  · refine (Moved.refl s).congr (Set.eq_empty_of_forall_notMem ?_).symm
    rintro q ⟨-, hq⟩
    omega
  · intro v _ hv t ht
    generalize hw : min (blkSize svcntb p) (n - v) = w
    have hvw : v + w ≤ n := by omega
    have hpgV : Leading (blkSize svcntb p) (svwhilelt v n) w := hw ▸ leading_whilelt_min _ _
    have himage : ¬Space.image.IsTemporary := by simp [Space.IsTemporary]
    have hrun := transformTile_run ⟨.image, (rows.atPixel v v).base⟩ rows.stride
      ⟨.image, (rows.atPixel v v).base⟩ rows.stride hp hpgV hpgV himage himage
      false false t
    generalize transformTile svcntb p false false ⟨.image, (rows.atPixel v v).base⟩ rows.stride
      (svwhilelt v n) w ⟨.image, (rows.atPixel v v).base⟩ rows.stride (svwhilelt v n) w t = t1
      at hrun ⊢
    have hmem := hrun.memory .image himage
    simp only [Function.update_self] at hmem
    have hdiagonal : rectPart v (v + w) v (v + w) p ⊆ rectPart 0 n 0 n p := rectPart_subset hvw hvw
    -- The tile on the diagonal.
    have ht1 : Moved svcntb p rows rows n n id id (donePart n v (v + w) (v + w) p) s t1 := by
      refine (ht.step hinj hdone hdiagonal ?_ ?_ (hrun.stack rfl rfl)).congr ?_
      · refine Set.disjoint_left.mpr ?_
        rintro ⟨y, x, k⟩ ⟨-, hq⟩ ⟨hy, hx, -⟩
        simp only at hq hy hx
        omega
      · rw [hmem, ← Set.union_self (rows.byteAt '' _)]
        refine Stored.after_loads (tile_loaded n _ hpos hpixel hvw hvw (fun _ hi => turned_lt _ hi) _)
          (tile_stored hpos hpixel hinj hvw hvw (tileSent_id _ _ _ _) ?_)
        intro i hi j hj k hk
        obtain ⟨hdiv, hmod⟩ := byte_div_mod (l := j) hk
        rw [hdiv, hmod]
        refine (congrArg (t.memory .image).mem (tile_byte rows _ _ hpixel _ _ _)).trans ?_
        refine donePart_read hpixel hrows ht.stored ⟨⟨Nat.zero_le _, ?_⟩, ⟨Nat.zero_le _, ?_⟩, hk⟩ ?_
        · show v + j < n
          omega
        · show v + i < n
          omega
        · rintro ⟨-, hq⟩
          have hq' : min (v + j) (v + i) < v ∨
            (min (v + j) (v + i) < v ∧ max (v + j) (v + i) < v) := hq
          omega
      · ext ⟨y, x, k⟩
        simp only [donePart, rectPart, Set.mem_union, Set.mem_ofPred_eq]
        omega
    -- The tiles right of it and below: those before `u` are done.
    have hpairs : Moved svcntb p rows rows n n id id (donePart n v (v + w) n p) s
        (forSteps (v + blkSize svcntb p) (blkSize svcntb p) n (fun u s =>
          copyTile svcntb p ⟨.tmp, 0⟩ (svcntb * channelCount p) (svwhilelt u n)
            ⟨.image, (rows.atPixel v u).base⟩ rows.stride w
            (transformTile svcntb p false false ⟨.image, (rows.atPixel v u).base⟩ rows.stride
              (svwhilelt u n) (min (blkSize svcntb p) (n - u)) ⟨.image, (rows.atPixel u v).base⟩
              rows.stride (svwhilelt v n) w
              (transformTile svcntb p false false ⟨.image, (rows.atPixel u v).base⟩ rows.stride
                (svwhilelt v n) w ⟨.tmp, 0⟩ (svcntb * channelCount p) (svwhilelt u n)
                (min (blkSize svcntb p) (n - u)) s))) t1) := by
      rcases Nat.lt_or_ge (v + blkSize svcntb p) n with hlt | hge
      · refine forSteps_invariant (fun u t => Moved svcntb p rows rows n n id id
          (donePart n v (v + w) u p) s t) hblk hlt.le ?_ ?_
        · rwa [show v + blkSize svcntb p = v + w by omega]
        · intro u hu hun t' ht'
          generalize hwu : min (blkSize svcntb p) (n - u) = wu
          have hpgH : Leading (blkSize svcntb p) (svwhilelt u n) wu := hwu ▸ leading_whilelt_min _ _
          have hunu : u + wu ≤ n := by omega
          obtain ⟨hstored, hstack⟩ := exchange_moved (v := v) (u := u) hp hpixel hrows hpgV hpgH
            (by omega) hunu t'
          refine (ht'.step hinj hdone (Set.union_subset (rectPart_subset hvw hunu)
            (rectPart_subset hunu hvw)) ?_ (hstored.congr_value ?_) hstack).congr ?_
          · refine Set.disjoint_left.mpr ?_
            rintro ⟨y, x, k⟩ ⟨-, hq⟩ (⟨hy, hx, -⟩ | ⟨hy, hx, -⟩)
            · simp only at hq hy hx
              omega
            · simp only at hq hy hx
              omega
          · rintro ⟨y, x, k⟩ hq
            refine donePart_read hpixel hrows ht'.stored ?_ ?_
            · exact (Set.union_subset (rectPart_subset hvw hunu) (rectPart_subset hunu hvw)) hq
            · rintro ⟨-, hdone⟩
              rcases hq with ⟨hy, hx, -⟩ | ⟨hy, hx, -⟩
              · simp only at hdone hy hx
                omega
              · simp only at hdone hy hx
                omega
          · ext ⟨y, x, k⟩
            simp only [donePart, rectPart, Set.mem_union, Set.mem_ofPred_eq]
            omega
      · rw [forSteps_of_le hblk hge]
        rwa [show v + w = n by omega] at ht1 ⊢
    refine hpairs.congr ?_
    ext ⟨y, x, k⟩
    simp only [donePart, rectPart, Set.mem_ofPred_eq]
    omega
  · ext ⟨y, x, k⟩
    simp only [donePart, rectPart, Set.mem_ofPred_eq]
    omega

/-! ### The functions that move images -/

/-- The arrays on the stack are large enough for the longest vectors. -/
theorem stackSize_le (hsvcntb : svcntb ≤ 256) (sp : Space) :
    stackSize svcntb p sp ≤ 256 * 256 * if sp = .tmp then channelCount p else 1 :=
  Nat.mul_le_mul_right _
    (Nat.mul_le_mul ((Nat.div_le_self svcntb (elementSize p)).trans hsvcntb) hsvcntb)

/-- What is promised of images that do not overlap. -/
structure ImagesMoved (svcntb p : ℕ) (b : Buffers) (width height : ℕ) (s : Machine) : Prop where
  transposed : b.src ≠ b.dst → ∃ s', transpose svcntb p b width height s = (.ok, s') ∧
    Moved svcntb p (b.srcRows p) (b.dstRows p) width height (fun x => x) (fun y => y)
      (rectPart 0 height 0 width p) s s'
  clockwise : ∃ s', rotateCw svcntb p b width height s = (.ok, s') ∧
    Moved svcntb p (b.srcRows p) (b.dstRows p) width height (fun x => x)
      (fun y => height - 1 - y) (rectPart 0 height 0 width p) s s'
  counterClockwise : ∃ s', rotateCcw svcntb p b width height s = (.ok, s') ∧
    Moved svcntb p (b.srcRows p) (b.dstRows p) width height (fun x => width - 1 - x)
      (fun y => y) (rectPart 0 height 0 width p) s s'

/-- **Transposing and rotating by tiles is exact**, for every length of a vector, pixel size and
image: every byte goes to its place and is stored once, no other byte of the images is, and
arrays on the stack are kept to their size.  A square can be transposed in place. -/
theorem rotateTranspose_exact (svcntb p : ℕ) (hp : p ∈ [1, 2, 3, 4, 6, 8]) (hblk : 0 < blkSize svcntb p)
    (s : Machine) :
    (∀ b width height, TransposePlacement b width height p →
      ImagesMoved svcntb p b width height s) ∧
    (∀ b n height, b.src = b.dst → b.srcStride = b.dstStride → n * p ≤ b.dstStride ∨ n ≤ 1 →
      ∃ s', transpose svcntb p b n height s = (.ok, s') ∧
        Moved svcntb p (b.srcRows p) (b.dstRows p) n n (fun x => x) (fun y => y)
          (rectPart 0 n 0 n p) s s') ∧
    (svcntb ≤ 256 → ∀ sp,
      stackSize svcntb p sp ≤ 256 * 256 * if sp = .tmp then channelCount p else 1) := by
  refine ⟨fun b width height hb => ?_, fun b n height hsame hstride hrows => ?_, fun h sp =>
    stackSize_le h sp⟩
  · have hmoved := fun reverseLoadRows reverseStoreCols =>
      rotateTransposeToDst_moved hp hblk reverseLoadRows reverseStoreCols hb s
    refine ⟨fun hne => ⟨_, ?_, hmoved false false⟩, ⟨_, rfl, hmoved true false⟩,
      ⟨_, rfl, hmoved false true⟩⟩
    rw [transpose, if_neg hne]
    rfl
  · have hmoved := transposeInPlace_moved b.dst hp hblk hrows s
    refine ⟨(transposeInPlace svcntb p b.dst b.dstStride n s).2, ?_, ?_⟩
    · rw [transpose, if_pos hsame]
      rfl
    · rw [Buffers.srcRows, hsame, hstride]
      exact hmoved

end

/-- A square of three pixels each way, one byte each. -/
def smallSquare : Buffers where
  src := 1000
  srcStride := 3
  dst := 1000
  dstStride := 3

theorem rotateTranspose_exact_small :
    let s : Machine := ⟨fun _ => ⟨fun a => Fin.ofNat 256 a, fun _ => 0, fun _ => 0⟩, fun _ _ _ => 0⟩
    ImagesMoved 2 1 smallImage 2 3 s ∧
      (∃ s', transpose 2 1 smallSquare 3 3 s = (.ok, s') ∧
        Moved 2 1 (smallSquare.srcRows 1) (smallSquare.dstRows 1) 3 3 (fun x => x) (fun y => y)
          (rectPart 0 3 0 3 1) s s') ∧
      stackSize 2 1 .tmpG ≤ 256 * 256 * 1 := by
  intro s
  have hplacement : TransposePlacement smallImage 2 3 1 := by
    refine ⟨.inl (by decide), fun r hr c hc r' hr' c' hc' => ?_⟩
    simp only [Buffers.dstAt, Buffers.srcAt, smallImage]
    omega
  obtain ⟨himages, hsquare, hstack⟩ :=
    rotateTranspose_exact 2 1 (by decide) (by decide) s
  exact ⟨himages smallImage 2 3 hplacement, hsquare smallSquare 3 3 rfl rfl (.inl (by decide)),
    hstack (by decide) .tmpG⟩

end Sme

end Scalable

end KleidiCV
