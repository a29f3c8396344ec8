/-
Transposes, rotations and flips one after another.

`kleidicv_transpose`, `kleidicv_rotate` and `kleidicv_flip` all move whole pixels: each
applies a symmetry to the image.  Calls that read what the call before them wrote, out of
place or in place, apply the product of their symmetries.

* `ImageCall.turned` — one call;
* `runCalls_turned` — any number of calls.
-/
import KleidiCV.FlipImage
import KleidiCV.Lib.Symmetry
import KleidiCV.Rotate
import KleidiCV.TransposeInPlace

namespace KleidiCV

/-- A call that moves the pixels of an image. -/
inductive ImageCall
  | transpose
  | rotate (angle : ℤ)
  | flip (flipMode : FlipMode)

/-- `m'` has at `dst` the image that `m` has at `src`, with `g` applied to it. -/
def Turned (g : Symmetry) (size : ℕ × ℕ) (p : ℕ) (src dst : PixelRows) (m m' : Mem) : Prop :=
  ∀ q : ℕ × ℕ, q.1 < (g.size size).1 → q.2 < (g.size size).2 → ∀ k < p,
    m' (dst.byteAt (q.1, q.2, k)) =
      m (src.byteAt ((g.source size q).1, (g.source size q).2, k))

namespace ImageCall

/-- The entry point; `size` is the height and the width of the image. -/
def run (call : ImageCall) (b : Buffers) (size : ℕ × ℕ) (pixelSize : ℕ) (m : Mem) :
    KleidicvError × Mem :=
  match call with
  | transpose => kleidicvTranspose b size.2 size.1 pixelSize m
  | rotate angle => kleidicvRotate b size.2 size.1 angle pixelSize m
  | flip flipMode => kleidicvFlip b size.2 size.1 flipMode pixelSize m

/-- What the call does to the image. -/
def symmetry : ImageCall → Symmetry
  | transpose => ⟨true, false, false⟩
  | rotate angle => if angle = 90 then ⟨true, false, true⟩ else ⟨true, true, false⟩
  | flip .horizontal => ⟨false, false, true⟩
  | flip .vertical => ⟨false, true, false⟩
  | flip .both => ⟨false, true, true⟩
  | flip .other => 1

/-- Where an image may be: rows of the destination do not overlap; source and destination
are apart, or the same image. -/
def Placed (call : ImageCall) (b : Buffers) (size : ℕ × ℕ) (pixelSize : ℕ) : Prop :=
  match call with
  | transpose => b.src ≠ b.dst ∧ TransposePlacement b size.2 size.1 pixelSize ∨
      b.src = b.dst ∧ b.srcStride = b.dstStride ∧
        (size.2 * pixelSize ≤ b.dstStride ∨ size.2 ≤ 1)
  | rotate _ => TransposePlacement b size.2 size.1 pixelSize
  | flip _ => Placement b (size.2 * pixelSize) size.1

section

variable {b : Buffers} {size : ℕ × ℕ} {p : ℕ} {m m' : Mem} {g : Symmetry}

/-- A pixel sent to its place of the result comes from there. -/
theorem turned_of_imageSent {toRow toCol : ℕ → ℕ}
    (h : ImageSent b size.2 size.1 p toRow toCol m m')
    (hsource : ∀ q : ℕ × ℕ, q.1 < (g.size size).1 → q.2 < (g.size size).2 →
      (g.source size q).1 < size.1 ∧ (g.source size q).2 < size.2 →
      toRow (g.source size q).2 = q.1 ∧ toCol (g.source size q).1 = q.2) :
    Turned g size p (b.srcRows p) (b.dstRows p) m m' := by
  intro q h1 h2 k hk
  have hmem := Symmetry.source_lt h1 h2
  obtain ⟨hrow, hcol⟩ := hsource q h1 h2 hmem
  have hvalue := h.value ((g.source size q).1, (g.source size q).2, k)
    ⟨⟨Nat.zero_le _, hmem.1⟩, ⟨Nat.zero_le _, hmem.2⟩, hk⟩
  rwa [targetAt, hrow, hcol] at hvalue

theorem turned_transpose (hb : Placed transpose b size p)
    (hok : (kleidicvTranspose b size.2 size.1 p m).1 = .ok) :
    Turned (symmetry transpose) size p (b.srcRows p) (b.dstRows p) m
      (kleidicvTranspose b size.2 size.1 p m).2 := by
  rcases hb with ⟨hne, hplaced⟩ | ⟨hsame, hstride, hrows⟩
  · obtain ⟨m', hrun, hsent⟩ := (kleidicvTranspose_correct hplaced hne hok).transposed
    rw [hrun]
    exact turned_of_imageSent hsent fun q _ _ _ => ⟨rfl, rfl⟩
  · obtain ⟨sz, P, hsz, hP, hp, hsquare, hrun⟩ := InPlace.kleidicvTranspose_inPlace hsame hok
    have hrowsEq : b.srcRows p = b.dstRows p := by
      rw [Buffers.srcRows, Buffers.dstRows, hsame, hstride]
    intro q h1 h2 k hk
    rw [hrun, hrowsEq]
    have hq1 : q.1 < size.2 := h1
    have hq2 : q.2 < size.1 := h2
    exact InPlace.transposeInPlace_transposed hsz hP hp rfl hrows m hq1 (hsquare ▸ hq2) hk

theorem turned_rotate {angle : ℤ} (hb : Placed (rotate angle) b size p)
    (hok : (kleidicvRotate b size.2 size.1 angle p m).1 = .ok) :
    Turned (symmetry (rotate angle)) size p (b.srcRows p) (b.dstRows p) m
      (kleidicvRotate b size.2 size.1 angle p m).2 := by
  obtain ⟨m', hrun, hsent⟩ := (kleidicvRotate_correct hb hok).rotated
  rw [hrun]
  refine turned_of_imageSent hsent ?_
  intro q h1 h2 hmem
  by_cases hangle : angle = 90
  · simp only [symmetry, if_pos hangle, Symmetry.size, Symmetry.source, Symmetry.reverse,
      rotatedRow, rotatedCol, if_true, Bool.false_eq_true, if_false, Prod.swap] at h1 h2 hmem ⊢
    exact ⟨trivial, by omega⟩
  · simp only [symmetry, if_neg hangle, Symmetry.size, Symmetry.source, Symmetry.reverse,
      rotatedRow, rotatedCol, if_true, Bool.false_eq_true, if_false, Prod.swap] at h1 h2 hmem ⊢
    exact ⟨by omega, trivial⟩

/-- The bytes of a pixel keep their order when pixels are reversed. -/
theorem mirror_pixelByte {w x k : ℕ} (hk : k < p) : mirror w p (x * p + k) = (w - 1 - x) * p + k := by
  have hpos : 0 < p := by omega
  rw [mirror, Nat.mul_comm x, Nat.mul_add_div hpos, Nat.mul_add_mod, Nat.div_eq_of_lt hk,
    Nat.mod_eq_of_lt hk, Nat.add_zero]

theorem turned_flip {flipMode : FlipMode} (hb : Placed (flip flipMode) b size p)
    (hok : (kleidicvFlip b size.2 size.1 flipMode p m).1 = .ok) :
    Turned (symmetry (flip flipMode)) size p (b.srcRows p) (b.dstRows p) m
      (kleidicvFlip b size.2 size.1 flipMode p m).2 := by
  have hvalid : flipValidate b size.2 size.1 flipMode p = .ok := by
    by_contra hne
    rw [kleidicvFlip] at hok
    simp only [if_pos hne] at hok
    exact hne hok
  have haccepted := flipValidate_ok hvalid
  have hflipped : Flip.Flipped b size.2 size.1 flipMode p m
      (kleidicvFlip b size.2 size.1 flipMode p m).2 := by
    rw [kleidicvFlip_eq hb hvalid]
    exact flipWorkItems_flipped hb haccepted (IsPartition.whole _)
  intro q h1 h2 k hk
  have hsize : (symmetry (flip flipMode)).size size = size := by cases flipMode <;> rfl
  rw [hsize] at h1 h2
  have hvalue := hflipped.value (q.1, q.2 * p + k) ⟨h1, pixelByte_lt h2 hk⟩
  have hsource : Flip.flipAt flipMode size.2 size.1 p (q.1, q.2 * p + k) =
      (((symmetry (flip flipMode)).source size q).1,
        ((symmetry (flip flipMode)).source size q).2 * p + k) := by
    cases flipMode with
    | horizontal => exact Prod.ext rfl (mirror_pixelByte hk)
    | vertical => rfl
    | both => exact Prod.ext rfl (mirror_pixelByte hk)
    | other => rfl
  rw [hsource] at hvalue
  simpa only [Buffers.srcRows, Buffers.dstRows, PixelRows.byteAt, Buffers.srcAt, Buffers.dstAt,
    Nat.add_assoc] using hvalue

/-- One call applies its symmetry. -/
theorem turned {call : ImageCall} (hb : call.Placed b size p) (hok : (call.run b size p m).1 = .ok) :
    Turned call.symmetry size p (b.srcRows p) (b.dstRows p) m (call.run b size p m).2 := by
  cases call with
  | transpose => exact turned_transpose hb hok
  | rotate angle => exact turned_rotate hb hok
  | flip flipMode => exact turned_flip hb hok

end

end ImageCall

/-! ### Calls one after another -/

section

variable {g h : Symmetry} {size : ℕ × ℕ} {p : ℕ} {a b c : PixelRows} {m m' m'' : Mem}

theorem Turned.refl (size : ℕ × ℕ) (p : ℕ) (a : PixelRows) (m : Mem) : Turned 1 size p a a m m :=
  fun _ _ _ _ _ => rfl

/-- A symmetry after another. -/
theorem Turned.trans (hg : Turned g size p a b m m') (hh : Turned h (g.size size) p b c m' m'') :
    Turned (g * h) size p a c m m'' := by
  intro q h1 h2 k hk
  rw [Symmetry.source_mul h1 h2]
  rw [Symmetry.size_mul] at h1 h2
  have hmem := Symmetry.source_lt h1 h2
  rw [hh q h1 h2 k hk, hg _ hmem.1 hmem.2 k hk]

end

/-- Calls one after another, each on buffers of its own; the first error ends the run. -/
def runCalls (pixelSize : ℕ) : List (ImageCall × Buffers) → ℕ × ℕ → Mem → KleidicvError × Mem
  | [], _, m => (.ok, m)
  | (call, b) :: rest, size, m =>
    let result := call.run b size pixelSize m
    if result.1 ≠ .ok then result else runCalls pixelSize rest (call.symmetry.size size) result.2

/-- Each call reads the image where the call before it left it, and writes it to a place
where it may be. -/
def Chained (pixelSize : ℕ) : List (ImageCall × Buffers) → ℕ × ℕ → PixelRows → Prop
  | [], _, _ => True
  | (call, b) :: rest, size, place =>
    b.srcRows pixelSize = place ∧ call.Placed b size pixelSize ∧
      Chained pixelSize rest (call.symmetry.size size) (b.dstRows pixelSize)

/-- Where the last call leaves the image. -/
def lastPlace (pixelSize : ℕ) : List (ImageCall × Buffers) → PixelRows → PixelRows
  | [], place => place
  | (_, b) :: rest, _ => lastPlace pixelSize rest (b.dstRows pixelSize)

/-- The product of the symmetries, in the order of the calls. -/
def symmetryOf (calls : List (ImageCall × Buffers)) : Symmetry :=
  (calls.map fun call => call.1.symmetry).prod

/-- A call that succeeds, before others. -/
theorem runCalls_cons {p : ℕ} {call : ImageCall} {b : Buffers} {size : ℕ × ℕ} {m : Mem}
    (rest : List (ImageCall × Buffers)) (hok : (call.run b size p m).1 = .ok) :
    runCalls p ((call, b) :: rest) size m =
      runCalls p rest (call.symmetry.size size) (call.run b size p m).2 :=
  if_neg (not_not.mpr hok)

/-- **A run of calls applies the product of their symmetries**: whatever the calls, their
number and their buffers, the image that the last one leaves is the first image with that
symmetry applied; where the product is trivial, every pixel is back in its place. -/
theorem runCalls_turned {p : ℕ} {calls : List (ImageCall × Buffers)} :
    ∀ {size : ℕ × ℕ} {place : PixelRows} {m : Mem}, Chained p calls size place →
      (runCalls p calls size m).1 = .ok →
      Turned (symmetryOf calls) size p place (lastPlace p calls place) m
          (runCalls p calls size m).2 ∧
        (symmetryOf calls = 1 → ∀ q : ℕ × ℕ, q.1 < size.1 → q.2 < size.2 → ∀ k < p,
          (runCalls p calls size m).2 ((lastPlace p calls place).byteAt (q.1, q.2, k)) =
            m (place.byteAt (q.1, q.2, k))) := by
  -- One call after another; the rest of them starts from what the first leaves.
  have hturned : ∀ {size : ℕ × ℕ} {place : PixelRows} {m : Mem}, Chained p calls size place →
      (runCalls p calls size m).1 = .ok →
      Turned (symmetryOf calls) size p place (lastPlace p calls place) m
        (runCalls p calls size m).2 := by
    induction calls with
    | nil => exact fun _ _ => Turned.refl _ p _ _
    | cons first rest ih =>
      intro size place m hchained hok
      obtain ⟨call, b⟩ := first
      obtain ⟨hplace, hplaced, hrest⟩ := hchained
      by_cases hcall : (call.run b size p m).1 = .ok
      · rw [runCalls_cons rest hcall] at hok ⊢
        rw [← hplace]
        exact (ImageCall.turned hplaced hcall).trans (ih hrest hok)
      · simp only [runCalls, if_pos hcall] at hok
        exact absurd hok hcall
  intro size place m hchained hok
  refine ⟨hturned hchained hok, fun hone => ?_⟩
  have h := hturned hchained hok
  rw [hone] at h
  exact h

/-- Two rows of three bytes, rotated into a second buffer, flipped there, and transposed back
into the first. -/
def thereAndBack : List (ImageCall × Buffers) :=
  [(.rotate 90, ⟨100, 3, 200, 2⟩), (.flip .horizontal, ⟨200, 2, 200, 2⟩), (.transpose, ⟨200, 2, 100, 3⟩)]

example : symmetryOf thereAndBack = 1 := by decide

example : symmetryOf [(.transpose, ⟨100, 3, 200, 2⟩), (.flip .horizontal, ⟨200, 2, 200, 2⟩)] =
    (ImageCall.rotate 90).symmetry := by decide

theorem runCalls_turned_thereAndBack :
    Turned (symmetryOf thereAndBack) (2, 3) 1 ⟨100, 3, 1⟩ ⟨100, 3, 1⟩ (fun a => Fin.ofNat 256 a)
      (runCalls 1 thereAndBack (2, 3) fun a => Fin.ofNat 256 a).2 :=
  (runCalls_turned
    (by
      refine ⟨rfl, ⟨.inl (by decide), ?_⟩, rfl, ⟨.inl (by decide), .inl ⟨rfl, rfl⟩⟩, rfl,
        .inl ⟨by decide, .inl (by decide), ?_⟩, trivial⟩
      · intro r hr c hc r' hr' c' hc'
        simp only [Buffers.dstAt, Buffers.srcAt]
        omega
      · intro r hr c hc r' hr' c' hc'
        simp only [Buffers.dstAt, Buffers.srcAt]
        have hrow : r < 2 := hr
        have hcolumn : c < 3 * 1 := hc
        have hsource : c' < 2 * 1 := hc'
        omega)
    (by rw [thereAndBack, runCalls_cons _ rfl, runCalls_cons _ rfl, runCalls_cons _ rfl]; rfl)).1

end KleidiCV
