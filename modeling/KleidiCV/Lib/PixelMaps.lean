/-
Images in planes, put together from the bytes of other images.

A `PixelMap` says, for each byte of a pixel of each plane, which byte of the pixel in the same
place it comes from, or that it is a constant.  Pixels are numbered, and the planes of an
image are given by the addresses of their pixels, so rows with gaps and rows without are alike.

* `PixelMap.value_andThen` — a map after another;
* `Copies.trans` — pixels that follow each other;
* `Copies.of_ranges` — pixels stored as ranges of bytes, several to a pixel or the other way
  round.
-/
import KleidiCV.Lib.Overwrite

open Loop

/-- Where a byte of a pixel comes from. -/
inductive PixelByte (β : Type*)
  | byte (plane index : ℕ)
  | constant (value : β)

/-- Where byte `i` of a pixel of plane `p` comes from. -/
abbrev PixelMap (β : Type*) := ℕ → ℕ → PixelByte β

/-- How many planes an image has, and the bytes of a pixel in each. -/
structure PixelFormat where
  planes : ℕ
  pixel : ℕ → ℕ

/-- For a plane and the number of a pixel, the address of the pixel. -/
abbrev PixelPlaces := ℕ → ℕ → ℕ

namespace PixelMap

variable {β : Type*}

/-- The byte that a map makes of the pixels `source`. -/
def value (f : PixelMap β) (source : ℕ → ℕ → β) (p i : ℕ) : β :=
  match f p i with
  | .byte q j => source q j
  | .constant v => v

/-- `f` first, `g` after it. -/
def andThen (f g : PixelMap β) : PixelMap β := fun p i =>
  match g p i with
  | .byte q j => f q j
  | .constant v => .constant v

/-- Every byte in its place. -/
def identity : PixelMap β := fun p i => .byte p i

theorem value_andThen (f g : PixelMap β) (source : ℕ → ℕ → β) (p i : ℕ) :
    (f.andThen g).value source p i = g.value (f.value source) p i := by
  unfold value andThen
  cases g p i with
  | byte q j => rfl
  | constant v => rfl

/-- Between the formats `S` and `D`: every byte comes from a byte that there is. -/
def Between (f : PixelMap β) (S D : PixelFormat) : Prop :=
  ∀ p < D.planes, ∀ i < D.pixel p, ∀ q j, f p i = .byte q j → q < S.planes ∧ j < S.pixel q

/-- Only the bytes of the source count. -/
theorem value_congr {f : PixelMap β} {S D : PixelFormat} (hf : f.Between S D)
    {s s' : ℕ → ℕ → β} {p i : ℕ} (hp : p < D.planes) (hi : i < D.pixel p)
    (hs : ∀ q < S.planes, ∀ j < S.pixel q, s q j = s' q j) : f.value s p i = f.value s' p i := by
  have hbyte := hf p hp i hi
  unfold value
  cases hfrom : f p i with
  | byte q j => exact hs q (hbyte q j hfrom).1 j (hbyte q j hfrom).2
  | constant v => rfl

theorem Between.andThen {f g : PixelMap β} {S T D : PixelFormat} (hf : f.Between S T)
    (hg : g.Between T D) : (f.andThen g).Between S D := by
  intro p hp i hi q j hfrom
  unfold PixelMap.andThen at hfrom
  cases hmiddle : g p i with
  | byte r k =>
    obtain ⟨hr, hk⟩ := hg p hp i hi r k hmiddle
    rw [hmiddle] at hfrom
    exact hf r hr k hk q j hfrom
  | constant v =>
    rw [hmiddle] at hfrom
    cases hfrom

end PixelMap

/-- The bytes of the pixels from `a` to `b`: a plane, a pixel and a byte. -/
def PixelFormat.part (D : PixelFormat) (a b : ℕ) : Set (ℕ × ℕ × ℕ) :=
  {t | t.1 < D.planes ∧ (a ≤ t.2.1 ∧ t.2.1 < b) ∧ t.2.2 < D.pixel t.1}

/-- The address of a byte. -/
def byteAt (places : PixelPlaces) (t : ℕ × ℕ × ℕ) : ℕ := places t.1 t.2.1 + t.2.2

/-- `n` pixels that do not overlap, and share no byte with those they come from, unless they
are in the place of them and that is allowed. -/
structure PixelsApart (inPlace : Prop) (S D : PixelFormat) (src dst : PixelPlaces) (n : ℕ) :
    Prop where
  injOn : Set.InjOn (byteAt dst) (D.part 0 n)
  apart : ∀ s ∈ S.part 0 n, ∀ t ∈ D.part 0 n, byteAt src s = byteAt dst t →
    inPlace ∧ s.2 = t.2

/-- From `m` to `m'`, the pixels from `a` to `b` were written, as `f` makes them of `m`. -/
def Copies {β : Type*} (f : PixelMap β) (D : PixelFormat) (src dst : PixelPlaces) (a b : ℕ)
    (m m' : ℕ → β) : Prop :=
  Wrote (byteAt dst) (fun t => f.value (fun q j => m (src q t.2.1 + j)) t.1 t.2.2) (D.part a b) m m'

section

variable {β : Type*} {f : PixelMap β} {S D : PixelFormat} {src dst src' dst' : PixelPlaces}
  {a b c k n : ℕ} {m m' m'' : ℕ → β} {inPlace : Prop}

theorem part_mono (ha : c ≤ a) (hb : b ≤ k) : D.part a b ⊆ D.part c k := fun _ ht =>
  ⟨ht.1, ⟨ha.trans ht.2.1.1, ht.2.1.2.trans_le hb⟩, ht.2.2⟩

theorem PixelsApart.mono (h : PixelsApart inPlace S D src dst n) (hkn : k ≤ n) :
    PixelsApart inPlace S D src dst k :=
  ⟨h.injOn.mono (part_mono le_rfl hkn), fun s hs t ht =>
    h.apart s (part_mono le_rfl hkn hs) t (part_mono le_rfl hkn ht)⟩

/-- The pixels from `a` on. -/
theorem PixelsApart.from (h : PixelsApart inPlace S D src dst n) (hab : a + k ≤ n) :
    PixelsApart inPlace S D (fun p x => src p (a + x)) (fun p x => dst p (a + x)) k := by
  have hmem : ∀ {F : PixelFormat} {t : ℕ × ℕ × ℕ}, t ∈ F.part 0 k →
      (t.1, a + t.2.1, t.2.2) ∈ F.part 0 n := by
    intro F t ht
    have hlt := ht.2.1.2
    exact ⟨ht.1, ⟨Nat.zero_le _, by simp only; omega⟩, ht.2.2⟩
  constructor
  · intro t ht t' ht' heq
    have hsame := h.injOn (hmem ht) (hmem ht') heq
    simp only [Prod.mk.injEq] at hsame
    exact Prod.ext hsame.1 (Prod.ext (Nat.add_left_cancel hsame.2.1) hsame.2.2)
  · intro s hs t ht heq
    obtain ⟨hallowed, hsame⟩ := h.apart _ (hmem hs) _ (hmem ht) heq
    simp only [Prod.mk.injEq] at hsame
    exact ⟨hallowed, Prod.ext (Nat.add_left_cancel hsame.1) hsame.2⟩

theorem PixelsApart.congr (h : PixelsApart inPlace S D src dst n)
    (hsrc : ∀ p < S.planes, ∀ x < n, src' p x = src p x)
    (hdst : ∀ p < D.planes, ∀ x < n, dst' p x = dst p x) : PixelsApart inPlace S D src' dst' n := by
  have hD : ∀ t ∈ D.part 0 n, byteAt dst' t = byteAt dst t := fun t ht =>
    congrArg (· + t.2.2) (hdst t.1 ht.1 t.2.1 ht.2.1.2)
  have hS : ∀ t ∈ S.part 0 n, byteAt src' t = byteAt src t := fun t ht =>
    congrArg (· + t.2.2) (hsrc t.1 ht.1 t.2.1 ht.2.1.2)
  constructor
  · intro t ht t' ht' heq
    rw [hD t ht, hD t' ht'] at heq
    exact h.injOn ht ht' heq
  · intro s hs t ht heq
    rw [hS s hs, hD t ht] at heq
    exact h.apart s hs t ht heq

namespace Copies

theorem refl (m : ℕ → β) (hba : b ≤ a) : Copies f D src dst a b m m := by
  refine Wrote.refl_of_empty m ?_
  rintro t ⟨-, ⟨h1, h2⟩, -⟩
  omega

/-- The pixels that follow: what they come from is still in its place. -/
theorem trans (hf : f.Between S D) (h : PixelsApart inPlace S D src dst n) (hab : a ≤ b) (hbc : b ≤ c)
    (hc : c ≤ n) (h1 : Copies f D src dst a b m m') (h2 : Copies f D src dst b c m' m'') :
    Copies f D src dst a c m m'' := by
  have hvalue : Wrote (byteAt dst)
      (fun t => f.value (fun q j => m (src q t.2.1 + j)) t.1 t.2.2) (D.part b c) m' m'' := by
    refine h2.congr_value ?_
    rintro t ⟨hp, hx, hi⟩
    refine PixelMap.value_congr hf hp hi fun q hq j hj => ?_
    refine h1.read fun t' ht' heq => ?_
    obtain ⟨-, hsame⟩ := h.apart (q, t.2.1, j) ⟨hq, ⟨Nat.zero_le _, by simp only; omega⟩, hj⟩ t'
      (part_mono (Nat.zero_le a) (hbc.trans hc) ht') heq.symm
    have hbefore := ht'.2.1.2
    have hnumber := congrArg Prod.fst hsame
    simp only at hnumber
    omega
  refine (Wrote.trans h.injOn (part_mono (Nat.zero_le a) (hbc.trans hc))
    (part_mono (Nat.zero_le b) hc) h1 hvalue).congr ?_
  ext t
  simp only [PixelFormat.part, Set.mem_union, Set.mem_ofPred_eq]
  omega

/-- Pixels under other numbers. -/
theorem shift (h : Copies f D (fun p x => src p (a + x)) (fun p x => dst p (a + x)) 0 k m m') :
    Copies f D src dst a (a + k) m m' := by
  refine Wrote.reindex (fun t => (t.1, t.2.1 - a, t.2.2)) h ?_ ?_
  · rintro t ⟨hp, ⟨hx, hx'⟩, hi⟩
    have hnumber : a + (t.2.1 - a) = t.2.1 := Nat.add_sub_cancel' hx
    refine ⟨⟨hp, ⟨Nat.zero_le _, by simp only; omega⟩, hi⟩, ?_, ?_⟩
    · simp only [byteAt, hnumber]
    · simp only [hnumber]
  · rintro t ⟨hp, ⟨-, hx⟩, hi⟩
    refine ⟨(t.1, a + t.2.1, t.2.2), ⟨hp, ⟨Nat.le_add_right _ _, by simp only; omega⟩, hi⟩, ?_⟩
    simp only [Nat.add_sub_cancel_left]

theorem congr (hf : f.Between S D) (h : Copies f D src dst a b m m')
    (hsrc : ∀ p < S.planes, ∀ x, a ≤ x → x < b → src' p x = src p x)
    (hdst : ∀ p < D.planes, ∀ x, a ≤ x → x < b → dst' p x = dst p x) :
    Copies f D src' dst' a b m m' := by
  refine Wrote.reindex id h ?_ fun t ht => ⟨t, ht, rfl⟩
  rintro t ⟨hp, ⟨hx, hx'⟩, hi⟩
  refine ⟨⟨hp, ⟨hx, hx'⟩, hi⟩, ?_, ?_⟩
  · exact congrArg (· + t.2.2) (hdst t.1 hp t.2.1 hx hx').symm
  · exact PixelMap.value_congr hf hp hi fun q hq j _ => by
      simp only [id, hsrc q hq t.2.1 hx hx']

/-- Ranges of bytes stored one after another: byte `j` of range `r` is byte `place r j` of the
pixels.  They may be loaded before all stores or, unless pixels are in the place of their
sources, when it is their turn. -/
theorem of_ranges {count : ℕ} {dstOf lenOf : ℕ → ℕ} {g : ℕ → (ℕ → β) → ℕ → β}
    (place : ℕ → ℕ → ℕ × ℕ × ℕ) (h : PixelsApart inPlace S D src dst n) (m : ℕ → β)
    (hplace : ∀ r < count, ∀ j < lenOf r, place r j ∈ D.part 0 n ∧
      byteAt dst (place r j) = dstOf r + j)
    (hg : ∀ r < count, ∀ j < lenOf r, ∀ m' : ℕ → β,
      (¬inPlace → ∀ s ∈ S.part 0 n, m' (byteAt src s) = m (byteAt src s)) → g r m' j =
        f.value (fun q i => m (src q (place r j).2.1 + i)) (place r j).1 (place r j).2.2)
    (hsurj : ∀ t ∈ D.part 0 n, ∃ r < count, ∃ j < lenOf r, place r j = t) :
    Copies f D src dst 0 n m
      (forRange count (fun r m => overwrite m (dstOf r) (lenOf r) (g r m)) m) := by
  have hpart : ∀ r < count, {t | ∃ j < lenOf r, place r j = t} ⊆ D.part 0 n := by
    rintro r hr _ ⟨j, hj, rfl⟩
    exact (hplace r hr j hj).1
  refine (Wrote.forRange h.injOn (fun r => {t | ∃ j < lenOf r, place r j = t}) hpart m
    fun r hr m' hm' => ?_).congr ?_
  · refine overwrite_wrote_range (fun j hj => (hplace r hr j hj).2) fun j hj => ?_
    refine hg r hr j hj m' fun hnot s hs => hm'.read fun t ht heq => ?_
    obtain ⟨r', hr', ht⟩ := Set.mem_iUnion₂.mp ht
    exact hnot (h.apart s hs t (hpart r' (hr'.trans hr) ht) heq.symm).1
  · ext t
    simp only [Set.mem_iUnion, exists_prop, Set.mem_ofPred_eq]
    constructor
    · rintro ⟨r, hr, ht⟩
      exact hpart r hr ht
    · exact hsurj t

end Copies

end
