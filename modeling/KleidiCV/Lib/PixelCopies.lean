/-
Rows of pixels copied from anywhere in memory, piece by piece.

A pixel is `p` bytes, and `pix x` is the address that pixel `x` of a row is copied from.  What a
piece copies is what memory held at its start, so pieces go together when none of the pixels is
copied from a row that is written.

* `CopiesPixels.append`, `CopiesPixels.of_segments` — a row in two or three pieces;
* `CopiesRows.append`, `CopiesRows.forFrom` — rows of a block, one after another;
* `CopiesRows.foldl` — ranges of rows that make up the block, in any order.
-/
import KleidiCV.Lib.Partition
import KleidiCV.Lib.StoredPrefix

open Loop

variable {β : Type*} {A : Set ℕ} {p d n k : ℕ} {f g h : Tallied β → Tallied β}

/-- `f` stores `n` pixels from `d` on, pixel `x` with what memory holds at `pix x`; loads are from
`A` only. -/
def CopiesPixels (A : Set ℕ) (p d n : ℕ) (pix : ℕ → ℕ) (f : Tallied β → Tallied β) : Prop :=
  ∀ r, RowStored A d (n * p) (fun j => r.mem (pix (j / p) + j % p)) r (f r)

namespace CopiesPixels

variable {pix pix' : ℕ → ℕ}

theorem congr (hf : CopiesPixels A p d n pix f) (hpix : ∀ x < n, pix x = pix' x) :
    CopiesPixels A p d n pix' f := by
  intro r
  refine (hf r).congr fun j hj => ?_
  rw [hpix _ (Nat.div_lt_of_lt_mul (by rwa [Nat.mul_comm]))]

/-- Nothing is copied. -/
theorem of_eq_zero (hf : CopiesPixels A p d n pix f) (hn : n = 0) (pix' : ℕ → ℕ) :
    CopiesPixels A p d n pix' f :=
  hf.congr fun x hx => by omega

/-- A pixel of a later piece, in the whole row. -/
theorem pixel_add (hp : 0 < p) (n j : ℕ) (m : ℕ → β) :
    m (pix (n + j / p) + j % p) = m (pix ((n * p + j) / p) + (n * p + j) % p) := by
  rw [Nat.mul_comm n p, Nat.mul_add_div hp, Nat.mul_add_mod]

/-- What is copied is not in the piece that was stored. -/
theorem source_eq {l : ℕ} {r r' : Tallied β} {v : ℕ → β} (hp : 0 < p)
    (hA : ∀ x < k, ∀ i < p, pix x + i ∈ A) (hapart : ∀ j < l, d + j ∉ A)
    (hr : RowStored A d l v r r') {j : ℕ} (hj : j < k * p) :
    r'.mem (pix (j / p) + j % p) = r.mem (pix (j / p) + j % p) := by
  have hmem := hA (j / p) (Nat.div_lt_of_lt_mul (by rwa [Nat.mul_comm])) (j % p) (Nat.mod_lt j hp)
  exact hr.read fun i hi heq => hapart i hi (heq ▸ hmem)

/-- The piece that follows. -/
theorem append (hp : 0 < p) (hA : ∀ x < n + k, ∀ i < p, pix x + i ∈ A)
    (hapart : ∀ j < (n + k) * p, d + j ∉ A) (hf : CopiesPixels A p d n pix f)
    (hg : CopiesPixels A p (d + n * p) k (fun x => pix (n + x)) g) :
    CopiesPixels A p d (n + k) pix fun r => g (f r) := by
  intro r
  have hsum : (n + k) * p = n * p + k * p := Nat.add_mul n k p
  rw [hsum] at hapart ⊢
  refine (hf r).append ((hg (f r)).congr fun j hj => ?_)
  rw [← pixel_add hp n j r.mem]
  exact source_eq hp (fun x hx => hA (n + x) (by omega)) (fun i hi => hapart i (by omega)) (hf r) hj

/-- Three pieces, the one in the middle first. -/
theorem of_segments {l : ℕ} (hp : 0 < p) (hA : ∀ x < n + k + l, ∀ i < p, pix x + i ∈ A)
    (hapart : ∀ j < (n + k + l) * p, d + j ∉ A)
    (hmiddle : CopiesPixels A p (d + n * p) k (fun x => pix (n + x)) f)
    (hleft : CopiesPixels A p d n pix g)
    (hright : CopiesPixels A p (d + (n + k) * p) l (fun x => pix (n + k + x)) h) :
    CopiesPixels A p d (n + k + l) pix fun r => h (g (f r)) := by
  intro r
  have hsum : (n + k + l) * p = n * p + k * p + l * p := by rw [Nat.add_mul, Nat.add_mul]
  have hpre : (n + k) * p = n * p + k * p := Nat.add_mul n k p
  rw [hsum] at hapart ⊢
  have hf : RowStored A (d + n * p) (k * p)
      (fun j => r.mem (pix ((n * p + j) / p) + (n * p + j) % p)) r (f r) :=
    (hmiddle r).congr fun j _ => pixel_add hp n j r.mem
  have hf_apart : ∀ i < k * p, d + n * p + i ∉ A := fun i hi => by
    rw [Nat.add_assoc]
    exact hapart _ (by omega)
  have hg : RowStored A d (n * p) (fun j => r.mem (pix (j / p) + j % p)) (f r) (g (f r)) :=
    (hleft (f r)).congr fun j hj => source_eq hp (fun x hx => hA x (by omega)) hf_apart hf hj
  rw [hpre] at hright
  refine hf.of_segments hg ((hright (g (f r))).congr fun j hj => ?_)
  have hsource : ∀ x < l, ∀ i < p, pix (n + k + x) + i ∈ A := fun x hx => hA _ (by omega)
  rw [← hpre, ← pixel_add hp (n + k) j r.mem,
    source_eq hp hsource (fun i hi => hapart i (by omega)) hg hj]
  exact source_eq hp hsource hf_apart hf hj

end CopiesPixels

/-! ### Rows of a block -/

/-- `f` stores rows `b` to `e` of a block of `w` pixels a row; pixel `x` of row `y` is copied from
`pix y x`. -/
def CopiesRows (A : Set ℕ) (p base stride w : ℕ) (pix : ℕ → ℕ → ℕ) (b e : ℕ)
    (f : Tallied β → Tallied β) : Prop :=
  ∀ r, Stored (blockAt base stride) (fun q => r.mem (pix q.1 (q.2 / p) + q.2 % p)) A
    {q | (b ≤ q.1 ∧ q.1 < e) ∧ q.2 < w * p} r (f r)

/-- A block of `rows` rows that do not overlap, with pixels copied from `A`, which it does not
meet. -/
structure CopyLayout (A : Set ℕ) (p base stride w rows : ℕ) (pix : ℕ → ℕ → ℕ) : Prop where
  pixel_pos : 0 < p
  injOn : Set.InjOn (blockAt base stride) (blockPart (w * p) rows)
  sources : ∀ y < rows, ∀ x < w, ∀ i < p, pix y x + i ∈ A
  apart : ∀ q ∈ blockPart (w * p) rows, blockAt base stride q ∉ A

namespace CopiesRows

variable {base stride w rows b m e y : ℕ} {pix : ℕ → ℕ → ℕ}

theorem empty (r : Tallied β) (hbe : e ≤ b) :
    Stored (blockAt base stride) (fun q => r.mem (pix q.1 (q.2 / p) + q.2 % p)) A
      {q | (b ≤ q.1 ∧ q.1 < e) ∧ q.2 < w * p} r r :=
  (Stored.refl r).congr (Set.empty_subset A)
    (Set.eq_empty_of_forall_notMem fun q hq => by have := hq.1; omega).symm

theorem of_row (hf : CopiesPixels A p (base + y * stride) w (pix y) f) :
    CopiesRows A p base stride w pix y (y + 1) f := by
  intro r
  refine Stored.reindex (fun q => q.2) (hf r) ?_ fun j hj =>
    ⟨(y, j), ⟨⟨le_rfl, y.lt_succ_self⟩, hj⟩, rfl⟩
  rintro ⟨i, j⟩ ⟨hi, hj⟩
  obtain rfl : i = y := by omega
  exact ⟨hj, rfl, rfl⟩

/-- The rows that follow. -/
theorem append (hl : CopyLayout A p base stride w rows pix) (hm : b ≤ m) (he : m ≤ e)
    (hrows : e ≤ rows) (hf : CopiesRows A p base stride w pix b m f)
    (hg : CopiesRows A p base stride w pix m e g) :
    CopiesRows A p base stride w pix b e fun r => g (f r) := by
  intro r
  have hvalue : Stored (blockAt base stride) (fun q => r.mem (pix q.1 (q.2 / p) + q.2 % p)) A
      {q | (m ≤ q.1 ∧ q.1 < e) ∧ q.2 < w * p} (f r) (g (f r)) := by
    refine (hg (f r)).congr_value ?_
    rintro ⟨y, j⟩ ⟨hy, hj⟩
    have hmem := hl.sources y (by omega) (j / p) (Nat.div_lt_of_lt_mul (by rwa [Nat.mul_comm]))
      (j % p) (Nat.mod_lt j hl.pixel_pos)
    refine (hf r).read ?_
    rintro q ⟨hq, hq'⟩ heq
    exact hl.apart q ⟨by omega, hq'⟩ (heq ▸ hmem)
  refine (Stored.trans hl.injOn ?_ ?_ ?_ (hf r) hvalue).congr subset_rfl ?_
  · rintro q ⟨hq, hj⟩
    exact ⟨by omega, hj⟩
  · rintro q ⟨hq, hj⟩
    exact ⟨by omega, hj⟩
  · exact Set.disjoint_left.mpr fun q hq hq' => by have := hq.1; have := hq'.1; omega
  · ext q
    simp only [Set.mem_union, Set.mem_ofPred_eq]
    omega

/-- One row after another. -/
theorem forFrom {body : ℕ → Tallied β → Tallied β} (hl : CopyLayout A p base stride w rows pix)
    (hrows : e ≤ rows) (hbody : ∀ y, b ≤ y → y < e →
      CopiesPixels A p (base + y * stride) w (pix y) (body y)) :
    CopiesRows A p base stride w pix b e (Loop.forFrom b (e - b) body) := by
  obtain hle | hlt := Nat.lt_or_ge e b
  · rw [Nat.sub_eq_zero_of_le hle.le]
    exact fun r => empty r hle.le
  obtain ⟨n, rfl⟩ := Nat.exists_eq_add_of_le hlt
  rw [Nat.add_sub_cancel_left]
  induction n with
  | zero => exact fun r => empty r le_rfl
  | succ n ih =>
    have hbefore := ih (by omega) (fun y hy hy' => hbody y hy (by omega)) (by omega)
    have hrow : CopiesRows A p base stride w pix (b + n) (b + (n + 1)) (body (b + n)) :=
      of_row (hbody (b + n) (by omega) (by omega))
    show CopiesRows A p base stride w pix b (b + (n + 1)) fun r =>
      body (b + n) (Loop.forFrom b n body r)
    exact append hl (Nat.le_add_right b n) (Nat.le_succ _) hrows hbefore hrow

/-- Ranges of rows that make up the block, in any order. -/
theorem foldl {stripe : Tallied β → ℕ × ℕ → Tallied β} {l : List (ℕ × ℕ)}
    (hl : CopyLayout A p base stride w rows pix) (hpartition : IsPartition rows l)
    (hstripe : ∀ s ∈ l, CopiesRows A p base stride w pix s.1 s.2 fun r => stripe r s)
    (r : Tallied β) :
    Stored (blockAt base stride) (fun q => r.mem (pix q.1 (q.2 / p) + q.2 % p)) A
      (blockPart (w * p) rows) r (l.foldl stripe r) := by
  have hpart : ∀ s ∈ l, {q : ℕ × ℕ | (s.1 ≤ q.1 ∧ q.1 < s.2) ∧ q.2 < w * p} ⊆
      blockPart (w * p) rows := fun s hs q hq =>
    ⟨hq.1.2.trans_le (hpartition.bounds s hs).2, hq.2⟩
  refine (Stored.foldl hl.injOn (S := fun s => {q | (s.1 ≤ q.1 ∧ q.1 < s.2) ∧ q.2 < w * p}) hpart
    (hpartition.disjoint.imp fun h => Set.disjoint_left.mpr fun q hq hq' => h q.1 ⟨hq.1, hq'.1⟩)
    fun s hs done r' hr' hdone => (hstripe s hs r').congr_value ?_).congr subset_rfl ?_
  · rintro ⟨y, j⟩ ⟨hy, hj⟩
    have hmem := hl.sources y (hy.2.trans_le (hpartition.bounds s hs).2) (j / p)
      (Nat.div_lt_of_lt_mul (by rwa [Nat.mul_comm])) (j % p) (Nat.mod_lt j hl.pixel_pos)
    refine hr'.read fun q hq heq => ?_
    obtain ⟨t, ht, hqt⟩ := Set.mem_iUnion₂.mp hq
    exact hl.apart q (hpart t (hdone t ht) hqt) (heq ▸ hmem)
  · ext q
    simp only [Set.mem_iUnion, exists_prop]
    constructor
    · rintro ⟨s, hs, hq⟩
      exact hpart s hs hq
    · rintro ⟨hq, hj⟩
      obtain ⟨s, hs, hrow⟩ := hpartition.cover q.1 hq
      exact ⟨s, hs, hrow, hj⟩

end CopiesRows
