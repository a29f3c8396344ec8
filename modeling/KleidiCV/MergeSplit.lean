/-
`kleidicv_merge` and `kleidicv_split`: planes interleaved into one image, and taken apart.

The vector paths put whole vectors in order with stores and loads that interleave, or, where
the build prefers it, with permutations made by hand for each number of channels and each
size of element.  A vector is 16 bytes; elements have `sz` of them.

* `mergeVectors_label`, `splitVectors_label` — the permutations;
* `merge_performs`, `split_performs` — the paths;
* `merge_split_exact` — the calls, one by one and one after the other.
-/
import KleidiCV.Lib.Rearrangement
import KleidiCV.PlaneOperation

open Loop

namespace KleidiCV

namespace Interleave

/-! ### Permutations -/

section

variable {α : Type}

/-- Each byte from one of two vectors. -/
def select (from_ : Fin 16 → Bool × Fin 16) (a b : Fin 16 → α) : Fin 16 → α := fun k =>
  if (from_ k).1 then b (from_ k).2 else a (from_ k).2

/-- `vzip1q`, for lanes of `sz` bytes: the lower lanes of both, in turn. -/
def vzip1q (sz : ℕ) : (Fin 16 → α) → (Fin 16 → α) → Fin 16 → α := select fun k =>
  (k / sz % 2 == 1, Fin.ofNat 16 (k / sz / 2 * sz + k % sz))

/-- `vzip2q`: the upper lanes. -/
def vzip2q (sz : ℕ) : (Fin 16 → α) → (Fin 16 → α) → Fin 16 → α := select fun k =>
  (k / sz % 2 == 1, Fin.ofNat 16 (8 + (k / sz / 2 * sz + k % sz)))

/-- `vuzp1q`: the even lanes of one and of the other. -/
def vuzp1q (sz : ℕ) : (Fin 16 → α) → (Fin 16 → α) → Fin 16 → α := select fun k =>
  (8 ≤ k.val, Fin.ofNat 16 (2 * (k % 8 / sz) * sz + k % sz))

/-- `vuzp2q`: the odd lanes. -/
def vuzp2q (sz : ℕ) : (Fin 16 → α) → (Fin 16 → α) → Fin 16 → α := select fun k =>
  (8 ≤ k.val, Fin.ofNat 16 ((2 * (k % 8 / sz) + 1) * sz + k % sz))

/-- `vtrn1q`: the even lanes of both, in turn. -/
def vtrn1q (sz : ℕ) : (Fin 16 → α) → (Fin 16 → α) → Fin 16 → α := select fun k =>
  (k / sz % 2 == 1, Fin.ofNat 16 (k / sz / 2 * 2 * sz + k % sz))

/-- `vtrn2q`: the odd lanes. -/
def vtrn2q (sz : ℕ) : (Fin 16 → α) → (Fin 16 → α) → Fin 16 → α := select fun k =>
  (k / sz % 2 == 1, Fin.ofNat 16 ((k / sz / 2 * 2 + 1) * sz + k % sz))

/-- `a[1] = b[1]`, for lanes of 64 bits. -/
def setUpper : (Fin 16 → α) → (Fin 16 → α) → Fin 16 → α := select fun k => (8 ≤ k.val, k)

/-- `vqtbl3q_u8`; an index out of range gives `zero`. -/
def vqtbl3q (zero : α) (table : ℕ → Fin 16 → α) (index : Fin 16 → ℕ) : Fin 16 → α := fun k =>
  if index k < 48 then table (index k / 16) (Fin.ofNat 16 (index k)) else zero

end

/-- Vectors, by their numbers. -/
abbrev VectorMap := RowMap ℕ (Fin 16)

/-- `Merge2::vector_path`: what it stores, one vector after another. -/
def merge2 (sz : ℕ) : VectorMap := fun _ _ src c =>
  match c with
  | 0 => vzip1q sz (src 0) (src 1)
  | _ => vzip2q sz (src 0) (src 1)

/-- `Merge3::lookup_table`, for elements of one and of two bytes. -/
def merge3LookupTable (sz : ℕ) : List ℕ :=
  if sz = 1 then
    [0, 16, 32, 1, 17, 33, 2, 18, 34, 3, 19, 35, 4, 20, 36, 5,
     21, 37, 6, 22, 38, 7, 23, 39, 8, 24, 40, 9, 25, 41, 10, 26,
     42, 11, 27, 43, 12, 28, 44, 13, 29, 45, 14, 30, 46, 15, 31, 47]
  else
    [0, 1, 16, 17, 32, 33, 2, 3, 18, 19, 34, 35, 4, 5, 20, 21,
     36, 37, 6, 7, 22, 23, 38, 39, 8, 9, 24, 25, 40, 41, 10, 11,
     26, 27, 42, 43, 12, 13, 28, 29, 44, 45, 14, 15, 30, 31, 46, 47]

/-- `Merge3::vector_path`. -/
def merge3 (sz : ℕ) : VectorMap := fun _ zero src c =>
  if sz = 4 then
    let w := vtrn2q 4 (src 0) (src 1)
    let x := vtrn1q 4 (src 2) w
    let y := vtrn2q 4 w (src 2)
    let z := vtrn1q 4 (src 0) (src 1)
    match c with
    | 0 => vzip1q 8 z x
    | 1 => setUpper y z
    | _ => vzip2q 8 x y
  else if sz = 8 then
    match c with
    | 0 => vzip1q 8 (src 0) (src 1)
    | 1 => setUpper (src 2) (src 0)
    | _ => vzip2q 8 (src 1) (src 2)
  else vqtbl3q zero src fun k => (merge3LookupTable sz).getD (16 * c + k) 0

/-- `Merge4::vector_path`. -/
def merge4 (sz : ℕ) : VectorMap := fun _ _ src c =>
  if sz = 8 then
    match c with
    | 0 => vzip1q 8 (src 0) (src 1)
    | 1 => vzip1q 8 (src 2) (src 3)
    | 2 => vzip2q 8 (src 0) (src 1)
    | _ => vzip2q 8 (src 2) (src 3)
  else
    let zip1AB := vzip1q sz (src 0) (src 1)
    let zip1CD := vzip1q sz (src 2) (src 3)
    let zip2AB := vzip2q sz (src 0) (src 1)
    let zip2CD := vzip2q sz (src 2) (src 3)
    match c with
    | 0 => vzip1q (2 * sz) zip1AB zip1CD
    | 1 => vzip2q (2 * sz) zip1AB zip1CD
    | 2 => vzip1q (2 * sz) zip2AB zip2CD
    | _ => vzip2q (2 * sz) zip2AB zip2CD

/-- `Split2::vector_path`: what it makes of the vectors of a block. -/
def split2 (sz : ℕ) : VectorMap := fun _ _ src c =>
  match c with
  | 0 => vuzp1q sz (src 0) (src 1)
  | _ => vuzp2q sz (src 0) (src 1)

/-- `Split3::Split3Init`. -/
def split3Indices (sz : ℕ) : List ℕ :=
  if sz = 1 then
    [0, 3, 6, 9, 12, 15, 18, 21, 24, 27, 30, 33, 36, 39, 42, 45,
     1, 4, 7, 10, 13, 16, 19, 22, 25, 28, 31, 34, 37, 40, 43, 46,
     2, 5, 8, 11, 14, 17, 20, 23, 26, 29, 32, 35, 38, 41, 44, 47]
  else if sz = 2 then
    [0, 1, 6, 7, 12, 13, 18, 19, 24, 25, 30, 31, 36, 37, 42, 43,
     2, 3, 8, 9, 14, 15, 20, 21, 26, 27, 32, 33, 38, 39, 44, 45,
     4, 5, 10, 11, 16, 17, 22, 23, 28, 29, 34, 35, 40, 41, 46, 47]
  else if sz = 4 then
    [0, 1, 2, 3, 12, 13, 14, 15, 24, 25, 26, 27, 36, 37, 38, 39,
     4, 5, 6, 7, 16, 17, 18, 19, 28, 29, 30, 31, 40, 41, 42, 43,
     8, 9, 10, 11, 20, 21, 22, 23, 32, 33, 34, 35, 44, 45, 46, 47]
  else
    [0, 1, 2, 3, 4, 5, 6, 7, 24, 25, 26, 27, 28, 29, 30, 31,
     8, 9, 10, 11, 12, 13, 14, 15, 32, 33, 34, 35, 36, 37, 38, 39,
     16, 17, 18, 19, 20, 21, 22, 23, 40, 41, 42, 43, 44, 45, 46, 47]

/-- `Split3::vector_path`. -/
def split3 (sz : ℕ) : VectorMap := fun _ zero src c =>
  vqtbl3q zero src fun k => (split3Indices sz).getD (16 * c + k) 0

/-- `Split4::vector_path`. -/
def split4 (sz : ℕ) : VectorMap := fun _ _ src c =>
  if sz = 8 then
    match c with
    | 0 => vuzp1q 8 (src 0) (src 2)
    | 1 => vuzp2q 8 (src 0) (src 2)
    | 2 => vuzp1q 8 (src 1) (src 3)
    | _ => vuzp2q 8 (src 1) (src 3)
  else
    let even1 := vuzp1q (2 * sz) (src 0) (src 1)
    let even2 := vuzp1q (2 * sz) (src 2) (src 3)
    let odd1 := vuzp2q (2 * sz) (src 0) (src 1)
    let odd2 := vuzp2q (2 * sz) (src 2) (src 3)
    match c with
    | 0 => vuzp1q sz even1 even2
    | 1 => vuzp2q sz even1 even2
    | 2 => vuzp1q sz odd1 odd2
    | _ => vuzp2q sz odd1 odd2

/-- The vectors of `Merge2`, `Merge3` and `Merge4`. -/
def mergeVectors (channels sz : ℕ) : VectorMap :=
  match channels with
  | 2 => merge2 sz
  | 3 => merge3 sz
  | _ => merge4 sz

/-- The vectors of `Split2`, `Split3` and `Split4`. -/
def splitVectors (channels sz : ℕ) : VectorMap :=
  match channels with
  | 2 => split2 sz
  | 3 => split3 sz
  | _ => split4 sz

section

variable {α β : Type} (g : α → β)

theorem select_map (from_ : Fin 16 → Bool × Fin 16) (a b : Fin 16 → α) :
    select from_ (fun k => g (a k)) (fun k => g (b k)) = fun k => g (select from_ a b k) := by
  funext k
  unfold select
  split <;> rfl

theorem vqtbl3q_map (zero : α) (table : ℕ → Fin 16 → α) (index : Fin 16 → ℕ) :
    vqtbl3q (g zero) (fun c k => g (table c k)) index = fun k => g (vqtbl3q zero table index k) := by
  funext k
  unfold vqtbl3q
  split <;> rfl

end

theorem mergeVectors_natural (channels sz : ℕ) : Natural (mergeVectors channels sz) := by
  intro α β g z v
  funext c
  unfold mergeVectors
  split
  · unfold merge2
    split <;> exact select_map g _ _ _
  · unfold merge3
    split_ifs
    · simp only [vtrn1q, vtrn2q, select_map g]
      split <;> exact select_map g _ _ _
    · split <;> exact select_map g _ _ _
    · exact vqtbl3q_map g z v _
  · unfold merge4
    split_ifs
    · split <;> exact select_map g _ _ _
    · simp only [vzip1q, vzip2q, select_map g]
      split <;> rfl

theorem splitVectors_natural (channels sz : ℕ) : Natural (splitVectors channels sz) := by
  intro α β g z v
  funext c
  unfold splitVectors
  split
  · unfold split2
    split <;> exact select_map g _ _ _
  · exact vqtbl3q_map g z v _
  · unfold split4
    split_ifs
    · split <;> exact select_map g _ _ _
    · simp only [vuzp1q, vuzp2q, select_map g]
      split <;> rfl

/-- Where byte `t` of a merged block comes from: a plane and a byte of its vector. -/
def mergedFrom (channels sz t : ℕ) : ℕ × Fin 16 :=
  (t / sz % channels, Fin.ofNat 16 (t / sz / channels * sz + t % sz))

/-- Where byte `k` of plane `c` comes from in a block. -/
def splitFrom (channels sz c k : ℕ) : ℕ := (k / sz * channels + c) * sz + k % sz

/-- Two to four channels. -/
def ChannelCount (channels : ℕ) : Prop := channels = 2 ∨ channels = 3 ∨ channels = 4

theorem mergeVectors_label {channels sz : ℕ} (hn : ChannelCount channels) (hsz : ScalarSize sz) :
    ∀ c < channels, ∀ k : Fin 16, mergeVectors channels sz (Option (ℕ × Fin 16)) none labels c k =
      some (mergedFrom channels sz (16 * c + k)) := by
  obtain rfl | rfl | rfl := hn <;> obtain rfl | rfl | rfl | rfl := hsz <;> decide +kernel

theorem splitVectors_label {channels sz : ℕ} (hn : ChannelCount channels) (hsz : ScalarSize sz) :
    ∀ c < channels, ∀ k : Fin 16, splitVectors channels sz (Option (ℕ × Fin 16)) none labels c k =
      some (splitFrom channels sz c k / 16, Fin.ofNat 16 (splitFrom channels sz c k)) := by
  obtain rfl | rfl | rfl := hn <;> obtain rfl | rfl | rfl | rfl := hsz <;> decide +kernel

/-! ### Paths -/

/-- `vld2q`, `vld3q` and `vld4q`: lane `i` of vector `c` is element `n * i + c`. -/
def vldNq (n sz : ℕ) (m : Mem) (ptr : ℕ) : ℕ → U8x16 := fun c k => m (ptr + splitFrom n sz c k)

/-- `vst2q`, `vst3q` and `vst4q`. -/
def vstNq (n sz : ℕ) (m : Mem) (ptr : ℕ) (v : ℕ → U8x16) : Mem :=
  overwrite m ptr (n * 16) fun t => v (mergedFrom n sz t).1 (mergedFrom n sz t).2

/-- `VecTraits::store`, of `n` vectors. -/
def storeVectors (n : ℕ) (v : ℕ → U8x16) (ptr : ℕ) (m : Mem) : Mem :=
  forRange n (fun c m => vst1qU8 m (ptr + c * 16) (v c)) m

/-- `vector_path` of `Merge2`, `Merge3` and `Merge4`; `interleaving` is
`KLEIDICV_PREFER_INTERLEAVING_LOAD_STORE`. -/
def mergeVectorPath (interleaving : Bool) (channels sz : ℕ) (src : ℕ → U8x16) (dst : ℕ) (m : Mem) :
    Mem :=
  if interleaving then vstNq channels sz m dst src
  else storeVectors channels (mergeVectors channels sz U8 0 src) dst m

/-- `Merge2`, `Merge3` and `Merge4`, with the vectors that `OperationAdapter` loads. -/
def merge (interleaving : Bool) (channels sz : ℕ) : PlaneOperation where
  numLanes := numLanes sz
  isUnrolledTwice := true
  vectorPath2x := fun src dst m =>
    let src0 := fun c => vld1qU8 m (src c)
    let src1 := fun c => vld1qU8 m (src c + 16)
    let m := mergeVectorPath interleaving channels sz src0 (dst 0) m
    mergeVectorPath interleaving channels sz src1 (dst 0 + numLanes sz * (channels * sz)) m
  vectorPath := fun src dst m =>
    mergeVectorPath interleaving channels sz (fun c => vld1qU8 m (src c)) (dst 0) m
  scalarPath := fun src dst =>
    forRange channels fun c m => overwrite m (dst 0 + c * sz) sz fun j => m (src c + j)

/-- `vector_path` of `Split2`, `Split3` and `Split4`, to pointers. -/
def splitToPointers (channels sz src : ℕ) (dst : ℕ → ℕ) (m : Mem) : Mem :=
  let vsrc := vldNq channels sz m src
  forRange channels (fun c m => vst1qU8 m (dst c) (vsrc c)) m

/-- `vector_path` of `Split2`, `Split3` and `Split4`, on the vectors of a block. -/
def splitBlock (channels sz : ℕ) (m : Mem) (src : ℕ) : ℕ → U8x16 :=
  splitVectors channels sz U8 0 fun c => vld1qU8 m (src + c * 16)

/-- `Split2`, `Split3` and `Split4`, with the loads and stores of `OperationAdapter`. -/
def split (interleaving : Bool) (channels sz : ℕ) : PlaneOperation where
  numLanes := numLanes sz
  isUnrolledTwice := true
  vectorPath2x := fun src dst m =>
    if interleaving then
      splitToPointers channels sz (src 0 + numLanes sz * (channels * sz))
        (fun c => dst c + numLanes sz * sz) (splitToPointers channels sz (src 0) dst m)
    else
      let vdst0 := splitBlock channels sz m (src 0)
      let vdst1 := splitBlock channels sz m (src 0 + numLanes sz * (channels * sz))
      forRange channels (fun c m => vst1qU8 (vst1qU8 m (dst c) (vdst0 c)) (dst c + 16) (vdst1 c)) m
  vectorPath := fun src dst m =>
    if interleaving then splitToPointers channels sz (src 0) dst m
    else
      let vdst := splitBlock channels sz m (src 0)
      forRange channels (fun c m => vst1qU8 m (dst c) (vdst c)) m
  scalarPath := fun src dst =>
    forRange channels fun c m => overwrite m (dst c) sz fun j => m (src 0 + c * sz + j)

/-! ### What the paths copy -/

/-- `channels` planes of elements of `sz` bytes. -/
def planesFormat (channels sz : ℕ) : PixelFormat := ⟨channels, fun _ => sz⟩

/-- One image with `channels` elements of `sz` bytes in a pixel. -/
def packedFormat (channels sz : ℕ) : PixelFormat := ⟨1, fun _ => channels * sz⟩

/-- Byte `i` of a merged pixel. -/
def mergeMap (sz : ℕ) : PixelMap U8 := fun _ i => .byte (i / sz) (i % sz)

/-- Byte `i` of a pixel of plane `p`. -/
def splitMap (sz : ℕ) : PixelMap U8 := fun p i => .byte 0 (p * sz + i)

theorem mergeMap_between {channels sz : ℕ} (hsz : 0 < sz) :
    (mergeMap sz).Between (planesFormat channels sz) (packedFormat channels sz) := by
  intro p _ i hi q j hfrom
  obtain ⟨rfl, rfl⟩ : i / sz = q ∧ i % sz = j := by
    simpa only [mergeMap, PixelByte.byte.injEq] using hfrom
  exact ⟨Nat.div_lt_of_lt_mul (by rwa [Nat.mul_comm]), Nat.mod_lt i hsz⟩

theorem splitMap_between {channels sz : ℕ} :
    (splitMap sz).Between (packedFormat channels sz) (planesFormat channels sz) := by
  intro p hp i hi q j hfrom
  obtain ⟨rfl, rfl⟩ : 0 = q ∧ p * sz + i = j := by
    simpa only [splitMap, PixelByte.byte.injEq] using hfrom
  have hle := Nat.mul_le_mul_right sz (Nat.succ_le_of_lt hp)
  rw [Nat.succ_mul] at hle
  exact ⟨Nat.one_pos, (Nat.add_lt_add_left hi _).trans_le hle⟩

section

variable {channels sz : ℕ}

theorem numLanes_bytes (hsz : ScalarSize sz) : numLanes sz * (channels * sz) = channels * 16 := by
  rw [Nat.mul_left_comm, hsz.numLanes_mul]

/-- Vectors stored one after another, as one range of bytes. -/
theorem storeVectors_eq (n : ℕ) (v : ℕ → U8x16) (ptr : ℕ) (m : Mem) :
    storeVectors n v ptr m = overwrite m ptr (n * 16) fun t => v (t / 16) (Fin.ofNat 16 t) := by
  refine forRange_invariant (fun c m' => m' = overwrite m ptr (c * 16) fun t =>
    v (t / 16) (Fin.ofNat 16 t)) ?_ ?_
  · rw [Nat.zero_mul, overwrite_zero]
  · rintro c _ _ rfl
    rw [vst1qU8_eq, overwrite_append, Nat.succ_mul]
    refine overwrite_congr fun t ht => ?_
    split
    · rfl
    · rename_i hge
      obtain ⟨k, rfl⟩ := Nat.exists_eq_add_of_le (not_lt.mp hge)
      have hk : k < 16 := by omega
      have hlane : Fin.ofNat 16 (c * 16 + k) = Fin.ofNat 16 k :=
        Fin.ext (Nat.mul_add_mod' c 16 k)
      rw [Nat.add_sub_cancel_left, hlane, Nat.mul_comm, Nat.mul_add_div (by omega),
        Nat.div_eq_of_lt hk, Nat.add_zero]

/-- A merged block, as one range of bytes. -/
theorem mergeVectorPath_eq (interleaving : Bool) (hn : ChannelCount channels) (hsz : ScalarSize sz)
    (src : ℕ → U8x16) (dst : ℕ) (m : Mem) :
    mergeVectorPath interleaving channels sz src dst m =
      overwrite m dst (channels * 16) fun t =>
        src (mergedFrom channels sz t).1 (mergedFrom channels sz t).2 := by
  cases interleaving with
  | true => rfl
  | false =>
    show storeVectors channels (mergeVectors channels sz U8 0 src) dst m = _
    rw [storeVectors_eq]
    refine overwrite_congr fun t ht => ?_
    have hvector : t / 16 < channels := Nat.div_lt_of_lt_mul (by omega)
    have hbyte : 16 * (t / 16) + (Fin.ofNat 16 t).val = t := Nat.div_add_mod t 16
    have hlabel := mergeVectors_label hn hsz (t / 16) hvector (Fin.ofNat 16 t)
    rw [hbyte] at hlabel
    exact (mergeVectors_natural channels sz).eq_of_label hlabel U8 0 src

/-- The vectors of a block that is split. -/
theorem splitBlock_eq (hn : ChannelCount channels) (hsz : ScalarSize sz) (m : Mem) (src : ℕ) {c : ℕ}
    (hc : c < channels) (k : Fin 16) :
    splitBlock channels sz m src c k = m (src + splitFrom channels sz c k) := by
  have hlabel := splitVectors_label hn hsz c hc k
  rw [splitBlock, (splitVectors_natural channels sz).eq_of_label hlabel U8 0, vld1qU8,
    Fin.val_ofNat, Nat.add_assoc, Nat.mul_comm, Nat.div_add_mod]

/-- Byte `t` of merged pixels: its pixel, its plane and its byte there. -/
theorem merged_divMod (channels sz t : ℕ) :
    t / (channels * sz) = t / sz / channels ∧ t % (channels * sz) / sz = t / sz % channels ∧
      t % (channels * sz) % sz = t % sz := by
  refine ⟨?_, ?_, ?_⟩
  · rw [Nat.mul_comm, Nat.div_div_eq_div_mul]
  · rw [Nat.mod_mul_left_div_self]
  · rw [Nat.mod_mod_of_dvd t (Dvd.intro_left channels rfl)]

theorem merge_vectorPath (interleaving : Bool) (hn : ChannelCount channels) (hsz : ScalarSize sz)
    (src dst : ℕ → ℕ) (m : Mem)
    (hapart : PixelsApart False (planesFormat channels sz) (packedFormat channels sz)
      (pixelsFrom (planesFormat channels sz).pixel src)
      (pixelsFrom (packedFormat channels sz).pixel dst) (numLanes sz)) :
    Copies (mergeMap sz) (packedFormat channels sz) (pixelsFrom (planesFormat channels sz).pixel src)
      (pixelsFrom (packedFormat channels sz).pixel dst) 0 (numLanes sz) m
      ((merge interleaving channels sz).vectorPath src dst m) := by
  have hchannels : 0 < channels := by obtain rfl | rfl | rfl := hn <;> decide
  have hpixel : 0 < channels * sz := Nat.mul_pos hchannels hsz.pos
  have hbytes : numLanes sz * (channels * sz) = channels * 16 := numLanes_bytes hsz
  show Copies _ _ _ _ _ _ _ (mergeVectorPath _ _ _ _ _ _)
  rw [mergeVectorPath_eq interleaving hn hsz, ← hbytes]
  refine copies_of_range hpixel hapart m fun t ht => ?_
  obtain ⟨h1, h2, h3⟩ := merged_divMod channels sz t
  have hlane : t / sz / channels * sz + t % sz < 16 := by
    have hlt : t / sz / channels < numLanes sz := by
      rw [← h1]
      exact Nat.div_lt_of_lt_mul (by rwa [Nat.mul_comm])
    have hle := Nat.mul_le_mul_right sz (Nat.succ_le_of_lt hlt)
    rw [Nat.succ_mul, hsz.numLanes_mul] at hle
    have hmod := Nat.mod_lt t hsz.pos
    omega
  simp only [mergedFrom, vld1qU8, Fin.val_ofNat, Nat.mod_eq_of_lt hlane, PixelMap.value, mergeMap,
    pixelsFrom, planesFormat, h1, h2, h3, Nat.add_assoc]

/-- A vector of a plane that no store has reached yet. -/
theorem vld1qU8_kept {src dst : ℕ → ℕ} {n c : ℕ} {m m' : Mem} (hsz : ScalarSize sz)
    (hapart : PixelsApart False (planesFormat channels sz) (packedFormat channels sz)
      (pixelsFrom (planesFormat channels sz).pixel src)
      (pixelsFrom (packedFormat channels sz).pixel dst) n)
    {f : PixelMap U8} {a b : ℕ} (hb : b ≤ n)
    (h : Copies f (packedFormat channels sz) (pixelsFrom (planesFormat channels sz).pixel src)
      (pixelsFrom (packedFormat channels sz).pixel dst) a b m m')
    (hc : c < channels) {ptr : ℕ} (hptr : ptr * sz + 16 ≤ n * sz) :
    vld1qU8 m' (src c + ptr * sz) = vld1qU8 m (src c + ptr * sz) := by
  funext k
  have hlt : ptr * sz + k.val < n * sz := by omega
  have hbyte : byteAt (pixelsFrom (planesFormat channels sz).pixel src)
      (c, (ptr * sz + k) / sz, (ptr * sz + k) % sz) = src c + ptr * sz + k := by
    simp only [byteAt, pixelsFrom, planesFormat, Nat.add_assoc, Nat.div_add_mod']
  rw [vld1qU8, vld1qU8, ← hbyte]
  refine h.read fun t ht heq => ?_
  refine (hapart.apart _ ⟨hc, ⟨Nat.zero_le _, ?_⟩, Nat.mod_lt _ hsz.pos⟩ t
    (part_mono (Nat.zero_le a) hb ht) heq.symm).1
  exact Nat.div_lt_of_lt_mul (by rwa [Nat.mul_comm sz n])

theorem merge_scalarPath (interleaving : Bool) (hsz : ScalarSize sz) (src dst : ℕ → ℕ) (m : Mem)
    (hapart : PixelsApart False (planesFormat channels sz) (packedFormat channels sz)
      (pixelsFrom (planesFormat channels sz).pixel src)
      (pixelsFrom (packedFormat channels sz).pixel dst) 1) :
    Copies (mergeMap sz) (packedFormat channels sz) (pixelsFrom (planesFormat channels sz).pixel src)
      (pixelsFrom (packedFormat channels sz).pixel dst) 0 1 m
      ((merge interleaving channels sz).scalarPath src dst m) := by
  refine Copies.of_ranges (fun c j => (0, 0, c * sz + j)) hapart m ?_ ?_ ?_
  · intro c hc j hj
    have hle := Nat.mul_le_mul_right sz (Nat.succ_le_of_lt hc)
    rw [Nat.succ_mul] at hle
    refine ⟨⟨Nat.one_pos, ⟨le_rfl, Nat.one_pos⟩, (Nat.add_lt_add_left hj _).trans_le hle⟩, ?_⟩
    simp only [byteAt, pixelsFrom, Nat.zero_mul, Nat.add_zero, Nat.add_assoc]
  · intro c hc j hj m' hm'
    have hdiv : (c * sz + j) / sz = c := by
      rw [Nat.mul_comm, Nat.mul_add_div hsz.pos, Nat.div_eq_of_lt hj, Nat.add_zero]
    have hmod : (c * sz + j) % sz = j := by
      rw [Nat.mul_comm, Nat.mul_add_mod, Nat.mod_eq_of_lt hj]
    have hkept := hm' not_false (c, 0, j) ⟨hc, ⟨le_rfl, Nat.one_pos⟩, hj⟩
    simp only [byteAt, pixelsFrom, Nat.zero_mul, Nat.add_zero] at hkept
    simp only [PixelMap.value, mergeMap, hdiv, hmod, pixelsFrom, Nat.zero_mul, Nat.add_zero, hkept]
  · rintro ⟨p, x, i⟩ ⟨hp, ⟨-, hx⟩, hi⟩
    obtain rfl : p = 0 := Nat.lt_one_iff.mp hp
    obtain rfl : x = 0 := Nat.lt_one_iff.mp hx
    refine ⟨i / sz, Nat.div_lt_of_lt_mul (by rw [Nat.mul_comm]; exact hi), i % sz,
      Nat.mod_lt i hsz.pos, ?_⟩
    simp only [Nat.div_add_mod']

theorem merge_vectorPath2x (interleaving : Bool) (hn : ChannelCount channels) (hsz : ScalarSize sz)
    (src dst : ℕ → ℕ) (m : Mem)
    (hapart : PixelsApart False (planesFormat channels sz) (packedFormat channels sz)
      (pixelsFrom (planesFormat channels sz).pixel src)
      (pixelsFrom (packedFormat channels sz).pixel dst) (2 * numLanes sz)) :
    Copies (mergeMap sz) (packedFormat channels sz) (pixelsFrom (planesFormat channels sz).pixel src)
      (pixelsFrom (packedFormat channels sz).pixel dst) 0 (2 * numLanes sz) m
      ((merge interleaving channels sz).vectorPath2x src dst m) := by
  have htwice := copies_twice (mergeMap_between hsz.pos)
    (merge_vectorPath interleaving hn hsz) hapart m
  -- Both vectors of a plane are loaded before the first stores.
  have hloads : ∀ c < channels, vld1qU8 ((merge interleaving channels sz).vectorPath src dst m)
      (src c + numLanes sz * sz) = vld1qU8 m (src c + numLanes sz * sz) := by
    intro c hc
    have hlanes := hsz.numLanes_mul
    exact vld1qU8_kept hsz hapart (by omega)
      (merge_vectorPath interleaving hn hsz src dst m (hapart.mono (by omega))) hc
      (by rw [Nat.mul_assoc]; omega)
  refine Eq.subst ?_ htwice
  show mergeVectorPath _ _ _ _ _ _ = mergeVectorPath _ _ _ _ _ _
  rw [mergeVectorPath_eq interleaving hn hsz, mergeVectorPath_eq interleaving hn hsz]
  refine overwrite_congr fun t _ => ?_
  have hplane : (mergedFrom channels sz t).1 < channels :=
    Nat.mod_lt _ (by obtain rfl | rfl | rfl := hn <;> decide)
  have hload := hloads _ hplane
  rw [hsz.numLanes_mul] at hload
  show vld1qU8 _ (src _ + numLanes sz * sz) _ = vld1qU8 _ _ _
  rw [hsz.numLanes_mul]
  exact congrFun hload _

theorem merge_performs (interleaving : Bool) (hn : ChannelCount channels) (hsz : ScalarSize sz) :
    (merge interleaving channels sz).Performs False (mergeMap sz) (planesFormat channels sz)
      (packedFormat channels sz) where
  between := mergeMap_between hsz.pos
  lanes_pos := hsz.numLanes_pos
  vectorPath2x := merge_vectorPath2x interleaving hn hsz
  vectorPath := merge_vectorPath interleaving hn hsz
  scalarPath := merge_scalarPath interleaving hsz

/-- Ranges of planes, of `n` elements each. -/
theorem split_ranges (hsz : ScalarSize sz) {n length : ℕ} (hlength : n * sz = length)
    {g : ℕ → Mem → ℕ → U8} {src dst : ℕ → ℕ} (m : Mem)
    (hapart : PixelsApart False (packedFormat channels sz) (planesFormat channels sz)
      (pixelsFrom (packedFormat channels sz).pixel src)
      (pixelsFrom (planesFormat channels sz).pixel dst) n)
    (hg : ∀ c < channels, ∀ j < length, ∀ m' : Mem,
      (∀ s ∈ (packedFormat channels sz).part 0 n,
        m' (byteAt (pixelsFrom (packedFormat channels sz).pixel src) s) =
          m (byteAt (pixelsFrom (packedFormat channels sz).pixel src) s)) →
      g c m' j = m (src 0 + splitFrom channels sz c j)) :
    Copies (splitMap sz) (planesFormat channels sz) (pixelsFrom (packedFormat channels sz).pixel src)
      (pixelsFrom (planesFormat channels sz).pixel dst) 0 n m
      (forRange channels (fun c m' => overwrite m' (dst c) length (g c m')) m) := by
  subst hlength
  refine Copies.of_ranges (fun c j => (c, j / sz, j % sz)) hapart m ?_ ?_ ?_
  · intro c hc j hj
    refine ⟨⟨hc, ⟨Nat.zero_le _, Nat.div_lt_of_lt_mul (by rwa [Nat.mul_comm])⟩,
      Nat.mod_lt j hsz.pos⟩, ?_⟩
    simp only [byteAt, pixelsFrom, planesFormat, Nat.add_assoc, Nat.div_add_mod']
  · intro c hc j hj m' hm'
    rw [hg c hc j hj m' (hm' not_false)]
    simp only [PixelMap.value, splitMap, pixelsFrom, packedFormat, splitFrom, Nat.add_mul,
      Nat.mul_assoc, Nat.add_assoc]
  · rintro ⟨p, x, i⟩ ⟨hp, ⟨-, hx⟩, hi⟩
    simp only [planesFormat] at hp hi hx
    refine ⟨p, hp, x * sz + i, ?_, ?_⟩
    · have hle := Nat.mul_le_mul_right sz (Nat.succ_le_of_lt hx)
      rw [Nat.succ_mul] at hle
      exact (Nat.add_lt_add_left hi _).trans_le hle
    · rw [Nat.mul_comm x, Nat.mul_add_div hsz.pos, Nat.div_eq_of_lt hi, Nat.mul_add_mod,
        Nat.mod_eq_of_lt hi, Nat.add_zero]

/-- The vectors that follow those of a block. -/
theorem splitFrom_add (hsz : ScalarSize sz) (c j : ℕ) :
    splitFrom channels sz c (16 + j) = channels * 16 + splitFrom channels sz c j := by
  have hlanes := hsz.numLanes_mul
  have hdiv : (16 + j) / sz = numLanes sz + j / sz := by
    rw [← hlanes, Nat.mul_comm, Nat.mul_add_div hsz.pos]
  have hmod : (16 + j) % sz = j % sz := by rw [← hlanes, Nat.mul_comm, Nat.mul_add_mod]
  rw [splitFrom, splitFrom, hdiv, hmod, ← hlanes]
  ring

/-- The vectors of a block, one for each plane. -/
theorem split_vectorPath (interleaving : Bool) (hn : ChannelCount channels) (hsz : ScalarSize sz)
    (src dst : ℕ → ℕ) (m : Mem)
    (hapart : PixelsApart False (packedFormat channels sz) (planesFormat channels sz)
      (pixelsFrom (packedFormat channels sz).pixel src)
      (pixelsFrom (planesFormat channels sz).pixel dst) (numLanes sz)) :
    Copies (splitMap sz) (planesFormat channels sz) (pixelsFrom (packedFormat channels sz).pixel src)
      (pixelsFrom (planesFormat channels sz).pixel dst) 0 (numLanes sz) m
      ((split interleaving channels sz).vectorPath src dst m) := by
  have hvectors : ∀ v : ℕ → U8x16, (∀ c < channels, ∀ k : Fin 16,
      v c k = m (src 0 + splitFrom channels sz c k)) →
      Copies (splitMap sz) (planesFormat channels sz)
        (pixelsFrom (packedFormat channels sz).pixel src)
        (pixelsFrom (planesFormat channels sz).pixel dst) 0 (numLanes sz) m
        (forRange channels (fun c m => vst1qU8 m (dst c) (v c)) m) := by
    intro v hv
    simp only [vst1qU8_eq]
    refine split_ranges hsz hsz.numLanes_mul m hapart fun c hc j hj _ _ => ?_
    rw [hv c hc, Fin.val_ofNat, Nat.mod_eq_of_lt hj]
  cases interleaving with
  | true => exact hvectors (vldNq channels sz m (src 0)) fun _ _ _ => rfl
  | false =>
    exact hvectors (splitBlock channels sz m (src 0)) fun c hc k => splitBlock_eq hn hsz m _ hc k

theorem split_vectorPath2x (interleaving : Bool) (hn : ChannelCount channels) (hsz : ScalarSize sz)
    (src dst : ℕ → ℕ) (m : Mem)
    (hapart : PixelsApart False (packedFormat channels sz) (planesFormat channels sz)
      (pixelsFrom (packedFormat channels sz).pixel src)
      (pixelsFrom (planesFormat channels sz).pixel dst) (2 * numLanes sz)) :
    Copies (splitMap sz) (planesFormat channels sz) (pixelsFrom (packedFormat channels sz).pixel src)
      (pixelsFrom (planesFormat channels sz).pixel dst) 0 (2 * numLanes sz) m
      ((split interleaving channels sz).vectorPath2x src dst m) := by
  cases interleaving with
  | true => exact copies_twice splitMap_between (split_vectorPath true hn hsz) hapart m
  | false =>
    have hlength : 2 * numLanes sz * sz = 16 + 16 := by rw [Nat.mul_assoc, hsz.numLanes_mul]
    have hbytes : numLanes sz * (channels * sz) = channels * 16 := numLanes_bytes hsz
    show Copies _ _ _ _ _ _ _ (forRange channels (fun c m' => vst1qU8 (vst1qU8 m' (dst c)
      (splitBlock channels sz m (src 0) c)) (dst c + 16)
      (splitBlock channels sz m (src 0 + numLanes sz * (channels * sz)) c)) m)
    simp only [vst1qU8_eq, overwrite_append]
    refine split_ranges hsz hlength m hapart fun c hc j hj _ _ => ?_
    split
    · rename_i hlow
      rw [splitBlock_eq hn hsz m _ hc, Fin.val_ofNat, Nat.mod_eq_of_lt hlow]
    · rename_i hhigh
      obtain ⟨k, rfl⟩ := Nat.exists_eq_add_of_le (not_lt.mp hhigh)
      rw [splitBlock_eq hn hsz m _ hc, Fin.val_ofNat, Nat.add_sub_cancel_left,
        Nat.mod_eq_of_lt (show k < 16 by omega), splitFrom_add hsz, hbytes, Nat.add_assoc]

theorem split_scalarPath (interleaving : Bool) (hsz : ScalarSize sz) (src dst : ℕ → ℕ) (m : Mem)
    (hapart : PixelsApart False (packedFormat channels sz) (planesFormat channels sz)
      (pixelsFrom (packedFormat channels sz).pixel src)
      (pixelsFrom (planesFormat channels sz).pixel dst) 1) :
    Copies (splitMap sz) (planesFormat channels sz) (pixelsFrom (packedFormat channels sz).pixel src)
      (pixelsFrom (planesFormat channels sz).pixel dst) 0 1 m
      ((split interleaving channels sz).scalarPath src dst m) := by
  refine split_ranges hsz (Nat.one_mul sz) m hapart fun c hc j hj m' hm' => ?_
  have hle := Nat.mul_le_mul_right sz (Nat.succ_le_of_lt hc)
  rw [Nat.succ_mul] at hle
  have hkept := hm' (0, 0, c * sz + j)
    ⟨Nat.one_pos, ⟨le_rfl, Nat.one_pos⟩, (Nat.add_lt_add_left hj _).trans_le hle⟩
  simp only [byteAt, pixelsFrom, Nat.zero_mul, Nat.add_zero] at hkept
  rw [Nat.add_assoc, hkept, splitFrom, Nat.div_eq_of_lt hj, Nat.mod_eq_of_lt hj, Nat.zero_mul,
    Nat.zero_add]

theorem split_performs (interleaving : Bool) (hn : ChannelCount channels) (hsz : ScalarSize sz) :
    (split interleaving channels sz).Performs False (splitMap sz) (packedFormat channels sz)
      (planesFormat channels sz) where
  between := splitMap_between
  lanes_pos := hsz.numLanes_pos
  vectorPath2x := split_vectorPath2x interleaving hn hsz
  vectorPath := split_vectorPath interleaving hn hsz
  scalarPath := split_scalarPath interleaving hsz

end

end Interleave

/-! ### Calls -/

/-- `MAKE_POINTER_CHECK_ALIGNMENT` for the pointers of some images, then
`CHECK_POINTER_AND_STRIDE` for the images. -/
def checkPlanes (sz : ℕ) (images : List (ℕ × ℕ)) (height : ℕ) : KleidicvError :=
  if images.any fun image => sz ≠ 1 && isMisaligned sz image.1 then .alignment
  else ((images.map fun image => checkPointerAndStride sz image.1 image.2 height).find?
    fun error => error ≠ .ok).getD .ok

/-- `merge<ScalarType>`, for elements of `sz` bytes. -/
def mergeScalar (interleaving : Bool) (sz : ℕ) (srcs srcStrides : Option (ℕ → ℕ))
    (dst dstStride width height channels : ℕ) (m : Mem) : KleidicvError × Mem :=
  if channels < 2 then (.range, m)
  else match srcs, srcStrides with
    | some src, some srcStride =>
      let image := fun c => (src c, srcStride c)
      let error := checkPlanes sz [image 0, image 1, (dst, dstStride)] height
      if error ≠ .ok then (error, m)
      else if !checkImageSize width height then (.range, m)
      else if 4 < channels then (.notImplemented, m)
      else
        -- The third plane, and the fourth.
        let error := checkPlanes sz ((List.range' 2 (channels - 2)).map image) height
        if error ≠ .ok then (error, m)
        else (.ok, (Interleave.merge interleaving channels sz).applyOperationByRows
          ⟨channels, fun c => ⟨src c, srcStride c, sz⟩, 1, fun _ => ⟨dst, dstStride, channels * sz⟩⟩
          width height m)
    | _, _ => (.nullPointer, m)

/-- `split<ScalarType>`. -/
def splitScalar (interleaving : Bool) (sz src srcStride : ℕ) (dsts dstStrides : Option (ℕ → ℕ))
    (width height channels : ℕ) (m : Mem) : KleidicvError × Mem :=
  if channels < 2 then (.range, m)
  else match dsts, dstStrides with
    | some dst, some dstStride =>
      let image := fun c => (dst c, dstStride c)
      let error := checkPlanes sz [(src, srcStride), image 0, image 1] height
      if error ≠ .ok then (error, m)
      else if !checkImageSize width height then (.range, m)
      else if 4 < channels then (.notImplemented, m)
      else
        let error := checkPlanes sz ((List.range' 2 (channels - 2)).map image) height
        if error ≠ .ok then (error, m)
        else (.ok, (Interleave.split interleaving channels sz).applyOperationByRows
          ⟨1, fun _ => ⟨src, srcStride, channels * sz⟩, channels, fun c => ⟨dst c, dstStride c, sz⟩⟩
          width height m)
    | _, _ => (.nullPointer, m)

/-- `kleidicv_merge`. -/
def kleidicvMerge (interleaving : Bool) (srcs srcStrides : Option (ℕ → ℕ))
    (dst dstStride width height channels elementSize : ℕ) (m : Mem) : KleidicvError × Mem :=
  if elementSize ∈ [1, 2, 4, 8] then
    mergeScalar interleaving elementSize srcs srcStrides dst dstStride width height channels m
  else (.notImplemented, m)

/-- `kleidicv_split`. -/
def kleidicvSplit (interleaving : Bool) (src srcStride : ℕ) (dsts dstStrides : Option (ℕ → ℕ))
    (width height channels elementSize : ℕ) (m : Mem) : KleidicvError × Mem :=
  if elementSize ∈ [1, 2, 4, 8] then
    splitScalar interleaving elementSize src srcStride dsts dstStrides width height channels m
  else (.notImplemented, m)

/-- Planes, and the image that they make up. -/
structure PlanarCall where
  planes : ℕ → ℕ
  planeStrides : ℕ → ℕ
  packed : ℕ
  packedStride : ℕ
  width : ℕ
  height : ℕ
  channels : ℕ
  elementSize : ℕ

namespace PlanarCall

variable (c : PlanarCall)

def merge (interleaving : Bool) (m : Mem) : KleidicvError × Mem :=
  kleidicvMerge interleaving (some c.planes) (some c.planeStrides) c.packed c.packedStride c.width
    c.height c.channels c.elementSize m

def split (interleaving : Bool) (m : Mem) : KleidicvError × Mem :=
  kleidicvSplit interleaving c.packed c.packedStride (some c.planes) (some c.planeStrides) c.width
    c.height c.channels c.elementSize m

/-- The rows of a merge; those of a split are the same in each other's place. -/
def rows : PlaneRows :=
  ⟨c.channels, fun p => ⟨c.planes p, c.planeStrides p, c.elementSize⟩, 1,
    fun _ => ⟨c.packed, c.packedStride, c.channels * c.elementSize⟩⟩

/-- A pointer and a stride that the checks accept. -/
def AcceptedImage (image : ℕ × ℕ) : Prop :=
  c.elementSize ∣ image.1 ∧ image.1 ≠ 0 ∧ (1 < c.height → c.elementSize ∣ image.2)

/-- The arguments that pass the checks of either call. -/
structure Accepted : Prop where
  size : ScalarSize c.elementSize
  channels : Interleave.ChannelCount c.channels
  image : c.width * c.height ≤ kleidicvMaxImagePixels
  planes : ∀ p < c.channels, c.AcceptedImage (c.planes p, c.planeStrides p)
  packed : c.AcceptedImage (c.packed, c.packedStride)

/-- Byte `i` of element `p` of the pixel in row `y` and column `x`, in the image and in the plane. -/
def packedAt (y x p i : ℕ) : ℕ :=
  c.packed + y * c.packedStride + (x * c.channels + p) * c.elementSize + i

def planeAt (p y x i : ℕ) : ℕ := c.planes p + y * c.planeStrides p + x * c.elementSize + i

/-- The bytes of the image, and those of a plane. -/
def packedBytes : Set ℕ :=
  PixelRows.bytes ⟨c.packed, c.packedStride, c.channels * c.elementSize⟩ c.width c.height

def planeBytes (p : ℕ) : Set ℕ :=
  PixelRows.bytes ⟨c.planes p, c.planeStrides p, c.elementSize⟩ c.width c.height

/-- The image became the planes interleaved, and nothing else was written. -/
structure Interleaved (m m' : Mem) : Prop where
  element : ∀ y < c.height, ∀ x < c.width, ∀ p < c.channels, ∀ i < c.elementSize,
    m' (c.packedAt y x p i) = m (c.planeAt p y x i)
  frame : ∀ a ∉ c.packedBytes, m' a = m a

/-- The planes became the elements of the image, and nothing else was written. -/
structure Separated (m m' : Mem) : Prop where
  element : ∀ y < c.height, ∀ x < c.width, ∀ p < c.channels, ∀ i < c.elementSize,
    m' (c.planeAt p y x i) = m (c.packedAt y x p i)
  frame : ∀ a, (∀ p < c.channels, a ∉ c.planeBytes p) → m' a = m a

variable {c}

theorem misalignedPointer_iff {sz ptr : ℕ} :
    (sz ≠ 1 && isMisaligned sz ptr) = true ↔ ¬sz ∣ ptr := by
  rw [Bool.and_eq_true, decide_eq_true_eq, isMisaligned_iff]
  refine ⟨And.right, fun h => ⟨?_, h⟩⟩
  rintro rfl
  exact h (one_dvd ptr)

/-- The checks of some images. -/
theorem checkPlanes_iff {images : List (ℕ × ℕ)} :
    checkPlanes c.elementSize images c.height = .ok ↔ ∀ image ∈ images, c.AcceptedImage image := by
  rw [checkPlanes]
  split
  · rename_i hany
    obtain ⟨image, hmem, hmisaligned⟩ := List.any_eq_true.mp hany
    refine iff_of_false (by decide) fun hall => ?_
    exact misalignedPointer_iff.mp hmisaligned (hall image hmem).1
  · rename_i hany
    have haligned : ∀ image ∈ images, c.elementSize ∣ image.1 := fun image hmem =>
      not_not.mp fun hdvd => hany (List.any_eq_true.mpr ⟨image, hmem, misalignedPointer_iff.mpr hdvd⟩)
    have hcheck : ∀ image : ℕ × ℕ,
        checkPointerAndStride c.elementSize image.1 image.2 c.height = .ok ↔
          image.1 ≠ 0 ∧ (1 < c.height → c.elementSize ∣ image.2) := by
      intro image
      rcases checkPointerAndStride_cases c.elementSize image.1 image.2 c.height with
        ⟨h, hnull⟩ | ⟨h, hrows, hstride⟩ | ⟨h, hok⟩
      · rw [h]
        exact iff_of_false (by decide) fun hok => hok.1 hnull
      · rw [h]
        exact iff_of_false (by decide) fun hok => hstride (hok.2 hrows)
      · exact iff_of_true h hok
    cases hfind : (images.map fun image =>
        checkPointerAndStride c.elementSize image.1 image.2 c.height).find?
          fun error => error ≠ .ok with
    | none =>
      refine iff_of_true rfl fun image hmem => ⟨haligned image hmem, (hcheck image).mp ?_⟩
      simpa using List.find?_eq_none.mp hfind _ (List.mem_map.mpr ⟨image, hmem, rfl⟩)
    | some error =>
      obtain ⟨image, hmem, himage⟩ := List.mem_map.mp (List.mem_of_find?_eq_some hfind)
      have hne : error ≠ .ok := by simpa using List.find?_some hfind
      refine iff_of_false hne fun hall => hne ?_
      rw [← himage]
      exact (hcheck image).mpr (hall image hmem).2

/-- The planes that each of the two checks of a call is about. -/
theorem acceptedPlanes_iff (hchannels : 2 ≤ c.channels) :
    ((c.AcceptedImage (c.planes 0, c.planeStrides 0) ∧
        c.AcceptedImage (c.planes 1, c.planeStrides 1)) ∧
      ∀ image ∈ (List.range' 2 (c.channels - 2)).map fun p => (c.planes p, c.planeStrides p),
        c.AcceptedImage image) ↔
      ∀ p < c.channels, c.AcceptedImage (c.planes p, c.planeStrides p) := by
  rw [List.forall_mem_map]
  constructor
  · rintro ⟨⟨h0, h1⟩, hrest⟩ p hp
    match p with
    | 0 => exact h0
    | 1 => exact h1
    | p + 2 => exact hrest (p + 2) (List.mem_range'_1.mpr (by omega))
  · intro hall
    refine ⟨⟨hall 0 (by omega), hall 1 (by omega)⟩, fun p hp => hall p ?_⟩
    have hmem := List.mem_range'_1.mp hp
    omega

/-- A call that checks `images` before the size, and the remaining planes after it. -/
def checked (c : PlanarCall) (images : List (ℕ × ℕ)) (done m : Mem) : KleidicvError × Mem :=
  if c.elementSize ∈ [1, 2, 4, 8] then
    if c.channels < 2 then (.range, m)
    else
      let error := checkPlanes c.elementSize images c.height
      if error ≠ .ok then (error, m)
      else if !checkImageSize c.width c.height then (.range, m)
      else if 4 < c.channels then (.notImplemented, m)
      else
        let error := checkPlanes c.elementSize
          ((List.range' 2 (c.channels - 2)).map fun p => (c.planes p, c.planeStrides p)) c.height
        if error ≠ .ok then (error, m) else (.ok, done)
  else (.notImplemented, m)

/-- The checks pass exactly for accepted arguments. -/
theorem checked_cases (images : List (ℕ × ℕ)) {done m : Mem}
    (himages : (∀ image ∈ images, c.AcceptedImage image) ↔
      (c.AcceptedImage (c.planes 0, c.planeStrides 0) ∧
        c.AcceptedImage (c.planes 1, c.planeStrides 1)) ∧
      c.AcceptedImage (c.packed, c.packedStride)) :
    (c.Accepted ∧ c.checked images done m = (.ok, done)) ∨
      (¬c.Accepted ∧ (c.checked images done m).1 ≠ .ok ∧ (c.checked images done m).2 = m) := by
  have hsizes : c.elementSize ∈ [1, 2, 4, 8] ↔ ScalarSize c.elementSize := by
    simp only [List.mem_cons, List.not_mem_nil, or_false, ScalarSize]
  rw [checked]
  split
  · rename_i hsize
    split
    · rename_i hfew
      refine .inr ⟨fun h => ?_, nofun, rfl⟩
      have hcount : c.channels = 2 ∨ c.channels = 3 ∨ c.channels = 4 := h.channels
      omega
    rename_i hmany
    have hplanes := acceptedPlanes_iff (c := c) (not_lt.mp hmany)
    by_cases hfirst : checkPlanes c.elementSize images c.height = .ok
    · rw [if_neg (not_not.mpr hfirst)]
      rw [checkPlanes_iff, himages] at hfirst
      split
      · rename_i hlarge
        refine .inr ⟨fun h => ?_, nofun, rfl⟩
        rw [checkImageSize_iff.mpr h.image] at hlarge
        exact Bool.false_ne_true hlarge
      rename_i himage
      split
      · rename_i hmore
        refine .inr ⟨fun h => ?_, nofun, rfl⟩
        have hcount : c.channels = 2 ∨ c.channels = 3 ∨ c.channels = 4 := h.channels
        omega
      rename_i hfour
      dsimp only
      split
      · rename_i herror
        refine .inr ⟨fun h => herror (checkPlanes_iff.mpr ?_), herror, rfl⟩
        exact (hplanes.mpr h.planes).2
      · rename_i hok
        refine .inl ⟨⟨hsizes.mp hsize, ?_, ?_, ?_, hfirst.2⟩, rfl⟩
        · show c.channels = 2 ∨ c.channels = 3 ∨ c.channels = 4
          omega
        · exact checkImageSize_iff.mp (by simpa using himage)
        · exact hplanes.mp ⟨hfirst.1, checkPlanes_iff.mp (not_not.mp hok)⟩
    · rw [if_pos hfirst]
      refine .inr ⟨fun h => hfirst (checkPlanes_iff.mpr (himages.mpr ?_)), hfirst, rfl⟩
      exact ⟨(hplanes.mpr h.planes).1, h.packed⟩
  · rename_i hsize
    exact .inr ⟨fun h => hsize (hsizes.mpr h.size), nofun, rfl⟩

/-- What the checks decide: the code, and that nothing else is done without them. -/
theorem code_of_cases {result done : KleidicvError × Mem} {m : Mem} (hdone : done.1 = .ok)
    (h : (c.Accepted ∧ result = done) ∨ (¬c.Accepted ∧ result.1 ≠ .ok ∧ result.2 = m)) :
    (result.1 = .ok ↔ c.Accepted) ∧ (¬c.Accepted → result.2 = m) := by
  rcases h with ⟨haccepted, rfl⟩ | ⟨hnot, herror, hsame⟩
  · exact ⟨iff_of_true hdone haccepted, fun hnot => absurd haccepted hnot⟩
  · exact ⟨iff_of_false herror hnot, fun _ => hsame⟩

variable (interleaving : Bool) (m : Mem)

theorem merge_cases :
    (c.Accepted ∧ c.merge interleaving m =
      (.ok, (Interleave.merge interleaving c.channels c.elementSize).applyOperationByRows c.rows
        c.width c.height m)) ∨
      (¬c.Accepted ∧ (c.merge interleaving m).1 ≠ .ok ∧ (c.merge interleaving m).2 = m) := by
  refine checked_cases (c := c) [(c.planes 0, c.planeStrides 0),
    (c.planes 1, c.planeStrides 1), (c.packed, c.packedStride)] ?_
  simp only [List.forall_mem_cons, List.not_mem_nil, false_implies, implies_true, and_true,
    and_assoc]

theorem split_cases :
    (c.Accepted ∧ c.split interleaving m =
      (.ok, (Interleave.split interleaving c.channels c.elementSize).applyOperationByRows
        c.rows.swap c.width c.height m)) ∨
      (¬c.Accepted ∧ (c.split interleaving m).1 ≠ .ok ∧ (c.split interleaving m).2 = m) := by
  refine checked_cases (c := c) [(c.packed, c.packedStride),
    (c.planes 0, c.planeStrides 0), (c.planes 1, c.planeStrides 1)] ?_
  simp only [List.forall_mem_cons, List.not_mem_nil, false_implies, implies_true, and_true]
  exact and_comm

/-- Byte `i` of element `p` of a pixel. -/
theorem element_byte {sz p i : ℕ} (hi : i < sz) : (p * sz + i) / sz = p ∧ (p * sz + i) % sz = i := by
  rw [Nat.mul_comm, Nat.mul_add_div (by omega), Nat.mul_add_mod, Nat.div_eq_of_lt hi,
    Nat.mod_eq_of_lt hi]
  exact ⟨rfl, rfl⟩

theorem packedAt_eq (y x p i : ℕ) : c.packedAt y x p i =
    (c.rows.dst 0).byteAt (y, x, p * c.elementSize + i) := by
  simp only [packedAt, rows, PixelRows.byteAt, Nat.add_mul, Nat.mul_assoc, Nat.add_assoc]

theorem Interleaved.of_mapped {m m' : Mem}
    (h : c.rows.Mapped (Interleave.mergeMap c.elementSize) c.width c.height m m') :
    c.Interleaved m m' := by
  constructor
  · intro y hy x hx p hp i hi
    have hle := Nat.mul_le_mul_right c.elementSize (Nat.succ_le_of_lt hp)
    rw [Nat.succ_mul] at hle
    rw [packedAt_eq, h.pixel 0 Nat.one_pos y hy x hx _ ((Nat.add_lt_add_left hi _).trans_le hle)]
    simp only [PixelMap.value, Interleave.mergeMap, element_byte hi]
    rfl
  · exact fun a ha => h.frame a fun _ _ => ha

theorem Separated.of_mapped {m m' : Mem}
    (h : c.rows.swap.Mapped (Interleave.splitMap c.elementSize) c.width c.height m m') :
    c.Separated m m' := by
  constructor
  · intro y hy x hx p hp i hi
    rw [packedAt_eq]
    exact h.pixel p hp y hy x hx i hi
  · exact h.frame

theorem Accepted.size_lt (h : c.Accepted) : c.width * c.height < sizeMod :=
  h.image.trans_lt (by decide)

theorem Accepted.merge (h : c.Accepted) (hplaced : c.rows.Placed False c.width c.height) :
    (c.merge interleaving m).1 = .ok ∧ c.rows.Mapped (Interleave.mergeMap c.elementSize) c.width
      c.height m (c.merge interleaving m).2 := by
  rcases merge_cases (c := c) interleaving m with ⟨-, hok⟩ | ⟨hnot, -⟩
  · rw [hok]
    exact ⟨rfl, (Interleave.merge_performs interleaving h.channels h.size).mapped h.size_lt hplaced m⟩
  · exact absurd h hnot

theorem Accepted.split (h : c.Accepted) (hplaced : c.rows.swap.Placed False c.width c.height) :
    (c.split interleaving m).1 = .ok ∧ c.rows.swap.Mapped (Interleave.splitMap c.elementSize)
      c.width c.height m (c.split interleaving m).2 := by
  rcases split_cases (c := c) interleaving m with ⟨-, hok⟩ | ⟨hnot, -⟩
  · rw [hok]
    exact ⟨rfl, (Interleave.split_performs interleaving h.channels h.size).mapped h.size_lt hplaced m⟩
  · exact absurd h hnot

end PlanarCall

namespace Interleave

variable {sz : ℕ}

theorem mergeMap_andThen_splitMap (s : ℕ → ℕ → U8) (p : ℕ) {i : ℕ} (hi : i < sz) :
    ((mergeMap sz).andThen (splitMap sz)).value s p i = s p i := by
  simp only [PixelMap.value, PixelMap.andThen, splitMap, mergeMap, PlanarCall.element_byte hi]

theorem splitMap_andThen_mergeMap (s : ℕ → ℕ → U8) (i : ℕ) :
    ((splitMap sz).andThen (mergeMap sz)).value s 0 i = s 0 i := by
  simp only [PixelMap.value, PixelMap.andThen, splitMap, mergeMap, Nat.div_add_mod']

end Interleave

/-- **Merging and splitting**, in any build: a call succeeds exactly for the arguments that the
checks are meant to accept and otherwise writes nothing.  A merge interleaves the planes, a
split takes the image apart, and neither writes any other byte.  After a merge a split changes
nothing, nor does a merge after a split, and the two may come from different builds. -/
theorem merge_split_exact (c : PlanarCall) (interleaving interleaving' : Bool) (m : Mem) :
    (((c.merge interleaving m).1 = .ok ↔ c.Accepted) ∧
      ((c.split interleaving m).1 = .ok ↔ c.Accepted)) ∧
    (¬c.Accepted → (c.merge interleaving m).2 = m ∧ (c.split interleaving m).2 = m) ∧
    (c.Accepted → c.rows.Placed False c.width c.height →
      c.Interleaved m (c.merge interleaving m).2) ∧
    (c.Accepted → c.rows.swap.Placed False c.width c.height →
      c.Separated m (c.split interleaving m).2) ∧
    (c.Accepted → c.rows.Placed False c.width c.height → c.rows.swap.Placed False c.width c.height →
      c.split interleaving' (c.merge interleaving m).2 = (.ok, (c.merge interleaving m).2) ∧
      c.merge interleaving' (c.split interleaving m).2 = (.ok, (c.split interleaving m).2)) := by
  obtain ⟨hmergeCode, hmergeSame⟩ :=
    PlanarCall.code_of_cases rfl (PlanarCall.merge_cases (c := c) interleaving m)
  obtain ⟨hsplitCode, hsplitSame⟩ :=
    PlanarCall.code_of_cases rfl (PlanarCall.split_cases (c := c) interleaving m)
  refine ⟨⟨hmergeCode, hsplitCode⟩, fun hnot => ⟨hmergeSame hnot, hsplitSame hnot⟩,
    fun h hplaced => .of_mapped (h.merge interleaving m hplaced).2,
    fun h hplaced => .of_mapped (h.split interleaving m hplaced).2, ?_⟩
  intro h hmerge hsplit
  constructor
  · obtain ⟨hok, hmapped⟩ := h.split interleaving' (c.merge interleaving m).2 hsplit
    refine Prod.ext hok ?_
    exact (h.merge interleaving m hmerge).2.restored hmapped Interleave.splitMap_between hmerge
      fun p _ i hi s => Interleave.mergeMap_andThen_splitMap s p hi
  · obtain ⟨hok, hmapped⟩ := h.merge interleaving' (c.split interleaving m).2 hmerge
    refine Prod.ext hok ?_
    refine (h.split interleaving m hsplit).2.restored hmapped
      (Interleave.mergeMap_between h.size.pos) hsplit fun p hp i _ s => ?_
    obtain rfl : p = 0 := Nat.lt_one_iff.mp hp
    exact Interleave.splitMap_andThen_mergeMap s i

/-- Three planes of two rows of nineteen elements of two bytes, with gaps after the rows. -/
def threePlanes : PlanarCall :=
  ⟨fun p => 4096 * (p + 1), fun _ => 64, 65536, 256, 19, 2, 3, 2⟩

theorem merge_split_exact_threePlanes :
    let m : Mem := fun a => Fin.ofNat 256 a
    let merged := (threePlanes.merge false m).2
    let split := (threePlanes.split false m).2
    threePlanes.Interleaved m merged ∧ threePlanes.Separated m split ∧
      threePlanes.split true merged = (.ok, merged) ∧
      threePlanes.merge true split = (.ok, split) := by
  intro m merged split
  have hplane : ∀ p a, a ∈ threePlanes.planeBytes p →
      4096 * (p + 1) ≤ a ∧ a < 4096 * (p + 1) + 128 := by
    rintro p a ⟨y, hy, j, hj, rfl⟩
    have hrow : y < 2 := hy
    have hcolumn : j < 38 := hj
    show _ ≤ 4096 * (p + 1) + y * 64 + j ∧ 4096 * (p + 1) + y * 64 + j < _
    omega
  have hpacked : ∀ a ∈ threePlanes.packedBytes, 65536 ≤ a := by
    rintro a ⟨y, hy, j, hj, rfl⟩
    show _ ≤ 65536 + y * 256 + j
    omega
  have hapart : ∀ p < 3, Disjoint (threePlanes.planeBytes p) threePlanes.packedBytes := by
    intro p hp
    refine Set.disjoint_left.mpr fun a ha ha' => ?_
    have hlow := hplane p a ha
    have hhigh := hpacked a ha'
    omega
  have hmerge : threePlanes.rows.Placed False threePlanes.width threePlanes.height := by
    refine ⟨fun p _ => .inl (by decide : 19 * 6 ≤ 256), ?_, fun q hq p _ => .inl (hapart q hq)⟩
    intro p hp p' hp' hne
    have h1 : p < 1 := hp
    have h1' : p' < 1 := hp'
    omega
  have hsplit : threePlanes.rows.swap.Placed False threePlanes.width threePlanes.height := by
    refine ⟨fun p _ => .inl (by decide : 19 * 2 ≤ 64), ?_, fun q _ p hp => .inl (hapart p hp).symm⟩
    intro p hp p' hp' hne
    refine Set.disjoint_left.mpr fun a ha ha' => ?_
    have h1 := hplane p a ha
    have h1' := hplane p' a ha'
    omega
  have haccepted : threePlanes.Accepted := by
    refine ⟨.inr (.inl rfl), .inr (.inl rfl), by decide, fun p _ => ?_, ?_⟩
    · refine ⟨⟨2048 * (p + 1), ?_⟩, ?_, fun _ => (by decide : 2 ∣ 64)⟩
      · show 4096 * (p + 1) = 2 * (2048 * (p + 1))
        omega
      · show 4096 * (p + 1) ≠ 0
        omega
    · exact ⟨by decide, by decide, fun _ => by decide⟩
  obtain ⟨-, -, hinterleaved, hseparated, hback⟩ := merge_split_exact threePlanes false true m
  exact ⟨hinterleaved haccepted hmerge, hseparated haccepted hsplit,
    hback haccepted hmerge hsplit⟩

end KleidiCV
