/-
Tiles of pixels, transposed through the two-dimensional register of SME.

Rows of a tile are loaded into rows of the register, and its columns stored as rows.  Rows
may be loaded, and columns stored, in reverse order, which makes a rotation.  Pixels of three
scalars go through the register one scalar after the other, with three temporaries.

* `transformTile1ch_run`, `transformTile3ch_run` — what becomes of each memory;
* `transformTile_run` — the same for every pixel size.
-/
import KleidiCV.Lib.StoredRows
import KleidiCV.ScalableBlocks

open Loop

namespace KleidiCV

namespace Scalable

namespace Sme

/-- The memory of the images, and the arrays on the stack. -/
inductive Space
  | image
  | tmpR
  | tmpG
  | tmpB
  | tmp
  deriving DecidableEq

/-- Where a pointer points. -/
structure Pointer where
  space : Space
  offset : ℕ

/-- A pointer moved forward. -/
def Pointer.plus (ptr : Pointer) (n : ℕ) : Pointer := { ptr with offset := ptr.offset + n }

/-- The state of the processor: memory, and tile 0 of the register by row, column and byte. -/
structure Machine where
  memory : Space → Tallied U8
  za : ℕ → Vector

/-- A load of `n` interleaved vectors of `lanes` lanes. -/
def Machine.load (lanes sz n : ℕ) (pg : ℕ → Bool) (ptr : Pointer) (s : Machine) :
    (ℕ → Vector) × Machine :=
  let loaded := svld lanes sz n pg ptr.offset (s.memory ptr.space)
  (loaded.1, { s with memory := Function.update s.memory ptr.space loaded.2 })

/-- A store of `n` interleaved vectors. -/
def Machine.store (lanes sz n : ℕ) (pg : ℕ → Bool) (ptr : Pointer) (v : ℕ → Vector)
    (s : Machine) : Machine :=
  { s with
    memory := Function.update s.memory ptr.space
      (svst lanes sz n pg ptr.offset v (s.memory ptr.space)) }

/-- `kChannelCount`. -/
def channelCount (pixelSize : ℕ) : ℕ := if pixelSize = 3 ∨ pixelSize = 6 then 3 else 1

/-- `kElementSize`. -/
def elementSize (pixelSize : ℕ) : ℕ := pixelSize / channelCount pixelSize

/-- `load_za_row`; inactive elements become zero. -/
def loadZaRow (lanes sz slice : ℕ) (pg : ℕ → Bool) (ptr : Pointer) (s : Machine) : Machine :=
  let loaded := s.load lanes sz 1 pg ptr
  { loaded.2 with za := Function.update loaded.2.za slice (loaded.1 0) }

/-- `svwrite_hor_za8_m`, `svwrite_hor_za16_m`; inactive elements stay. -/
def writeHorZa (slice : ℕ) (pg : ℕ → Bool) (row : Vector) (s : Machine) : Machine :=
  { s with za := Function.update s.za slice fun l => if pg l then row l else s.za slice l }

/-- `read_za_col`. -/
def readZaCol (slice : ℕ) (pg : ℕ → Bool) (s : Machine) : Vector := fun l =>
  if pg l then s.za l slice else 0

/-- `store_za_col`. -/
def storeZaCol (lanes sz slice : ℕ) (pg : ℕ → Bool) (ptr : Pointer) (s : Machine) : Machine :=
  s.store lanes sz 1 pg ptr fun _ l => s.za l slice

/-- Place `i` of `n`, counted from the end if reversed. -/
def turned (reverse : Bool) (n i : ℕ) : ℕ := if reverse then n - 1 - i else i

/-- `transform_tile_1ch`. -/
def transformTile1ch (lanes sz : ℕ) (reverseLoadRows reverseStoreCols : Bool) (src : Pointer)
    (srcStride : ℕ) (pgsrc : ℕ → Bool) (width : ℕ) (dst : Pointer) (dstStride : ℕ)
    (pgdst : ℕ → Bool) (height : ℕ) (s : Machine) : Machine :=
  let s := forRange height (fun row s =>
    -- The pointer starts at the last row and moves up, or at the first and moves down.
    loadZaRow lanes sz row pgsrc (src.plus (turned reverseLoadRows height row * srcStride)) s) s
  forRange width (fun i s =>
    let srcCol := turned reverseStoreCols width i
    storeZaCol lanes sz srcCol pgdst (dst.plus (i * dstStride)) s) s

/-- The first loop of `transform_tile_3ch`: red goes to the register, green and blue to the
temporaries. -/
def loadRgbRows (lanes tmpStride sz : ℕ) (reverseLoadRows : Bool) (src : Pointer)
    (srcStride : ℕ) (pgsrc : ℕ → Bool) (height : ℕ) (s : Machine) : Machine :=
  forRange height (fun row s =>
    let loaded := s.load lanes sz 3 pgsrc
      (src.plus (turned reverseLoadRows height row * srcStride))
    let s := writeHorZa row pgsrc (loaded.1 0) loaded.2
    let s := s.store lanes sz 1 pgsrc ⟨.tmpG, row * tmpStride⟩ fun _ => loaded.1 1
    s.store lanes sz 1 pgsrc ⟨.tmpB, row * tmpStride⟩ fun _ => loaded.1 2) s

/-- The last loop of `transform_tile_3ch`. -/
def storeRgbRows (lanes tmpStride sz : ℕ) (reverseStoreCols : Bool) (width : ℕ) (dst : Pointer)
    (dstStride : ℕ) (pgdst : ℕ → Bool) (s : Machine) : Machine :=
  forRange width (fun i s =>
    let zaCol := turned reverseStoreCols width i
    let red := s.load lanes sz 1 pgdst ⟨.tmpR, i * tmpStride⟩
    let green := red.2.load lanes sz 1 pgdst ⟨.tmpG, i * tmpStride⟩
    let blue := readZaCol zaCol pgdst green.2
    green.2.store lanes sz 3 pgdst (dst.plus (i * dstStride)) fun c =>
      if c = 0 then red.1 0 else if c = 1 then green.1 0 else blue) s

/-- `transform_tile_3ch`; `tmpStride` is `svcntb()`. -/
def transformTile3ch (lanes tmpStride sz : ℕ) (reverseLoadRows reverseStoreCols : Bool)
    (src : Pointer) (srcStride : ℕ) (pgsrc : ℕ → Bool) (width : ℕ) (dst : Pointer)
    (dstStride : ℕ) (pgdst : ℕ → Bool) (height : ℕ) (s : Machine) : Machine :=
  let s := loadRgbRows lanes tmpStride sz reverseLoadRows src srcStride pgsrc height s
  let s := forRange width (fun i s =>
    let zaCol := turned reverseStoreCols width i
    storeZaCol lanes sz zaCol pgdst ⟨.tmpR, i * tmpStride⟩ s) s
  let s := transformTile1ch lanes sz false reverseStoreCols ⟨.tmpG, 0⟩ tmpStride pgsrc width
    ⟨.tmpG, 0⟩ tmpStride pgdst height s
  let s := forRange height (fun row s =>
    loadZaRow lanes sz row pgsrc ⟨.tmpB, row * tmpStride⟩ s) s
  storeRgbRows lanes tmpStride sz reverseStoreCols width dst dstStride pgdst s

/-- `transform_tile`. -/
def transformTile (svcntb pixelSize : ℕ) (reverseLoadRows reverseStoreCols : Bool)
    (src : Pointer) (srcStride : ℕ) (pgsrc : ℕ → Bool) (width : ℕ) (dst : Pointer)
    (dstStride : ℕ) (pgdst : ℕ → Bool) (height : ℕ) (s : Machine) : Machine :=
  let sz := elementSize pixelSize
  if channelCount pixelSize = 3 then
    transformTile3ch (svcntb / sz) svcntb sz reverseLoadRows reverseStoreCols src srcStride pgsrc
      width dst dstStride pgdst height s
  else
    transformTile1ch (svcntb / sz) sz reverseLoadRows reverseStoreCols src srcStride pgsrc width
      dst dstStride pgdst height s

/-- `copy_tile`. -/
def copyTile (svcntb pixelSize : ℕ) (src : Pointer) (srcStride : ℕ) (pgsrc : ℕ → Bool)
    (dst : Pointer) (dstStride height : ℕ) (s : Machine) : Machine :=
  let sz := elementSize pixelSize
  let n := channelCount pixelSize
  forRange height (fun row s =>
    let loaded := s.load (svcntb / sz) sz n pgsrc (src.plus (row * srcStride))
    loaded.2.store (svcntb / sz) sz n pgsrc (dst.plus (row * dstStride)) loaded.1) s

/-! ### One load, one store -/

section

variable {lanes sz n w h stride : ℕ} {pg pgsrc pgdst : ℕ → Bool} {s : Machine} {ptr : Pointer}

theorem turned_lt (reverse : Bool) {i : ℕ} (hi : i < n) : turned reverse n i < n := by
  unfold turned
  split <;> omega

theorem turned_turned (reverse : Bool) {i : ℕ} (hi : i < n) :
    turned reverse n (turned reverse n i) = i := by
  cases reverse with
  | false => rfl
  | true =>
    simp only [turned, if_true]
    omega

@[simp] theorem Pointer.plus_space (ptr : Pointer) (n : ℕ) : (ptr.plus n).space = ptr.space := rfl

@[simp] theorem Pointer.plus_offset (ptr : Pointer) (n : ℕ) :
    (ptr.plus n).offset = ptr.offset + n := rfl

theorem Machine.load_memory (s : Machine) (ptr : Pointer) (hpg : Leading lanes pg w)
    (hp : 0 < n * sz) :
    (s.load lanes sz n pg ptr).2.memory =
      Function.update s.memory ptr.space
        ((s.memory ptr.space).loadRange ptr.offset (w * (n * sz))) := by
  rw [← hpg.svld_touches hp]
  rfl

theorem Machine.store_memory (hpg : Leading lanes pg w) (hp : 0 < n * sz) (v : ℕ → Vector) :
    (s.store lanes sz n pg ptr v).memory =
      Function.update s.memory ptr.space
        ((s.memory ptr.space).storeRange ptr.offset (w * (n * sz))
          fun j => v (j / sz % n) (j / sz / n) (j % sz)) := by
  rw [← hpg.svst_eq hp]
  rfl

/-- The bytes of a row of `w` scalars, each of them `sz` bytes of one pixel. -/
theorem byte_div_mod {l k : ℕ} (hk : k < sz) : (l * sz + k) / sz = l ∧ (l * sz + k) % sz = k := by
  have hpos : 0 < sz := by omega
  rw [Nat.mul_comm, Nat.mul_add_div hpos, Nat.div_eq_of_lt hk, Nat.mul_add_mod,
    Nat.mod_eq_of_lt hk]
  exact ⟨Nat.add_zero l, rfl⟩

theorem scalarByte_lt {l k : ℕ} (hl : l < w) (hk : k < sz) : l * sz + k < w * sz := by
  have := Nat.mul_le_mul_right sz (Nat.succ_le_of_lt hl)
  rw [Nat.succ_mul] at this
  omega

/-! ### Loops of loads and of stores -/

/-- Rows loaded into the register. -/
theorem loadZaRows_run (ptr : Pointer) (stride h : ℕ) (hpg : Leading lanes pg w) (hsz : 0 < sz)
    (index : ℕ → ℕ) (s : Machine) :
    let s' := forRange h (fun row s =>
      loadZaRow lanes sz row pg (ptr.plus (index row * stride)) s) s
    s'.memory = Function.update s.memory ptr.space
        (loadRows ptr.offset stride index (w * sz) h (s.memory ptr.space)) ∧
      ∀ j < h, ∀ l < w, ∀ k, s'.za j l k =
        (s.memory ptr.space).mem (ptr.offset + index j * stride + (l * sz + k)) := by
  intro s'
  refine forRange_invariant (fun i (t : Machine) =>
    t.memory = Function.update s.memory ptr.space
        (loadRows ptr.offset stride index (w * sz) i (s.memory ptr.space)) ∧
      ∀ j < i, ∀ l < w, ∀ k, t.za j l k =
        (s.memory ptr.space).mem (ptr.offset + index j * stride + (l * sz + k))) ?_ ?_
  · refine ⟨?_, fun j hj => absurd hj (Nat.not_lt_zero j)⟩
    exact (Function.update_eq_self _ _).symm
  · rintro i - t ⟨hmem, hza⟩
    refine ⟨?_, fun j hj l hl k => ?_⟩
    · show (t.load lanes sz 1 pg (ptr.plus (index i * stride))).2.memory = _
      rw [Machine.load_memory t _ hpg (by omega), hmem, Pointer.plus_space, Function.update_self,
        Function.update_idem, Nat.one_mul]
      rfl
    · show Function.update t.za i ((t.load lanes sz 1 pg _).1 0) j l k = _
      rcases Nat.lt_succ_iff_lt_or_eq.mp hj with hlt | rfl
      · rw [Function.update_of_ne hlt.ne, hza j hlt l hl k]
      · rw [Function.update_self]
        show (svld lanes sz 1 pg _ (t.memory ptr.space)).1 0 l k = _
        rw [hpg.svld_lane hl, hmem, Function.update_self, loadRows_mem, Nat.one_mul, Nat.add_zero]
        rfl

/-- Columns of the register stored as rows. -/
theorem storeZaCols_run (ptr : Pointer) (stride w : ℕ) (hpg : Leading lanes pg h) (hsz : 0 < sz)
    (index : ℕ → ℕ) (s : Machine) :
    let s' := forRange w (fun i s =>
      storeZaCol lanes sz (index i) pg (ptr.plus (i * stride)) s) s
    s'.za = s.za ∧
      s'.memory = Function.update s.memory ptr.space
        (storeRows ptr.offset stride (h * sz) w (fun i jj => s.za (jj / sz) (index i) (jj % sz))
          (s.memory ptr.space)) := by
  intro s'
  refine forRange_invariant (fun i (t : Machine) =>
    t.za = s.za ∧
      t.memory = Function.update s.memory ptr.space
        (storeRows ptr.offset stride (h * sz) i (fun i jj => s.za (jj / sz) (index i) (jj % sz))
          (s.memory ptr.space))) ?_ ?_
  · exact ⟨rfl, (Function.update_eq_self _ _).symm⟩
  · rintro i - t ⟨hza, hmem⟩
    refine ⟨hza, ?_⟩
    rw [storeZaCol, Machine.store_memory hpg (by omega), hza, hmem, Pointer.plus_space,
      Function.update_self, Function.update_idem]
    simp only [Nat.one_mul, Nat.div_one]
    rfl

/-! ### Pixels of three scalars -/

variable {T : ℕ} {src dst : Pointer} {srcStride dstStride : ℕ}

/-- Red is in the register, green and blue are in their temporaries. -/
structure RgbLoaded (T sz : ℕ) (index : ℕ → ℕ) (src : Pointer) (srcStride w h : ℕ)
    (s s' : Machine) : Prop where
  red : ∀ j < h, ∀ l < w, ∀ k, s'.za j l k =
    (s.memory src.space).mem (src.offset + index j * srcStride + ((3 * l + 0) * sz + k))
  green : s'.memory .tmpG = storeRows 0 T (w * sz) h (fun j jj => (s.memory src.space).mem
    (src.offset + index j * srcStride + ((3 * (jj / sz) + 1) * sz + jj % sz))) (s.memory .tmpG)
  blue : s'.memory .tmpB = storeRows 0 T (w * sz) h (fun j jj => (s.memory src.space).mem
    (src.offset + index j * srcStride + ((3 * (jj / sz) + 2) * sz + jj % sz))) (s.memory .tmpB)
  source : s'.memory src.space =
    loadRows src.offset srcStride index (w * (3 * sz)) h (s.memory src.space)
  others : ∀ sp, sp ≠ .tmpG → sp ≠ .tmpB → sp ≠ src.space → s'.memory sp = s.memory sp

theorem loadRgbRows_run (T srcStride h : ℕ) (hpg : Leading lanes pg w) (hsz : 0 < sz)
    (reverse : Bool) (hG : src.space ≠ .tmpG) (hB : src.space ≠ .tmpB) (s : Machine) :
    RgbLoaded T sz (turned reverse h) src srcStride w h s
      (loadRgbRows lanes T sz reverse src srcStride pg h s) := by
  unfold loadRgbRows
  generalize turned reverse h = index
  refine forRange_invariant (fun i t => RgbLoaded T sz index src srcStride w i s t) ?_ ?_
  · exact ⟨fun j hj => absurd hj (Nat.not_lt_zero j), rfl, rfl, rfl, fun _ _ _ _ => rfl⟩
  · intro i hi t ht
    -- One row: a load and two stores, each to a memory of its own.
    have hlane : ∀ c l k, l < w →
        (t.load lanes sz 3 pg (src.plus (index i * srcStride))).1 c l k =
          (s.memory src.space).mem
            (src.offset + index i * srcStride + ((3 * l + c) * sz + k)) := by
      intro c l k hl
      show (svld lanes sz 3 pg _ (t.memory src.space)).1 c l k = _
      rw [hpg.svld_lane hl, ht.source, loadRows_mem]
      rfl
    have hload := Machine.load_memory t (src.plus (index i * srcStride)) hpg
      (show 0 < 3 * sz by omega)
    simp only [Pointer.plus_space, Pointer.plus_offset] at hload
    have hrow : ∀ c j, j < w * sz →
        (t.load lanes sz 3 pg (src.plus (index i * srcStride))).1 c (j / sz / 1) (j % sz) =
          (s.memory src.space).mem (src.offset + index i * srcStride +
            ((3 * (j / sz) + c) * sz + j % sz)) := by
      intro c j hj
      rw [Nat.div_one]
      exact hlane c _ _ (Nat.div_lt_of_lt_mul (by rwa [Nat.mul_comm]))
    simp only
    generalize hs1 : t.load lanes sz 3 pg (src.plus (index i * srcStride)) = s1 at hlane hload hrow
    have hmemory : ∀ sp, (((writeHorZa i pg (s1.1 0) s1.2).store lanes sz 1 pg ⟨.tmpG, i * T⟩
        fun _ => s1.1 1).store lanes sz 1 pg ⟨.tmpB, i * T⟩ fun _ => s1.1 2).memory sp =
        if sp = .tmpB then (t.memory .tmpB).storeRange (0 + i * T) (w * sz) (fun jj =>
          (s.memory src.space).mem (src.offset + index i * srcStride +
            ((3 * (jj / sz) + 2) * sz + jj % sz)))
        else if sp = .tmpG then (t.memory .tmpG).storeRange (0 + i * T) (w * sz) (fun jj =>
          (s.memory src.space).mem (src.offset + index i * srcStride +
            ((3 * (jj / sz) + 1) * sz + jj % sz)))
        else if sp = src.space then
          (t.memory src.space).loadRange (src.offset + index i * srcStride) (w * (3 * sz))
        else t.memory sp := by
      intro sp
      rw [Machine.store_memory hpg (by omega), Machine.store_memory hpg (by omega)]
      simp only [writeHorZa, hload, Nat.one_mul, Nat.zero_add]
      by_cases h1 : sp = .tmpB
      · subst h1
        rw [Function.update_self, if_pos rfl, Function.update_of_ne (by decide),
          Function.update_of_ne hB.symm]
        exact Tallied.storeRange_congr fun j hj => hrow 2 j hj
      · rw [Function.update_of_ne h1, if_neg h1]
        by_cases h2 : sp = .tmpG
        · subst h2
          rw [Function.update_self, if_pos rfl, Function.update_of_ne hG.symm]
          exact Tallied.storeRange_congr fun j hj => hrow 1 j hj
        · rw [Function.update_of_ne h2, if_neg h2]
          by_cases h3 : sp = src.space
          · subst h3
            rw [Function.update_self, if_pos rfl]
          · rw [Function.update_of_ne h3, if_neg h3]
    refine ⟨fun j hj l hl k => ?_, ?_, ?_, ?_, fun sp h1 h2 h3 => ?_⟩
    · show Function.update s1.2.za i (fun l => if pg l then s1.1 0 l else s1.2.za i l) j l k = _
      have hza : s1.2.za = t.za := by
        rw [← hs1]
        rfl
      rcases Nat.lt_succ_iff_lt_or_eq.mp hj with hlt | rfl
      · rw [Function.update_of_ne hlt.ne, hza, ht.red j hlt l hl k]
      · have hactive : pg l = true := by
          rw [hpg.active l (hl.trans_le hpg.le)]
          exact decide_eq_true hl
        simp only [Function.update_self, hactive, if_true]
        exact hlane 0 l k hl
    · rw [hmemory, if_neg (by decide), if_pos rfl, ht.green]
      rfl
    · rw [hmemory, if_pos rfl, ht.blue]
      rfl
    · rw [hmemory, if_neg hB, if_neg hG, if_pos rfl, ht.source]
      rfl
    · rw [hmemory, if_neg h2, if_neg h1, if_neg h3, ht.others sp h1 h2 h3]

/-- The three scalars of the pixels are stored, red and green from their temporaries. -/
structure RgbStored (T sz : ℕ) (index : ℕ → ℕ) (dst : Pointer) (dstStride w h : ℕ)
    (s s' : Machine) : Prop where
  dest : s'.memory dst.space = storeRows dst.offset dstStride (h * (3 * sz)) w (fun i jj =>
    if jj / sz % 3 = 0 then (s.memory .tmpR).mem (0 + i * T + (jj / sz / 3 * sz + jj % sz))
    else if jj / sz % 3 = 1 then (s.memory .tmpG).mem (0 + i * T + (jj / sz / 3 * sz + jj % sz))
    else s.za (jj / sz / 3) (index i) (jj % sz)) (s.memory dst.space)
  red : s'.memory .tmpR = loadRows 0 T id (h * sz) w (s.memory .tmpR)
  green : s'.memory .tmpG = loadRows 0 T id (h * sz) w (s.memory .tmpG)
  others : ∀ sp, sp ≠ .tmpR → sp ≠ .tmpG → sp ≠ dst.space → s'.memory sp = s.memory sp

theorem storeRgbRows_run (T dstStride w : ℕ) (hpg : Leading lanes pg h) (hsz : 0 < sz)
    (reverse : Bool) (hR : dst.space ≠ .tmpR) (hG : dst.space ≠ .tmpG) (s : Machine) :
    RgbStored T sz (turned reverse w) dst dstStride w h s
      (storeRgbRows lanes T sz reverse w dst dstStride pg s) := by
  unfold storeRgbRows
  generalize turned reverse w = index
  refine (forRange_invariant (fun i (t : Machine) =>
    t.za = s.za ∧ RgbStored T sz index dst dstStride i h s t) ?_ ?_).2
  · exact ⟨rfl, rfl, rfl, rfl, fun _ _ _ _ => rfl⟩
  · rintro i - t ⟨hza, ht⟩
    simp only
    -- One row: two loads and a store, each of a memory of its own.
    have hred : ∀ l k, l < h → (t.load lanes sz 1 pg ⟨.tmpR, i * T⟩).1 0 l k =
        (s.memory .tmpR).mem (0 + i * T + (l * sz + k)) := by
      intro l k hl
      show (svld lanes sz 1 pg _ (t.memory .tmpR)).1 0 l k = _
      rw [hpg.svld_lane hl, ht.red, loadRows_mem, Nat.one_mul, Nat.add_zero, Nat.zero_add]
    have hload1 := Machine.load_memory t ⟨.tmpR, i * T⟩ hpg
      (show 0 < 1 * sz by omega)
    have hza1 : (t.load lanes sz 1 pg ⟨.tmpR, i * T⟩).2.za = s.za := hza
    generalize t.load lanes sz 1 pg ⟨.tmpR, i * T⟩ = s1 at hred hload1 hza1 ⊢
    have hgreen : ∀ l k, l < h → (s1.2.load lanes sz 1 pg ⟨.tmpG, i * T⟩).1 0 l k =
        (s.memory .tmpG).mem (0 + i * T + (l * sz + k)) := by
      intro l k hl
      show (svld lanes sz 1 pg _ (s1.2.memory .tmpG)).1 0 l k = _
      rw [hpg.svld_lane hl, hload1,
        Function.update_of_ne (show Space.tmpG ≠ Space.tmpR by decide), ht.green, loadRows_mem,
        Nat.one_mul, Nat.add_zero, Nat.zero_add]
    have hload2 := Machine.load_memory s1.2 ⟨.tmpG, i * T⟩ hpg
      (show 0 < 1 * sz by omega)
    have hza2 : (s1.2.load lanes sz 1 pg ⟨.tmpG, i * T⟩).2.za = s.za := hza1
    generalize s1.2.load lanes sz 1 pg ⟨.tmpG, i * T⟩ = s2 at hgreen hload2 hza2 ⊢
    have hblue : ∀ l k, l < h → readZaCol (index i) pg s2.2 l k = s.za l (index i) k := by
      intro l k hl
      have hactive : pg l = true := by
        rw [hpg.active l (hl.trans_le hpg.le)]
        exact decide_eq_true hl
      simp only [readZaCol, hactive, if_true, hza2]
    generalize readZaCol (index i) pg s2.2 = blue at hblue
    refine ⟨hza2, ?_, ?_, ?_, fun sp h1 h2 h3 => ?_⟩
    · rw [Machine.store_memory hpg (by omega), Pointer.plus_space, Function.update_self, hload2,
        Function.update_of_ne hG, hload1, Function.update_of_ne hR, ht.dest,
        storeRows_succ]
      refine Tallied.storeRange_congr fun jj hjj => ?_
      have hl : jj / sz / 3 < h := lane_lt hjj
      by_cases h0 : jj / sz % 3 = 0
      · rw [if_pos h0, if_pos h0, hred _ _ hl]
      · rw [if_neg h0, if_neg h0]
        by_cases h1 : jj / sz % 3 = 1
        · rw [if_pos h1, if_pos h1, hgreen _ _ hl]
        · rw [if_neg h1, if_neg h1, hblue _ _ hl]
    · rw [Machine.store_memory hpg (by omega), Pointer.plus_space, Function.update_of_ne hR.symm,
        hload2, Function.update_of_ne (show Space.tmpR ≠ Space.tmpG by decide), hload1,
        Function.update_self, ht.red]
      simp only [Nat.one_mul]
      rw [← Nat.zero_add (i * T)]
      rfl
    · rw [Machine.store_memory hpg (by omega), Pointer.plus_space, Function.update_of_ne hG.symm,
        hload2, Function.update_self, hload1,
        Function.update_of_ne (show Space.tmpG ≠ Space.tmpR by decide), ht.green]
      simp only [Nat.one_mul]
      rw [← Nat.zero_add (i * T)]
      rfl
    · rw [Machine.store_memory hpg (by omega), Pointer.plus_space, Function.update_of_ne h3,
        hload2, Function.update_of_ne h2, hload1, Function.update_of_ne h1, ht.others sp h1 h2 h3]

/-! ### Tiles -/

/-- The temporaries of a tile of three scalars. -/
def Space.IsTemporary (sp : Space) : Prop := sp = .tmpR ∨ sp = .tmpG ∨ sp = .tmpB

/-- A tile of `w` columns and `h` rows was moved: the source was loaded, row `i` of the
destination was stored from column `i` of the source, and temporaries kept to their size. -/
structure TileMoved (capacity p : ℕ) (reverseLoadRows reverseStoreCols : Bool) (src : Pointer)
    (srcStride w : ℕ) (dst : Pointer) (dstStride h : ℕ) (s s' : Machine) : Prop where
  memory : ∀ sp, ¬sp.IsTemporary →
    s'.memory sp = Function.update (Function.update s.memory src.space
      (loadRows src.offset srcStride (turned reverseLoadRows h) (w * p) h (s.memory src.space)))
      dst.space (storeRows dst.offset dstStride (h * p) w (fun i jj =>
        (s.memory src.space).mem (src.offset + turned reverseLoadRows h (jj / p) * srcStride +
          (turned reverseStoreCols w i * p + jj % p)))
        (Function.update s.memory src.space
          (loadRows src.offset srcStride (turned reverseLoadRows h) (w * p) h
            (s.memory src.space)) dst.space)) sp
  temporary : ∀ sp, sp.IsTemporary → Confined capacity (s.memory sp) (s'.memory sp)

/-- Pixels of one scalar. -/
theorem transformTile1ch_run (src : Pointer) (srcStride : ℕ) (dst : Pointer) (dstStride : ℕ)
    (hsrc : Leading lanes pgsrc w) (hdst : Leading lanes pgdst h) (hsz : 0 < sz)
    (reverseLoadRows reverseStoreCols : Bool) (s : Machine) :
    let s' := transformTile1ch lanes sz reverseLoadRows reverseStoreCols src srcStride pgsrc w dst
      dstStride pgdst h s
    s'.memory = Function.update (Function.update s.memory src.space
      (loadRows src.offset srcStride (turned reverseLoadRows h) (w * sz) h (s.memory src.space)))
      dst.space (storeRows dst.offset dstStride (h * sz) w (fun i jj =>
        (s.memory src.space).mem (src.offset + turned reverseLoadRows h (jj / sz) * srcStride +
          (turned reverseStoreCols w i * sz + jj % sz)))
        (Function.update s.memory src.space
          (loadRows src.offset srcStride (turned reverseLoadRows h) (w * sz) h
            (s.memory src.space)) dst.space)) := by
  intro s'
  obtain ⟨hmem1, hza1⟩ := loadZaRows_run src srcStride h hsrc hsz (turned reverseLoadRows h) s
  obtain ⟨-, hmem2⟩ := storeZaCols_run dst dstStride w hdst hsz
    (turned reverseStoreCols w)
    (forRange h (fun row s => loadZaRow lanes sz row pgsrc
      (src.plus (turned reverseLoadRows h row * srcStride)) s) s)
  refine hmem2.trans ?_
  rw [hmem1]
  congr 1
  refine storeRows_congr (fun i hi jj hjj => ?_) _
  exact hza1 _ (Nat.div_lt_of_lt_mul (by rwa [Nat.mul_comm])) _ (turned_lt _ hi) _

/-- Pixels of three scalars. -/
theorem transformTile3ch_run (srcStride dstStride : ℕ) (hsrc : Leading lanes pgsrc w)
    (hdst : Leading lanes pgdst h) (hsz : 0 < sz) (hT : lanes * sz ≤ T) (hS : ¬src.space.IsTemporary)
    (hD : ¬dst.space.IsTemporary) (reverseLoadRows reverseStoreCols : Bool) (s : Machine) :
    TileMoved (lanes * T) (3 * sz) reverseLoadRows reverseStoreCols src srcStride w dst dstStride h
      s (transformTile3ch lanes T sz reverseLoadRows reverseStoreCols src srcStride pgsrc w dst
        dstStride pgdst h s) := by
  simp only [Space.IsTemporary, not_or] at hS hD
  obtain ⟨hSR, hSG, hSB⟩ := hS
  obtain ⟨hDR, hDG, hDB⟩ := hD
  have hwT : w * sz ≤ T := (Nat.mul_le_mul_right sz hsrc.le).trans hT
  have hhT : h * sz ≤ T := (Nat.mul_le_mul_right sz hdst.le).trans hT
  have hw : w * T ≤ lanes * T := Nat.mul_le_mul_right T hsrc.le
  have hh : h * T ≤ lanes * T := Nat.mul_le_mul_right T hdst.le
  unfold transformTile3ch
  -- Red in the register, green and blue in their temporaries.
  have h1 := loadRgbRows_run T srcStride h hsrc hsz reverseLoadRows hSG hSB s
  generalize loadRgbRows lanes T sz reverseLoadRows src srcStride pgsrc h s = s1 at h1
  -- Red goes to its temporary, transposed.
  obtain ⟨-, h2⟩ := storeZaCols_run ⟨.tmpR, 0⟩ T w hdst hsz (turned reverseStoreCols w) s1
  simp only [Pointer.plus, Nat.zero_add] at h2
  simp only
  generalize forRange w (fun i s => storeZaCol lanes sz (turned reverseStoreCols w i) pgdst
    ⟨.tmpR, i * T⟩ s) s1 = s2 at h2 ⊢
  -- Green is transposed in its temporary.
  have h3 := transformTile1ch_run ⟨.tmpG, 0⟩ T ⟨.tmpG, 0⟩ T hsrc hdst hsz false reverseStoreCols s2
  simp only [Function.update_self, Function.update_idem] at h3
  generalize transformTile1ch lanes sz false reverseStoreCols ⟨.tmpG, 0⟩ T pgsrc w ⟨.tmpG, 0⟩ T
    pgdst h s2 = s3 at h3 ⊢
  -- Blue is loaded into the register.
  obtain ⟨h4, hza⟩ := loadZaRows_run ⟨.tmpB, 0⟩ T h hsrc hsz id s3
  simp only [Pointer.plus, Nat.zero_add, id_eq] at h4 hza
  generalize forRange h (fun row s => loadZaRow lanes sz row pgsrc ⟨.tmpB, row * T⟩ s) s3 = s4
    at h4 hza ⊢
  have h5 := storeRgbRows_run T dstStride w hdst hsz reverseStoreCols hDR hDG s4
  generalize storeRgbRows lanes T sz reverseStoreCols w dst dstStride pgdst s4 = s5 at h5 ⊢
  -- What the memories of the temporaries are, one phase after the other.
  have hR2 : s2.memory .tmpR = storeRows 0 T (h * sz) w
      (fun i jj => s1.za (jj / sz) (turned reverseStoreCols w i) (jj % sz)) (s1.memory .tmpR) := by
    rw [h2, Function.update_self]
  have hR4 : s4.memory .tmpR = s2.memory .tmpR := by
    rw [h4, Function.update_of_ne (by decide), h3, Function.update_of_ne (by decide)]
  have hG2 : s2.memory .tmpG = s1.memory .tmpG := by
    rw [h2, Function.update_of_ne (by decide)]
  have hG4 : s4.memory .tmpG = s3.memory .tmpG := by
    rw [h4, Function.update_of_ne (by decide)]
  have hB3 : s3.memory .tmpB = s1.memory .tmpB := by
    rw [h3, Function.update_of_ne (by decide), h2, Function.update_of_ne (by decide)]
  have hkeep : ∀ sp, sp ≠ .tmpR → sp ≠ .tmpG → sp ≠ .tmpB → s4.memory sp = s1.memory sp := by
    intro sp hr hg hb
    rw [h4, Function.update_of_ne hb, h3, Function.update_of_ne hg, h2, Function.update_of_ne hr]
  -- What the three scalars of a pixel are when they are stored.
  have hred : ∀ i < w, ∀ l < h, ∀ k < sz, (s4.memory .tmpR).mem (0 + i * T + (l * sz + k)) =
      (s.memory src.space).mem (src.offset + turned reverseLoadRows h l * srcStride +
        ((3 * turned reverseStoreCols w i + 0) * sz + k)) := by
    intro i hi l hl k hk
    obtain ⟨hdiv, hmod⟩ := byte_div_mod (l := l) hk
    rw [hR4, hR2, storeRows_mem hhT _ _ hi (scalarByte_lt hl hk), hdiv, hmod,
      h1.red l hl _ (turned_lt _ hi)]
  have hgreen : ∀ i < w, ∀ l < h, ∀ k < sz, (s4.memory .tmpG).mem (0 + i * T + (l * sz + k)) =
      (s.memory src.space).mem (src.offset + turned reverseLoadRows h l * srcStride +
        ((3 * turned reverseStoreCols w i + 1) * sz + k)) := by
    intro i hi l hl k hk
    obtain ⟨hdiv, hmod⟩ := byte_div_mod (l := l) hk
    obtain ⟨hdiv', hmod'⟩ := byte_div_mod (l := turned reverseStoreCols w i) hk
    rw [hG4, h3, Function.update_self, storeRows_mem hhT _ _ hi (scalarByte_lt hl hk), hdiv, hmod,
      hG2, h1.green]
    show (storeRows 0 T (w * sz) h _ _).mem (0 + l * T + _) = _
    rw [storeRows_mem hwT _ _ hl (scalarByte_lt (turned_lt _ hi) hk), hdiv', hmod']
  have hblue : ∀ i < w, ∀ l < h, ∀ k < sz, s4.za l (turned reverseStoreCols w i) k =
      (s.memory src.space).mem (src.offset + turned reverseLoadRows h l * srcStride +
        ((3 * turned reverseStoreCols w i + 2) * sz + k)) := by
    intro i hi l hl k hk
    obtain ⟨hdiv', hmod'⟩ := byte_div_mod (l := turned reverseStoreCols w i) hk
    rw [hza l hl _ (turned_lt _ hi), hB3, h1.blue, ← Nat.zero_add (l * T),
      storeRows_mem hwT _ _ hl (scalarByte_lt (turned_lt _ hi) hk), hdiv', hmod']
  refine ⟨fun sp hsp => ?_, ?_⟩
  · simp only [Space.IsTemporary, not_or] at hsp
    obtain ⟨hr, hg, hb⟩ := hsp
    have hbefore : s4.memory sp = Function.update s.memory src.space
        (loadRows src.offset srcStride (turned reverseLoadRows h) (w * (3 * sz)) h
          (s.memory src.space)) sp := by
      rw [hkeep sp hr hg hb]
      by_cases hsp : sp = src.space
      · subst hsp
        rw [Function.update_self, h1.source]
      · rw [Function.update_of_ne hsp, h1.others sp hg hb hsp]
    by_cases hsp : sp = dst.space
    · subst hsp
      rw [Function.update_self, h5.dest, hbefore]
      refine storeRows_congr (fun i hi jj hjj => ?_) _
      have hl : jj / sz / 3 < h := lane_lt hjj
      have hk : jj % sz < sz := Nat.mod_lt _ hsz
      have hc : jj / sz % 3 < 3 := Nat.mod_lt _ (by decide)
      have hpixel : jj / (3 * sz) = jj / sz / 3 := by
        rw [Nat.mul_comm, Nat.div_div_eq_div_mul]
      rw [hpixel, ← scalar_byte]
      by_cases h0 : jj / sz % 3 = 0
      · rw [if_pos h0, hred i hi _ hl _ hk, h0]
      · rw [if_neg h0]
        by_cases hone : jj / sz % 3 = 1
        · rw [if_pos hone, hgreen i hi _ hl _ hk, hone]
        · rw [if_neg hone, hblue i hi _ hl _ hk, show jj / sz % 3 = 2 by omega]
    · rw [Function.update_of_ne hsp, h5.others sp hr hg hsp, hbefore]
  · have hid : ∀ i < w, id i < w := fun _ hi => hi
    rintro sp (rfl | rfl | rfl)
    · rw [h5.red, hR4, hR2, h1.others _ (by decide) (by decide) (Ne.symm hSR)]
      exact (storeRows_confined hhT hw _ _).trans (loadRows_confined hid hhT hw _)
    · have h01 : Confined (lanes * T) (s.memory .tmpG) (s1.memory .tmpG) := by
        rw [h1.green]
        exact storeRows_confined hwT hh _ _
      have h13 : Confined (lanes * T) (s1.memory .tmpG) (s3.memory .tmpG) := by
        rw [h3, Function.update_self, hG2]
        exact (loadRows_confined (fun _ hi => turned_lt _ hi) hwT hh _).trans
          (storeRows_confined hhT hw _ _)
      rw [h5.green, hG4]
      exact (h01.trans h13).trans (loadRows_confined hid hhT hw _)
    · rw [h5.others _ (by decide) (by decide) (Ne.symm hDB), h4, Function.update_self, hB3, h1.blue]
      exact (storeRows_confined hwT hh _ _).trans (loadRows_confined (fun _ hi => hi) hwT hh _)

/-- A tile is copied from another memory. -/
theorem copyTile_run {svcntb p : ℕ} (src : Pointer) (srcStride : ℕ) (dst : Pointer)
    (dstStride h : ℕ) (hpg : Leading (svcntb / elementSize p) pg w)
    (hn : 0 < channelCount p) (hsz : 0 < elementSize p) (hne : src.space ≠ dst.space) (s : Machine) :
    (copyTile svcntb p src srcStride pg dst dstStride h s).memory =
      Function.update (Function.update s.memory src.space
        (loadRows src.offset srcStride id (w * (channelCount p * elementSize p)) h
          (s.memory src.space))) dst.space
        (storeRows dst.offset dstStride (w * (channelCount p * elementSize p)) h
          (fun i jj => (s.memory src.space).mem (src.offset + i * srcStride + jj))
          (s.memory dst.space)) := by
  unfold copyTile
  simp only
  generalize elementSize p = sz at hpg hsz ⊢
  generalize channelCount p = n at hn ⊢
  generalize svcntb / sz = lanes at hpg ⊢
  have hp : 0 < n * sz := Nat.mul_pos hn hsz
  refine forRange_invariant (fun i (t : Machine) => t.memory =
    Function.update (Function.update s.memory src.space
      (loadRows src.offset srcStride id (w * (n * sz)) i (s.memory src.space))) dst.space
      (storeRows dst.offset dstStride (w * (n * sz)) i
        (fun i jj => (s.memory src.space).mem (src.offset + i * srcStride + jj))
        (s.memory dst.space))) ?_ ?_
  · show s.memory = Function.update (Function.update s.memory src.space (s.memory src.space))
      dst.space (s.memory dst.space)
    rw [Function.update_eq_self, Function.update_eq_self]
  · intro i _ t ht
    have hload := Machine.load_memory t (src.plus (i * srcStride)) hpg hp
    have hsource : t.memory src.space =
        loadRows src.offset srcStride id (w * (n * sz)) i (s.memory src.space) := by
      rw [ht, Function.update_of_ne hne, Function.update_self]
    have hdest : t.memory dst.space = storeRows dst.offset dstStride (w * (n * sz)) i
        (fun i jj => (s.memory src.space).mem (src.offset + i * srcStride + jj))
        (s.memory dst.space) := by
      rw [ht, Function.update_self]
    have hlane : ∀ c l k, l < w → (t.load lanes sz n pg (src.plus (i * srcStride))).1 c l k =
        (s.memory src.space).mem (src.offset + i * srcStride + ((n * l + c) * sz + k)) := by
      intro c l k hl
      show (svld lanes sz n pg _ (t.memory src.space)).1 c l k = _
      rw [hpg.svld_lane hl, hsource, loadRows_mem]
      rfl
    generalize t.load lanes sz n pg (src.plus (i * srcStride)) = s1 at hload hlane ⊢
    rw [Machine.store_memory hpg hp, hload]
    simp only [Pointer.plus_space, Pointer.plus_offset]
    rw [Function.update_of_ne hne.symm, hdest, hsource, storeRows_succ]
    funext sp
    by_cases hd : sp = dst.space
    · subst hd
      rw [Function.update_self, Function.update_self]
      refine Tallied.storeRange_congr fun j hj => ?_
      rw [hlane _ _ _ (lane_lt hj), scalar_byte, Nat.div_div_eq_div_mul, Nat.mul_comm sz,
        Nat.div_add_mod']
    · rw [Function.update_of_ne hd, Function.update_of_ne hd]
      by_cases hs : sp = src.space
      · subst hs
        rw [Function.update_self, Function.update_self]
        rfl
      · rw [Function.update_of_ne hs, Function.update_of_ne hs, ht, Function.update_of_ne hd,
          Function.update_of_ne hs]

/-- The supported pixel sizes, as scalars of a size of their own. -/
theorem pixelSize_cases {p : ℕ} (hp : p ∈ [1, 2, 3, 4, 6, 8]) :
    (channelCount p = 1 ∨ channelCount p = 3) ∧ 0 < elementSize p ∧
      p = channelCount p * elementSize p := by
  simp only [List.mem_cons, List.not_mem_nil, or_false] at hp
  rcases hp with rfl | rfl | rfl | rfl | rfl | rfl
  all_goals decide

/-- **A tile is moved**, whatever the pixel size. -/
theorem transformTile_run {svcntb p : ℕ} (src : Pointer) (srcStride : ℕ) (dst : Pointer)
    (dstStride : ℕ) (hp : p ∈ [1, 2, 3, 4, 6, 8])
    (hsrc : Leading (svcntb / elementSize p) pgsrc w)
    (hdst : Leading (svcntb / elementSize p) pgdst h) (hS : ¬src.space.IsTemporary)
    (hD : ¬dst.space.IsTemporary) (reverseLoadRows reverseStoreCols : Bool) (s : Machine) :
    TileMoved (svcntb / elementSize p * svcntb) p reverseLoadRows reverseStoreCols src srcStride w
      dst dstStride h s (transformTile svcntb p reverseLoadRows reverseStoreCols src srcStride pgsrc
        w dst dstStride pgdst h s) := by
  obtain ⟨hn, hsz, heq⟩ := pixelSize_cases hp
  unfold transformTile
  rcases hn with hn | hn
  · rw [hn, Nat.one_mul] at heq
    simp only [hn, show ¬(1 = 3) by decide, if_false]
    rw [← heq] at hsrc hdst hsz ⊢
    have hrun := transformTile1ch_run src srcStride dst dstStride hsrc hdst hsz reverseLoadRows
      reverseStoreCols s
    refine ⟨fun sp _ => congrFun hrun sp, fun sp hsp => ?_⟩
    -- No temporary is used.
    have hneD : sp ≠ dst.space := fun h => hD (h ▸ hsp)
    have hneS : sp ≠ src.space := fun h => hS (h ▸ hsp)
    rw [hrun, Function.update_of_ne hneD, Function.update_of_ne hneS]
    exact Confined.refl _ _
  · rw [hn] at heq
    simp only [hn, if_true]
    have hrun := transformTile3ch_run srcStride dstStride hsrc hdst hsz
      (Nat.div_mul_le_self svcntb (elementSize p)) hS hD reverseLoadRows reverseStoreCols s
    rwa [← heq] at hrun

end

end Sme

end Scalable

end KleidiCV
