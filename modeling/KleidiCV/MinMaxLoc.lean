/-
`kleidicv_min_max_loc_u8`: where the smallest and the largest pixel are.

The operation keeps, for each of the two, a vector of the best values of the
current block with 8-bit offsets into the block, the same of the best block so
far, and a separate record for the elements at the end of a row.  Minimum and
maximum differ only in the direction of their comparisons, so both are one
`LocTrack` over a direction.

* `Between`, `Inside` — what a track knows between blocks and inside a block;
* `Inside.vectorPath`, `Inside.onBlockFinished`, `Between.scalarPath` — each
  step of the operation;
* `Between.index_firstMin` — the index a track answers with;
* `min_max_loc_first` — the offsets of a whole image.
-/
import KleidiCV.Lib.FirstMin
import KleidiCV.Neon
import KleidiCV.Operations

open Loop

namespace KleidiCV

/-- The minimum and the maximum half of the operation. -/
inductive Extremum
  | minimum
  | maximum
  deriving DecidableEq, Repr

namespace Extremum

/-- One of the two slots, outputs or reports, by direction. -/
def pick {α : Type*} (e : Extremum) (min max : α) : α :=
  match e with
  | .minimum => min
  | .maximum => max

/-- `a < b` for the minimum, `a > b` for the maximum; `vcltq_u8`, `vcgtq_u8`. -/
def better : Extremum → U8 → U8 → Bool
  | minimum, a, b => decide (a < b)
  | maximum, a, b => decide (b < a)

/-- The value that no other is worse than. -/
def worst : Extremum → U8
  | minimum => 255
  | maximum => 0

/-- A lane of `vminq_u8`, `vmaxq_u8`. -/
def select (e : Extremum) (a b : U8) : U8 := if e.better b a then b else a

/-- `vminvq_u8`, `vmaxvq_u8`. -/
def across (e : Extremum) (v : U8x16) : U8 :=
  (List.finRange 16).foldl (fun acc i => e.select acc (v i)) e.worst

end Extremum

/-- The members of `MinMaxLoc` for one direction. -/
structure LocTrack where
  vNew : U8x16
  offsetsNew : U8x16
  v : U8x16
  offsets : U8x16
  blockIndex : ℕ
  scalarIndex : ℕ
  vector : U8
  scalar : U8

namespace LocTrack

/-- The constructor of `MinMaxLoc`. -/
def initial (e : Extremum) : LocTrack where
  vNew := vdupqNU8 e.worst
  offsetsNew := vdupqNU8 0
  v := vdupqNU8 e.worst
  offsets := vdupqNU8 0
  blockIndex := 0
  scalarIndex := 0
  vector := e.worst
  scalar := e.worst

def vectorPath (e : Extremum) (vrunningOffset src : U8x16) (t : LocTrack) : LocTrack :=
  { t with
    offsetsNew := fun i =>
      if e.better (src i) (t.vNew i) then vrunningOffset i else t.offsetsNew i
    vNew := fun i => e.select (t.vNew i) (src i) }

def scalarPath (e : Extremum) (runningIndex : ℕ) (src : U8) (t : LocTrack) : LocTrack :=
  if e.better src t.scalar then { t with scalar := src, scalarIndex := runningIndex } else t

def onBlockFinished (e : Extremum) (runningIndex : ℕ) (t : LocTrack) : LocTrack :=
  let vector := e.across t.vNew
  { t with
    vector := vector
    blockIndex :=
      if vmaxvqU32 (vreinterpretqU32U8 t.offsetsNew) ≠ 0 then runningIndex else t.blockIndex
    offsets := fun i => if t.offsetsNew i = 0 then t.offsets i else t.offsetsNew i
    v := fun i => if t.offsetsNew i = 0 then t.v i else t.vNew i
    vNew := vdupqNU8 vector
    offsetsNew := vdupqNU8 0 }

/-- `__builtin_ctzll(halfvector) / 8`, where each byte is `0xFF` or `0`. -/
def firstByte (halfvector : Fin 8 → Bool) : ℕ := (List.finRange 8).findIdx halfvector

/-- `lane_of_first_smallest`. -/
def laneOfFirstSmallest (vValues : U8x16) (smallest : U8) : ℕ :=
  let vFlags : Fin 16 → Bool := fun i => decide (vValues i ≤ smallest)
  let half (k : Fin 2) : Fin 8 → Bool := fun i => vFlags ⟨8 * k + i, by omega⟩
  let lane : ℕ := if (List.finRange 8).any (half 0) then 0 else 8
  lane + firstByte (if lane ≠ 0 then half 1 else half 0)

/-- `min_index`, `max_index`. -/
def index (e : Extremum) (t : LocTrack) : ℕ :=
  if e.better t.scalar t.vector then t.scalarIndex
  else
    let vSelectedOffsets : U8x16 := fun i =>
      if !e.better (t.vNew i) (t.v i) then t.offsets i else 255
    let earliestOffset := Extremum.minimum.across vSelectedOffsets
    if earliestOffset = 0 then t.scalarIndex
    else
      let lane := laneOfFirstSmallest vSelectedOffsets earliestOffset
      let vectorIndex := t.blockIndex + (earliestOffset.val - 1) * 16 + lane
      if e.better t.vector t.scalar || decide (vectorIndex < t.scalarIndex) then vectorIndex
      else t.scalarIndex

end LocTrack

/-- `MinMaxLoc`, with the source addresses read so far. -/
structure MinMaxLoc where
  min : LocTrack
  max : LocTrack
  vrunningOffset : U8x16
  runningIndex : ℕ
  reads : List ℕ

namespace MinMaxLoc

def initial : MinMaxLoc where
  min := .initial .minimum
  max := .initial .maximum
  vrunningOffset := vdupqNU8 1
  runningIndex := 0
  reads := []

def vectorPath (src : U8x16) (s : MinMaxLoc) : MinMaxLoc :=
  { s with
    min := s.min.vectorPath .minimum s.vrunningOffset src
    max := s.max.vectorPath .maximum s.vrunningOffset src
    vrunningOffset := fun i => s.vrunningOffset i + 1 }

def scalarPath (src : U8) (s : MinMaxLoc) : MinMaxLoc :=
  { s with
    min := s.min.scalarPath .minimum s.runningIndex src
    max := s.max.scalarPath .maximum s.runningIndex src
    runningIndex := s.runningIndex + 1 }

def onBlockFinished (vectorsInBlock : ℕ) (s : MinMaxLoc) : MinMaxLoc :=
  { s with
    min := s.min.onBlockFinished .minimum s.runningIndex
    max := s.max.onBlockFinished .maximum s.runningIndex
    runningIndex := s.runningIndex + vectorsInBlock * 16
    vrunningOffset := vdupqNU8 1 }

def maxVectorsPerBlock : ℕ := 255 - 1

/-- `n` bytes at `ptr` are read. -/
def read (ptr n : ℕ) (s : MinMaxLoc) : MinMaxLoc :=
  { s with reads := s.reads ++ (List.range n).map (ptr + ·) }

/-- `OperationAdapter` over `MinMaxLoc`, for the rows at `src`. -/
def adapter (m : Mem) (src srcStride : ℕ) : RowOperation MinMaxLoc where
  numLanes := 16
  isUnrolledTwice := true
  isUnrolledOnce := false
  tryToAvoidTailLoop := false
  maxVectorsPerBlock := maxVectorsPerBlock
  vectorPath2x := fun row column s =>
    let ptr := src + row * srcStride + column
    let src0 := vld1qU8 m ptr
    let src1 := vld1qU8 m (ptr + 16)
    vectorPath src1 (vectorPath src0 (s.read ptr 32))
  vectorPath := fun row column s =>
    let ptr := src + row * srcStride + column
    vectorPath (vld1qU8 m ptr) (s.read ptr 16)
  scalarPath := fun row column s =>
    let ptr := src + row * srcStride + column
    scalarPath (m ptr) (s.read ptr 1)
  onBlockFinished := onBlockFinished

end MinMaxLoc

/-- `Rows::offset_for_index`. -/
def offsetForIndex (stride index width : ℕ) : ℕ :=
  let row := index / width
  let column := index % width
  row * stride + column

/-- What a call of `min_max_loc` returns and reads, and the variables its output
pointers point to; a null pointer has none. -/
structure MinMaxLocResult where
  error : KleidicvError
  minOffset : Option ℕ
  maxOffset : Option ℕ
  reads : List ℕ
  deriving DecidableEq

/-- `min_max_loc`; `none` if the operation does not end. -/
def kleidicvMinMaxLocU8 (m : Mem) (src srcStride width height : ℕ)
    (minOffset maxOffset : Option ℕ) : Option MinMaxLocResult :=
  if src = 0 then some ⟨.nullPointer, minOffset, maxOffset, []⟩
  else if !checkImageSize width height then some ⟨.range, minOffset, maxOffset, []⟩
  else if width = 0 || height = 0 then some ⟨.range, minOffset, maxOffset, []⟩
  else
    (zipRows (srcStride == width) width height
      (fun row length s =>
        s.bind ((MinMaxLoc.adapter m src srcStride).processRowInBlocks row length))
      (some MinMaxLoc.initial)).map fun operation =>
      { error := .ok
        minOffset := minOffset.map fun _ =>
          offsetForIndex srcStride (operation.min.index .minimum) width
        maxOffset := maxOffset.map fun _ =>
          offsetForIndex srcStride (operation.max.index .maximum) width
        reads := operation.reads }

/-! ### Directions as orders -/

namespace Extremum

/-- The order of a direction, as numbers: smaller is better. -/
def key : Extremum → U8 → ℕ
  | minimum, x => x.val
  | maximum, x => 255 - x.val

theorem better_iff (e : Extremum) (a b : U8) : e.better a b = true ↔ e.key a < e.key b := by
  cases e with
  | minimum => simp [better, key]
  | maximum =>
    simp only [better, key, decide_eq_true_eq, Fin.lt_def]
    omega

theorem key_injective (e : Extremum) : Function.Injective e.key := by
  intro a b h
  cases e with
  | minimum => exact Fin.ext h
  | maximum =>
    simp only [key] at h
    exact Fin.ext (by omega)

theorem key_le (e : Extremum) (x : U8) : e.key x ≤ e.key e.worst := by
  cases e with
  | minimum => exact Nat.le_of_lt_succ x.isLt
  | maximum => exact Nat.sub_le 255 x.val

theorem eq_worst {e : Extremum} {x : U8} (h : e.key e.worst ≤ e.key x) : x = e.worst :=
  e.key_injective (le_antisymm (e.key_le x) h)

theorem key_select (e : Extremum) (a b : U8) : e.key (e.select a b) = min (e.key a) (e.key b) := by
  have h := e.better_iff b a
  unfold select
  split
  · rename_i hb
    rw [min_eq_right (h.mp hb).le]
  · rename_i hb
    rw [min_eq_left (not_lt.mp fun hlt => hb (h.mpr hlt))]

/-- The best of 16 lanes is one of them. -/
theorem across_spec (e : Extremum) (v : U8x16) :
    (∀ i, e.key (e.across v) ≤ e.key (v i)) ∧ ∃ i, e.across v = v i := by
  have key : ∀ (l : List (Fin 16)) (a : U8),
      (∀ i ∈ l, e.key (l.foldl (fun acc i => e.select acc (v i)) a) ≤ e.key (v i)) ∧
      e.key (l.foldl (fun acc i => e.select acc (v i)) a) ≤ e.key a ∧
      (l.foldl (fun acc i => e.select acc (v i)) a = a ∨
        ∃ i, l.foldl (fun acc i => e.select acc (v i)) a = v i) := by
    intro l
    induction l with
    | nil => exact fun a => ⟨by simp, le_rfl, .inl rfl⟩
    | cons j l ih =>
      intro a
      obtain ⟨h1, h2, h3⟩ := ih (e.select a (v j))
      have hsel := e.key_select a (v j)
      rw [List.foldl_cons]
      refine ⟨fun i hi => ?_, by omega, ?_⟩
      · rcases List.mem_cons.mp hi with rfl | hi
        · omega
        · exact h1 i hi
      · rcases h3 with h3 | h3
        · rw [h3, select]
          split
          · exact .inr ⟨j, rfl⟩
          · exact .inl rfl
        · exact .inr h3
  obtain ⟨h1, -, h3⟩ := key (List.finRange 16) e.worst
  refine ⟨fun i => h1 i (List.mem_finRange i), ?_⟩
  rcases h3 with h3 | h3
  · -- Only the worst value in every lane leaves the start value.
    refine ⟨0, h3.trans (eq_worst ?_).symm⟩
    have := h1 0 (List.mem_finRange 0)
    rwa [h3] at this
  · exact h3

end Extremum

/-! ### What a track knows -/

/-- The pixel index that a lane of the offset vectors stands for. -/
def LocTrack.position (blockIndex : ℕ) (offsets : U8x16) (i : Fin 16) : ℕ :=
  blockIndex + ((offsets i).val - 1) * 16 + i

/-- Between blocks, when the vectors have covered the pixel indices `V`. -/
structure VectorInv (e : Extremum) (val : ℕ → U8) (V : Set ℕ) (t : LocTrack) : Prop where
  same : ∀ i, t.vNew i = t.vector
  offsetsNew : ∀ i, t.offsetsNew i = 0
  /-- The stored lanes do not beat the best vector value. -/
  lanes : ∀ i, e.key t.vector ≤ e.key (t.v i)
  covered : ∀ k ∈ V, e.key t.vector ≤ e.key (val k)
  /-- Either nothing beat the worst value, or the lanes with the best value
  point at or behind its first place, and one of them at it. -/
  found : (t.vector = e.worst ∧ ∀ i, t.offsets i = 0) ∨
    ∃ p, FirstMin (fun k => e.key (val k)) V p ∧ val p = t.vector ∧
      e.key t.vector < e.key e.worst ∧
      (∀ i, t.v i = t.vector → 1 ≤ (t.offsets i).val ∧ (t.offsets i).val ≤ 254 ∧
        p ≤ LocTrack.position t.blockIndex t.offsets i) ∧
      ∃ i, t.v i = t.vector ∧ LocTrack.position t.blockIndex t.offsets i = p

/-- The record of single elements, when they have covered the indices `S`. -/
structure ScalarInv (e : Extremum) (val : ℕ → U8) (S : Set ℕ) (t : LocTrack) : Prop where
  covered : ∀ k ∈ S, e.key t.scalar ≤ e.key (val k)
  found : (t.scalar = e.worst ∧ t.scalarIndex = 0) ∨
    FirstMin (fun k => e.key (val k)) S t.scalarIndex ∧ val t.scalarIndex = t.scalar ∧
      e.key t.scalar < e.key e.worst

/-- What a track knows when the first `n` pixels are done, between blocks. -/
def Between (e : Extremum) (val : ℕ → U8) (n : ℕ) (t : LocTrack) : Prop :=
  ∃ V S, V ∪ S = {k | k < n} ∧ VectorInv e val V t ∧ ScalarInv e val S t

/-- One lane, `n` vectors after the start `b` of the block; `best` is the best
value of the vectors before the block. -/
def LaneInv (e : Extremum) (val : ℕ → U8) (b n : ℕ) (best : U8) (i : Fin 16) (vNew offset : U8) :
    Prop :=
  (offset.val = 0 ∧ vNew = best ∧ ∀ j < n, e.key best ≤ e.key (val (b + 16 * j + i))) ∨
  ∃ j < n, offset.val = j + 1 ∧ vNew = val (b + 16 * j + i) ∧ e.key vNew < e.key best ∧
    (∀ j' < n, e.key vNew ≤ e.key (val (b + 16 * j' + i))) ∧
    ∀ j' < j, e.key vNew < e.key (val (b + 16 * j' + i))

/-- What a track knows `n` vectors after the start `b` of a block: all it knew
there, and one fact for each lane. -/
def Inside (e : Extremum) (val : ℕ → U8) (b n : ℕ) (t : LocTrack) : Prop :=
  ∃ t0, Between e val b t0 ∧ t = { t0 with vNew := t.vNew, offsetsNew := t.offsetsNew } ∧
    ∀ i, LaneInv e val b n t0.vector i (t.vNew i) (t.offsetsNew i)

section

variable {e : Extremum} {val : ℕ → U8} {b n : ℕ} {t : LocTrack}

theorem Between.initial (e : Extremum) (val : ℕ → U8) : Between e val 0 (.initial e) := by
  refine ⟨∅, ∅, by ext; simp, ⟨fun _ => rfl, fun _ => rfl, fun _ => le_rfl, ?_, ?_⟩, ?_, ?_⟩
  · exact fun k hk => hk.elim
  · exact .inl ⟨rfl, fun _ => rfl⟩
  · exact fun k hk => hk.elim
  · exact .inl ⟨rfl, rfl⟩

/-- A block begins. -/
theorem Between.inside (h : Between e val b t) : Inside e val b 0 t := by
  refine ⟨t, h, rfl, fun i => ?_⟩
  obtain ⟨V, S, -, hV, -⟩ := h
  refine .inl ⟨?_, hV.same i, by simp⟩
  rw [hV.offsetsNew i]
  rfl

/-- One lane of `vector_path`. -/
theorem LaneInv.vectorPath {best vNew offset running : U8} {i : Fin 16}
    (h : LaneInv e val b n best i vNew offset) (hr : running.val = n + 1) :
    LaneInv e val b (n + 1) best i (e.select vNew (val (b + 16 * n + i)))
      (if e.better (val (b + 16 * n + i)) vNew then running else offset) := by
  have hlt : ∀ {j}, j < n + 1 → j < n ∨ j = n := fun hj => Nat.lt_succ_iff_lt_or_eq.mp hj
  unfold Extremum.select
  split
  · rename_i hb
    rw [e.better_iff] at hb
    -- The new value beats everything seen in this lane.
    have hbest : e.key vNew ≤ e.key best ∧
        ∀ j < n, e.key vNew ≤ e.key (val (b + 16 * j + i)) := by
      rcases h with ⟨-, rfl, hall⟩ | ⟨j, -, -, -, hlt', hall, -⟩
      · exact ⟨le_rfl, hall⟩
      · exact ⟨hlt'.le, hall⟩
    refine .inr ⟨n, Nat.lt_succ_self n, hr, rfl, hb.trans_le hbest.1, fun j hj => ?_,
      fun j hj => hb.trans_le (hbest.2 j hj)⟩
    rcases hlt hj with hj | rfl
    · exact hb.le.trans (hbest.2 j hj)
    · exact le_rfl
  · rename_i hb
    rw [e.better_iff, not_lt] at hb
    rcases h with ⟨h0, rfl, hall⟩ | ⟨j, hj, ho, hv, hlt', hall, hfirst⟩
    · refine .inl ⟨h0, rfl, fun j hj => ?_⟩
      rcases hlt hj with hj | rfl
      · exact hall j hj
      · exact hb
    · refine .inr ⟨j, hj.trans (Nat.lt_succ_self n), ho, hv, hlt', fun j' hj' => ?_, hfirst⟩
      rcases hlt hj' with hj' | rfl
      · exact hall j' hj'
      · exact hb

theorem Inside.vectorPath (h : Inside e val b n t) {running src : U8x16}
    (hr : ∀ i, (running i).val = n + 1) (hsrc : ∀ i : Fin 16, src i = val (b + 16 * n + i)) :
    Inside e val b (n + 1) (t.vectorPath e running src) := by
  obtain ⟨t0, h0, ht, hlanes⟩ := h
  refine ⟨t0, h0, ?_, fun i => ?_⟩
  · rw [ht]
    rfl
  · have := (hlanes i).vectorPath (hr i)
    simp only [LocTrack.vectorPath, hsrc i]
    exact this

theorem Between.scalarPath (h : Between e val n t) :
    Between e val (n + 1) (t.scalarPath e n (val n)) := by
  obtain ⟨V, S, hVS, hV, hS⟩ := h
  have hbelow : ∀ k ∈ S, k < n := fun k hk => (hVS ▸ Or.inr hk : k ∈ {k | k < n})
  have hunion : V ∪ (S ∪ {n}) = {k | k < n + 1} := by
    rw [← Set.union_assoc, hVS]
    ext k
    simp only [Set.mem_union, Set.mem_ofPred_eq, Set.mem_singleton_iff]
    omega
  unfold LocTrack.scalarPath
  split
  · rename_i hb
    rw [e.better_iff] at hb
    refine ⟨V, S ∪ {n}, hunion, ⟨hV.same, hV.offsetsNew, hV.lanes, hV.covered, hV.found⟩, ?_, ?_⟩
    · rintro k (hk | rfl)
      · exact hb.le.trans (hS.covered k hk)
      · exact le_rfl
    · refine .inr ⟨⟨.inr rfl, ?_, ?_⟩, rfl, hb.trans_le (e.key_le _)⟩
      · rintro k (hk | rfl)
        · exact hb.le.trans (hS.covered k hk)
        · exact le_rfl
      · rintro k (hk | rfl) heq
        · exact absurd heq (hb.trans_le (hS.covered k hk)).ne'
        · exact le_rfl
  · rename_i hb
    rw [e.better_iff, not_lt] at hb
    refine ⟨V, S ∪ {n}, hunion, hV, ?_, hS.found.imp_right ?_⟩
    · rintro k (hk | rfl)
      · exact hS.covered k hk
      · exact hb
    · rintro ⟨hfirst, hval, hlt⟩
      refine ⟨hfirst.union ?_, hval, hlt⟩
      rintro k rfl
      have hk := hbelow _ hfirst.mem
      rcases hb.lt_or_eq with hb | hb
      · exact .inl (by simpa only [hval] using hb)
      · exact .inr ⟨by simpa only [hval] using hb, hk.le⟩

/-- The pixel indices of a block of `n` vectors. -/
def blockSet (b n : ℕ) : Set ℕ := {k | b ≤ k ∧ k < b + 16 * n}

theorem exists_lane {k : ℕ} (hk : k ∈ blockSet b n) :
    ∃ j < n, ∃ i : Fin 16, k = b + 16 * j + i := by
  obtain ⟨h1, h2⟩ := hk
  refine ⟨(k - b) / 16, by omega, ⟨(k - b) % 16, by omega⟩, ?_⟩
  simp only
  omega

theorem lane_mem_blockSet {j : ℕ} (hj : j < n) (i : Fin 16) : b + 16 * j + i ∈ blockSet b n :=
  ⟨by omega, by omega⟩

/-- A lane is at least as good as everything it has seen. -/
theorem LaneInv.covered {best vNew offset : U8} {i : Fin 16}
    (h : LaneInv e val b n best i vNew offset) :
    e.key vNew ≤ e.key best ∧ ∀ j < n, e.key vNew ≤ e.key (val (b + 16 * j + i)) := by
  rcases h with ⟨-, rfl, hall⟩ | ⟨j, -, -, -, hlt, hall, -⟩
  · exact ⟨le_rfl, hall⟩
  · exact ⟨hlt.le, hall⟩

/-- A block that improved no lane. -/
theorem VectorInv.onBlockFinished_same {V : Set ℕ} {t0 : LocTrack} (hV : VectorInv e val V t0)
    (hbelow : ∀ k ∈ V, k < b) (ht : t = { t0 with vNew := t.vNew, offsetsNew := t.offsetsNew })
    (hlanes : ∀ i, LaneInv e val b n t0.vector i (t.vNew i) (t.offsetsNew i))
    (hnone : ∀ i, t.offsetsNew i = 0) :
    VectorInv e val (V ∪ blockSet b n) (t.onBlockFinished e b) := by
  have hlane : ∀ i, t.vNew i = t0.vector ∧
      ∀ j < n, e.key t0.vector ≤ e.key (val (b + 16 * j + i)) := by
    intro i
    rcases hlanes i with ⟨-, hv, hall⟩ | ⟨j, -, ho, -⟩
    · exact ⟨hv, hall⟩
    · rw [hnone i] at ho
      exact absurd ho (by simp)
  have hvector : (t.onBlockFinished e b).vector = t0.vector := by
    obtain ⟨-, i, hi⟩ := e.across_spec t.vNew
    exact hi.trans (hlane i).1
  have hblock : (t.onBlockFinished e b).blockIndex = t0.blockIndex := by
    simp only [LocTrack.onBlockFinished, (vmaxvqU32_eq_zero_iff _).mpr hnone, ne_eq,
      not_true_eq_false, if_false]
    rw [ht]
  have hoffsets : (t.onBlockFinished e b).offsets = t0.offsets := by
    funext i
    simp only [LocTrack.onBlockFinished, hnone, if_true]
    rw [ht]
  have hv : (t.onBlockFinished e b).v = t0.v := by
    funext i
    simp only [LocTrack.onBlockFinished, hnone, if_true]
    rw [ht]
  have hnew : ∀ k ∈ blockSet b n, e.key t0.vector ≤ e.key (val k) := by
    intro k hk
    obtain ⟨j, hj, i, rfl⟩ := exists_lane hk
    exact (hlane i).2 j hj
  refine ⟨fun _ => rfl, fun _ => rfl, ?_, ?_, ?_⟩
  · rw [hvector, hv]
    exact hV.lanes
  · rw [hvector]
    rintro k (hk | hk)
    · exact hV.covered k hk
    · exact hnew k hk
  · rw [hvector, hv, hoffsets, hblock]
    refine hV.found.imp_right ?_
    rintro ⟨p, hp, hval, hrest⟩
    refine ⟨p, hp.union fun k hk => ?_, hval, hrest⟩
    -- What the block adds is no better, and later.
    have hpb := hbelow p hp.mem
    simp only [hval]
    rcases (hnew k hk).lt_or_eq with hlt | heq
    · exact .inl hlt
    · exact .inr ⟨heq, by have := hk.1; omega⟩

/-- A block that improved some lane holds the best value of all vectors so
far. -/
theorem VectorInv.onBlockFinished_new {V : Set ℕ} {t0 : LocTrack} (hV : VectorInv e val V t0)
    (ht : t = { t0 with vNew := t.vNew, offsetsNew := t.offsetsNew })
    (hn : n ≤ 254) (hlanes : ∀ i, LaneInv e val b n t0.vector i (t.vNew i) (t.offsetsNew i))
    (hsome : ¬∀ i, t.offsetsNew i = 0) :
    VectorInv e val (V ∪ blockSet b n) (t.onBlockFinished e b) := by
  obtain ⟨hle, i1, hi1⟩ := e.across_spec t.vNew
  set best := e.across t.vNew with hbest
  have hblock : (t.onBlockFinished e b).blockIndex = b := by
    simp only [LocTrack.onBlockFinished]
    exact if_pos fun h => hsome ((vmaxvqU32_eq_zero_iff _).mp h)
  -- An improved lane has a strictly better value.
  have himproved : ∀ i, t.offsetsNew i ≠ 0 → e.key (t.vNew i) < e.key t0.vector := by
    intro i hi
    rcases hlanes i with ⟨h0, -⟩ | ⟨j, -, -, -, hlt, -⟩
    · exact absurd (Fin.ext h0) hi
    · exact hlt
  have hlt : e.key best < e.key t0.vector := by
    push Not at hsome
    obtain ⟨i, hi⟩ := hsome
    exact (hle i).trans_lt (himproved i hi)
  have hcovered : ∀ k ∈ V ∪ blockSet b n, e.key best ≤ e.key (val k) := by
    rintro k (hk | hk)
    · exact hlt.le.trans (hV.covered k hk)
    · obtain ⟨j, hj, i, rfl⟩ := exists_lane hk
      exact (hle i).trans ((hlanes i).covered.2 j hj)
  -- A lane with the best value names the first place of it in that lane.
  have hlane : ∀ i, t.vNew i = best → ∃ j < n, (t.offsetsNew i).val = j + 1 ∧
      LocTrack.position b t.offsetsNew i = b + 16 * j + i ∧ val (b + 16 * j + i) = best ∧
      ∀ j' < j, e.key best < e.key (val (b + 16 * j' + i)) := by
    intro i hi
    rcases hlanes i with ⟨-, hv, -⟩ | ⟨j, hj, ho, hv, -, -, hfirst⟩
    · rw [← hi, hv] at hlt
      exact absurd hlt (lt_irrefl _)
    · refine ⟨j, hj, ho, ?_, by rw [← hv, hi], by rwa [← hi]⟩
      simp only [LocTrack.position, ho]
      omega
  -- So the first place of the best value is named by a lane.
  have hnamed : ∀ k ∈ V ∪ blockSet b n, e.key (val k) = e.key best →
      ∃ i, t.vNew i = best ∧ LocTrack.position b t.offsetsNew i ≤ k := by
    rintro k (hk | hk) heq
    · exact absurd heq (hlt.trans_le (hV.covered k hk)).ne'
    · obtain ⟨j, hj, i, rfl⟩ := exists_lane hk
      have hi : t.vNew i = best := by
        refine e.key_injective (le_antisymm ?_ (hle i))
        rw [← heq]
        exact (hlanes i).covered.2 j hj
      obtain ⟨j0, -, -, hpos, -, hfirst⟩ := hlane i hi
      refine ⟨i, hi, ?_⟩
      have hj0 : j0 ≤ j := not_lt.mp fun hlt' => (hfirst j hlt').ne' heq
      omega
  obtain ⟨i0, hi0, hleast⟩ := Finset.exists_min_image
    (Finset.univ.filter fun i => t.vNew i = best) (LocTrack.position b t.offsetsNew)
    ⟨i1, by simp [hi1]⟩
  simp only [Finset.mem_filter, Finset.mem_univ, true_and] at hi0 hleast
  obtain ⟨j0, hj0, ho0, hpos0, hval0, -⟩ := hlane i0 hi0
  have hp : FirstMin (fun k => e.key (val k)) (V ∪ blockSet b n)
      (LocTrack.position b t.offsetsNew i0) := by
    rw [← hval0, ← hpos0] at hcovered
    refine ⟨.inr (hpos0 ▸ lane_mem_blockSet hj0 i0), hcovered, fun k hk heq => ?_⟩
    obtain ⟨i, hi, hle'⟩ := hnamed k hk (by rw [heq, hpos0, hval0])
    exact (hleast i hi).trans hle'
  -- What the step stores in a lane.
  have hstored : ∀ i, (t.onBlockFinished e b).v i = best → t.vNew i = best ∧
      (t.onBlockFinished e b).offsets i = t.offsetsNew i := by
    intro i hi
    simp only [LocTrack.onBlockFinished] at hi ⊢
    split at hi
    · rw [ht] at hi
      have := hV.lanes i
      rw [hi] at this
      exact absurd hlt this.not_gt
    · rename_i hne
      exact ⟨hi, if_neg hne⟩
  have hstore : ∀ i, t.vNew i = best → (t.onBlockFinished e b).v i = best ∧
      (t.onBlockFinished e b).offsets i = t.offsetsNew i := by
    intro i hi
    obtain ⟨j, -, ho, -⟩ := hlane i hi
    have hne : t.offsetsNew i ≠ 0 := fun h0 => by rw [h0] at ho; exact absurd ho (by simp)
    exact ⟨(if_neg hne).trans hi, if_neg hne⟩
  refine ⟨fun _ => rfl, fun _ => rfl, fun i => ?_, hcovered, .inr ⟨_, hp, ?_, ?_, ?_, ?_⟩⟩
  · change e.key best ≤ e.key (if t.offsetsNew i = 0 then t.v i else t.vNew i)
    split
    · rw [ht]
      exact hlt.le.trans (hV.lanes i)
    · exact hle i
  · rw [hpos0]
    exact hval0
  · exact hlt.trans_le (e.key_le _)
  · intro i hi
    obtain ⟨hnew, hoff⟩ := hstored i hi
    obtain ⟨j, hj, ho, -⟩ := hlane i hnew
    have hle' := hleast i hnew
    simp only [LocTrack.position, hoff, hblock] at hle' ⊢
    exact ⟨by omega, by omega, hle'⟩
  · obtain ⟨hv, hoff⟩ := hstore i0 hi0
    refine ⟨i0, hv, ?_⟩
    simp only [LocTrack.position, hoff, hblock]

/-- A block ends. -/
theorem Inside.onBlockFinished (h : Inside e val b n t) (hn : n ≤ 254) :
    Between e val (b + 16 * n) (t.onBlockFinished e b) := by
  obtain ⟨t0, ⟨V, S, hVS, hV, hS⟩, ht, hlanes⟩ := h
  have hbelow : ∀ k ∈ V, k < b := fun k hk => (hVS ▸ Or.inl hk : k ∈ {k | k < b})
  refine ⟨V ∪ blockSet b n, S, ?_, ?_, ?_⟩
  · rw [Set.union_right_comm, hVS]
    ext k
    simp only [blockSet, Set.mem_union, Set.mem_ofPred_eq]
    omega
  · by_cases hnone : ∀ i, t.offsetsNew i = 0
    · exact hV.onBlockFinished_same hbelow ht hlanes hnone
    · exact hV.onBlockFinished_new ht hn hlanes hnone
  · rw [ht]
    exact ⟨hS.covered, hS.found⟩

/-- `lane_of_first_smallest` finds the first lane that is small enough. -/
theorem laneOfFirstSmallest_spec {v : U8x16} {smallest : U8} (h : ∃ i, v i ≤ smallest) :
    ∃ i, LocTrack.laneOfFirstSmallest v smallest = i.val ∧ v i ≤ smallest ∧
      ∀ i', v i' ≤ smallest → i ≤ i' := by
  -- Both halves of the register are searched alike.
  have hfind : ∀ p : Fin 8 → Bool, (∃ i, p i = true) →
      ∃ i, LocTrack.firstByte p = i.val ∧ p i = true ∧ ∀ i', p i' = true → i ≤ i' := by
    rintro p ⟨i0, hi0⟩
    have hlt : (List.finRange 8).findIdx p < (List.finRange 8).length :=
      List.findIdx_lt_length_of_exists ⟨i0, List.mem_finRange i0, hi0⟩
    have hlt' : LocTrack.firstByte p < 8 := by simpa [LocTrack.firstByte] using hlt
    refine ⟨⟨_, hlt'⟩, rfl, ?_, fun i' hi' => ?_⟩
    · have := List.findIdx_getElem (w := hlt)
      rwa [List.getElem_finRange] at this
    · by_contra hcon
      rw [Fin.le_def, not_le] at hcon
      have := List.not_of_lt_findIdx hcon
      exact absurd hi' (by simpa using this)
  obtain ⟨i0, hi0⟩ := h
  unfold LocTrack.laneOfFirstSmallest
  simp only [Fin.isValue, Fin.val_zero, Nat.mul_zero, Nat.zero_add, Fin.val_one, Nat.mul_one]
  split
  · rename_i hany
    obtain ⟨i1, -, hi1⟩ := List.any_eq_true.mp hany
    obtain ⟨i, hi, hpi, hfirst⟩ := hfind (fun i => decide (v ⟨i, by omega⟩ ≤ smallest))
      ⟨i1, by simpa using hi1⟩
    refine ⟨⟨i, by omega⟩, ?_, by simpa using hpi, fun i' hi' => ?_⟩
    · simpa using hi
    · by_cases h8 : i'.val < 8
      · exact Fin.le_def.mpr (Fin.le_def.mp (hfirst ⟨i', h8⟩ (by simpa using hi')))
      · exact Fin.le_def.mpr (by simp only; omega)
  · rename_i hany
    have hlow : ∀ i' : Fin 16, v i' ≤ smallest → 8 ≤ i'.val := by
      intro i' hi'
      by_contra h8
      exact hany (List.any_eq_true.mpr ⟨⟨i', by omega⟩, List.mem_finRange _, by simpa using hi'⟩)
    have hi0' := hlow i0 hi0
    obtain ⟨i, hi, hpi, hfirst⟩ := hfind (fun i => decide (v ⟨8 + i, by omega⟩ ≤ smallest))
      ⟨⟨i0 - 8, by omega⟩, by simpa [Nat.add_sub_cancel' hi0'] using hi0⟩
    refine ⟨⟨8 + i, by omega⟩, ?_, by simpa using hpi, fun i' hi' => ?_⟩
    · simpa using hi
    · have h8 := hlow i' hi'
      have := Fin.le_def.mp (hfirst ⟨i' - 8, by omega⟩
        (by simpa [Nat.add_sub_cancel' h8] using hi'))
      exact Fin.le_def.mpr (by simp only at this ⊢; omega)

/-- The stored lanes with the best vector value, 255 in the others: the
smallest of them is the offset of `p`, and the first lane that holds it its
lane. -/
theorem selectedOffsets_spec {p : ℕ}
    (hlanes : ∀ i, t.v i = t.vector → 1 ≤ (t.offsets i).val ∧ (t.offsets i).val ≤ 254 ∧
      p ≤ LocTrack.position t.blockIndex t.offsets i)
    (hnamed : ∃ i, t.v i = t.vector ∧ LocTrack.position t.blockIndex t.offsets i = p)
    (sel : U8x16) (hsel : ∀ i, sel i = if t.v i = t.vector then t.offsets i else 255) :
    Extremum.minimum.across sel ≠ 0 ∧
      t.blockIndex + ((Extremum.minimum.across sel).val - 1) * 16 +
        LocTrack.laneOfFirstSmallest sel (Extremum.minimum.across sel) = p := by
  obtain ⟨hle, i1, hi1⟩ := Extremum.minimum.across_spec sel
  obtain ⟨i0, hi0, hp⟩ := hnamed
  obtain ⟨lane, hlane, hsmall, hfirst⟩ := laneOfFirstSmallest_spec ⟨i1, hi1.ge⟩
  have hle0 := hle i0
  rw [hsel i0, if_pos hi0] at hle0
  have h0 := hlanes i0 hi0
  -- 255 is no offset, so the smallest one comes from a lane with the best value.
  have hbest : t.v lane = t.vector := by
    by_contra hne
    rw [hsel lane, if_neg hne] at hsmall
    have := Fin.le_def.mp hsmall
    simp only [Extremum.key] at hle0
    have h255 : (255 : U8).val = 255 := rfl
    omega
  have hlane' := hlanes lane hbest
  have heq : Extremum.minimum.across sel = t.offsets lane := by
    have h1 := hle lane
    rw [hsel lane, if_pos hbest] at h1 hsmall
    exact le_antisymm (Fin.le_def.mpr h1) hsmall
  have hmin : i0 = lane ∨ t.offsets lane < t.offsets i0 ∨ lane < i0 := by
    rcases lt_trichotomy (t.offsets lane) (t.offsets i0) with hlt | heq' | hlt
    · exact .inr (.inl hlt)
    · have := hfirst i0 (by rw [hsel i0, if_pos hi0, heq, heq'])
      rcases this.lt_or_eq with h | h
      · exact .inr (.inr h)
      · exact .inl h.symm
    · rw [heq] at hle0
      exact absurd (Fin.lt_def.mp hlt) (by simpa only [Extremum.key, not_lt] using hle0)
  refine ⟨fun hzero => ?_, ?_⟩
  · rw [hzero] at heq
    have := congrArg Fin.val heq
    simp only [Fin.val_zero] at this
    omega
  · rw [hlane, heq]
    change LocTrack.position t.blockIndex t.offsets lane = p
    rw [← hp] at hlane' ⊢
    simp only [LocTrack.position, Extremum.key, heq] at hlane' hle0 ⊢
    rcases hmin with rfl | hlt | hlt
    · rfl
    all_goals
      have := Fin.lt_def.mp hlt
      omega

/-- The index a track answers with is the first one with the best value. -/
theorem Between.index_firstMin (h : Between e val n t) (hn : 0 < n) :
    FirstMin (fun k => e.key (val k)) {k | k < n} (t.index e) := by
  obtain ⟨V, S, hVS, hV, hS⟩ := h
  rw [← hVS]
  unfold LocTrack.index
  split
  · -- The single elements hold a better value than the vectors.
    rename_i hb
    rw [e.better_iff] at hb
    rcases hS.found with ⟨hworst, -⟩ | ⟨hfirst, hval, -⟩
    · rw [hworst] at hb
      exact absurd hb (e.key_le _).not_gt
    · rw [Set.union_comm]
      refine hfirst.union fun k hk => .inl ?_
      simp only [hval]
      exact hb.trans_le (hV.covered k hk)
  rename_i hb
  rw [e.better_iff, not_lt] at hb
  have hsel : ∀ i, (if !e.better (t.vNew i) (t.v i) then t.offsets i else 255) =
      if t.v i = t.vector then t.offsets i else 255 := by
    intro i
    have hiff := e.better_iff (t.vNew i) (t.v i)
    rw [hV.same i] at hiff ⊢
    by_cases hi : t.v i = t.vector
    · simp [hi, Extremum.better_iff]
    · have hlt : e.key t.vector < e.key (t.v i) :=
        lt_of_le_of_ne (hV.lanes i) fun heq => hi (e.key_injective heq).symm
      simp [hiff.mpr hlt, hi]
  rcases hV.found with ⟨hworst, hoffsets⟩ | ⟨p, hp, hval, hlt, hlanes, hnamed⟩
  · -- No vector had a value better than the worst; then no element had.
    have hscalar : t.scalar = e.worst ∧ t.scalarIndex = 0 := by
      rcases hS.found with h | ⟨-, -, hlt⟩
      · exact h
      · rw [hworst] at hb
        exact absurd hlt hb.not_gt
    have hall : ∀ k ∈ V ∪ S, e.key e.worst ≤ e.key (val k) := by
      rintro k (hk | hk)
      · exact hworst ▸ hV.covered k hk
      · exact hscalar.1 ▸ hS.covered k hk
    have hzero : Extremum.minimum.across
        (fun i => if !e.better (t.vNew i) (t.v i) then t.offsets i else 255) = 0 := by
      obtain ⟨hle, -⟩ := Extremum.minimum.across_spec
        (fun i => if !e.better (t.vNew i) (t.v i) then t.offsets i else 255)
      have hv0 : t.v 0 = t.vector := by
        rw [hworst]
        exact Extremum.eq_worst (hworst ▸ hV.lanes 0)
      have := hle 0
      rw [hsel 0, if_pos hv0, hoffsets 0] at this
      exact Fin.ext (Nat.le_zero.mp this)
    rw [if_pos hzero, hscalar.2]
    have h0 : (0 : ℕ) ∈ V ∪ S := by rw [hVS]; exact hn
    refine ⟨h0, fun k hk => ?_, fun k _ _ => Nat.zero_le k⟩
    exact (e.key_le _).trans (hall k hk)
  · obtain ⟨hne, hindex⟩ := selectedOffsets_spec hlanes hnamed _ hsel
    simp only [if_neg hne, hindex, Bool.or_eq_true, decide_eq_true_eq]
    split
    · rename_i hor
      rcases hor with hbetter | hbefore
      · rw [e.better_iff] at hbetter
        refine hp.union fun k hk => .inl ?_
        simp only [hval]
        exact hbetter.trans_le (hS.covered k hk)
      · rcases hS.found with ⟨hworst, hzero⟩ | ⟨hfirst, hsval, -⟩
        · omega
        · refine hp.union_of_firstMin hfirst ?_
          simp only [hval, hsval]
          exact hb.lt_or_eq.imp_right fun heq => ⟨heq, hbefore.le⟩
    · rename_i hor
      rw [not_or, e.better_iff, not_lt, not_lt] at hor
      have heq : e.key t.scalar = e.key t.vector := le_antisymm hor.1 hb
      rcases hS.found with ⟨hworst, -⟩ | ⟨hfirst, hsval, -⟩
      · rw [← heq, hworst] at hlt
        exact absurd hlt (lt_irrefl _)
      · rw [Set.union_comm]
        refine hfirst.union_of_firstMin hp (.inr ?_)
        simp only [hval, hsval]
        exact ⟨heq, hor.2⟩

end

/-! ### The operation over an image -/

/-- Between blocks, with `n` pixels done: both tracks, and one read a pixel. -/
structure BlocksInv (val : ℕ → U8) (n : ℕ) (s : MinMaxLoc) : Prop where
  min : Between .minimum val n s.min
  max : Between .maximum val n s.max
  running : ∀ i, s.vrunningOffset i = 1
  index : s.runningIndex = n
  reads : s.reads.length = n

/-- Inside the block that began at `b`, after `n` vectors. -/
structure BlockInv (val : ℕ → U8) (b n : ℕ) (s : MinMaxLoc) : Prop where
  min : Inside .minimum val b n s.min
  max : Inside .maximum val b n s.max
  running : ∀ i, (s.vrunningOffset i).val = n + 1
  index : s.runningIndex = b
  reads : s.reads.length = b + 16 * n

section

variable {val : ℕ → U8} {b n : ℕ} {s : MinMaxLoc}

theorem BlocksInv.initial (val : ℕ → U8) : BlocksInv val 0 .initial :=
  ⟨.initial _ _, .initial _ _, fun _ => rfl, rfl, rfl⟩

theorem BlocksInv.inside (h : BlocksInv val b s) : BlockInv val b 0 s :=
  ⟨h.min.inside, h.max.inside, fun i => by rw [h.running i]; rfl, h.index, h.reads⟩

/-- One vector that has been read. -/
theorem BlockInv.vectorPath (h : BlockInv val b n s) (hn : n < 254) {src : U8x16}
    (hsrc : ∀ i : Fin 16, src i = val (b + 16 * n + i)) (reads : List ℕ)
    (hreads : reads.length = b + 16 * (n + 1)) :
    BlockInv val b (n + 1) { s.vectorPath src with reads := reads } := by
  refine ⟨h.min.vectorPath h.running hsrc, h.max.vectorPath h.running hsrc, fun i => ?_, h.index,
    hreads⟩
  have := h.running i
  simp only [MinMaxLoc.vectorPath, Fin.val_add, this, Fin.isValue, Fin.val_one]
  omega

theorem BlockInv.onBlockFinished (h : BlockInv val b n s) (hn : n ≤ 254) :
    BlocksInv val (b + 16 * n) (s.onBlockFinished n) := by
  refine ⟨?_, ?_, fun _ => rfl, ?_, ?_⟩ <;> simp only [MinMaxLoc.onBlockFinished, h.index]
  · exact h.min.onBlockFinished hn
  · exact h.max.onBlockFinished hn
  · ring
  · exact h.reads

/-- One element that has been read. -/
theorem BlocksInv.scalarPath (h : BlocksInv val n s) (reads : List ℕ)
    (hreads : reads.length = n + 1) :
    BlocksInv val (n + 1) { s.scalarPath (val n) with reads := reads } := by
  refine ⟨?_, ?_, h.running, congrArg (· + 1) h.index, hreads⟩
  · simpa only [MinMaxLoc.scalarPath, h.index] using h.min.scalarPath
  · simpa only [MinMaxLoc.scalarPath, h.index] using h.max.scalarPath

/-- A row of `length` pixels whose indices start at `base`. -/
theorem BlocksInv.processRow {m : Mem} {src srcStride row length base : ℕ}
    (h : BlocksInv val base s)
    (hval : ∀ c < length, val (base + c) = m (src + row * srcStride + c)) :
    ∃ s', (MinMaxLoc.adapter m src srcStride).processRowInBlocks row length s = some s' ∧
      BlocksInv val (base + length) s' := by
  refine processRowInBlocks_invariant (fun c s => BlocksInv val (base + c) s)
    (fun b c s => ∃ n, c = b + 16 * n ∧ BlockInv val (base + b) n s) rfl rfl
    (show 0 < 16 by omega) (show 2 ≤ 255 - 1 by omega) h ?_ ?_ ?_ ?_
  · exact fun b s _ hb => ⟨0, rfl, hb.inside⟩
  · rintro b i s hfit hmax ⟨n, hn, hs⟩
    simp only [MinMaxLoc.adapter, MinMaxLoc.maxVectorsPerBlock] at hfit hmax hn ⊢
    obtain rfl : n = 2 * i := by omega
    have hvector : ∀ j, j ≤ 1 → ∀ l : Fin 16,
        vld1qU8 m (src + row * srcStride + (b + i * (2 * 16)) + 16 * j) l =
          val (base + b + 16 * (2 * i + j) + l) := by
      intro j hj l
      have := hval (b + 16 * (2 * i + j) + l) (by omega)
      rw [← Nat.add_assoc, ← Nat.add_assoc] at this
      rw [this, vld1qU8]
      congr 1
      ring
    -- The two vectors of an iteration, one after the other.
    have h1 := hs.vectorPath (by omega) (hvector 0 (by omega))
      (s.reads ++ List.range 16) (by simp [hs.reads]; ring)
    have h2 := h1.vectorPath (by omega) (hvector 1 (by omega))
      (s.read (src + row * srcStride + (b + i * (2 * 16))) 32).reads
      (by simp [MinMaxLoc.read, hs.reads]; ring)
    exact ⟨2 * i + 2, by ring, h2⟩
  · rintro b v s - hv - ⟨n, hn, hs⟩
    simp only [MinMaxLoc.adapter, MinMaxLoc.maxVectorsPerBlock] at hv hn ⊢
    obtain rfl : n = v := by omega
    have := hs.onBlockFinished hv
    rwa [show base + b + 16 * n = base + (b + n * 16) by ring] at this
  · intro c _ hc s hs
    have := hs.scalarPath (s.read (src + row * srcStride + c) 1).reads
      (by simp [MinMaxLoc.read, hs.reads])
    rw [hval c hc] at this
    exact this

end

/-- What `min_max_loc` checks before it reads. -/
def minMaxLocAccepts (src width height : ℕ) : Bool :=
  decide (src ≠ 0) && checkImageSize width height && decide (width ≠ 0) && decide (height ≠ 0)

theorem minMaxLocAccepts_iff {src width height : ℕ} :
    minMaxLocAccepts src width height = true ↔
      src ≠ 0 ∧ width * height ≤ kleidicvMaxImagePixels ∧ 0 < width ∧ 0 < height := by
  simp only [minMaxLocAccepts, Bool.and_eq_true, decide_eq_true_eq, checkImageSize_iff, and_assoc,
    Nat.pos_iff_ne_zero]

/-- A rejected call reads and writes nothing. -/
theorem kleidicvMinMaxLocU8_rejected (m : Mem) {src : ℕ} (srcStride : ℕ) {width height : ℕ}
    (h : minMaxLocAccepts src width height = false) (minOffset maxOffset : Option ℕ) :
    ∃ error ≠ .ok, kleidicvMinMaxLocU8 m src srcStride width height minOffset maxOffset =
      some ⟨error, minOffset, maxOffset, []⟩ := by
  unfold kleidicvMinMaxLocU8
  split
  · exact ⟨.nullPointer, by decide, rfl⟩
  split
  · exact ⟨.range, by decide, rfl⟩
  split
  · exact ⟨.range, by decide, rfl⟩
  · rename_i h1 h2 h3
    simp only [Bool.or_eq_true, decide_eq_true_eq, not_or] at h3
    simp [minMaxLocAccepts, h1, h3] at h h2
    exact absurd h2 (by simp [h])

theorem offsetForIndex_continuous (width k : ℕ) : offsetForIndex width k width = k := by
  rw [offsetForIndex, Nat.mul_comm]
  exact Nat.div_add_mod k width

theorem offsetForIndex_row {stride row width c : ℕ} (hc : c < width) :
    offsetForIndex stride (row * width + c) width = row * stride + c := by
  have hw : 0 < width := Nat.zero_lt_of_lt hc
  rw [offsetForIndex, Nat.mul_comm row width, Nat.mul_add_div hw, Nat.mul_add_mod,
    Nat.div_eq_of_lt hc, Nat.mod_eq_of_lt hc, Nat.add_zero]

/-- What `min_max_loc` answers on an image it accepts: the offsets of two first
indices, after one read of every pixel. -/
theorem kleidicvMinMaxLocU8_spec (m : Mem) {src : ℕ} (srcStride : ℕ) {width height : ℕ}
    (haccepts : minMaxLocAccepts src width height = true) (minOffset maxOffset : Option ℕ) :
    ∃ kmin kmax reads, kleidicvMinMaxLocU8 m src srcStride width height minOffset maxOffset =
      some ⟨.ok, minOffset.map fun _ => offsetForIndex srcStride kmin width,
        maxOffset.map fun _ => offsetForIndex srcStride kmax width, reads⟩ ∧
      reads.length = width * height ∧
      FirstMin (fun k => Extremum.minimum.key (m (src + offsetForIndex srcStride k width)))
        {k | k < width * height} kmin ∧
      FirstMin (fun k => Extremum.maximum.key (m (src + offsetForIndex srcStride k width)))
        {k | k < width * height} kmax := by
  obtain ⟨hsrc, hpixels, hwidth, hheight⟩ := minMaxLocAccepts_iff.mp haccepts
  let val : ℕ → U8 := fun k => m (src + offsetForIndex srcStride k width)
  have hmod : width * height < sizeMod :=
    hpixels.trans_lt (by norm_num [kleidicvMaxImagePixels, sizeMod])
  obtain ⟨s, hs, hinv⟩ : ∃ s, zipRows (srcStride == width) width height
      (fun row length s =>
        s.bind ((MinMaxLoc.adapter m src srcStride).processRowInBlocks row length))
      (some MinMaxLoc.initial) = some s ∧ BlocksInv val (width * height) s := by
    rw [zipRows_eq _ hmod]
    split
    · rename_i hcont
      obtain rfl : srcStride = width := by simpa using hcont
      have hrow : ∀ c < srcStride * height, val (0 + c) = m (src + 0 * srcStride + c) :=
        fun c _ => by
          simp only [val, Nat.zero_add, Nat.zero_mul, Nat.add_zero, offsetForIndex_continuous]
      have := (BlocksInv.initial val).processRow hrow
      simpa only [Nat.zero_add, Option.bind_some] using this
    · rw [Nat.mul_comm width]
      refine forRange_invariant (fun row state => ∃ s, state = some s ∧ BlocksInv val (row * width) s)
        ⟨_, rfl, by simpa using BlocksInv.initial val⟩ ?_
      rintro row - _ ⟨s, rfl, hs⟩
      rw [Nat.add_mul, Nat.one_mul]
      exact hs.processRow fun c hc => by
        simp only [val, offsetForIndex_row hc, Nat.add_assoc]
  have hpos : 0 < width * height := Nat.mul_pos hwidth hheight
  refine ⟨_, _, s.reads, ?_, hinv.reads, hinv.min.index_firstMin hpos,
    hinv.max.index_firstMin hpos⟩
  have hzero : ¬(width = 0 ∨ height = 0) := by omega
  simp [kleidicvMinMaxLocU8, hsrc, checkImageSize_iff.mpr hpixels, hzero, hs]

/-- The pixel positions (row, column), in row-major order. -/
def rasterPositions (width height : ℕ) : Set (ℕ ×ₗ ℕ) :=
  {p | (ofLex p).1 < height ∧ (ofLex p).2 < width}

/-- The pixel at a position. -/
def pixelAt (m : Mem) (src srcStride : ℕ) (p : ℕ ×ₗ ℕ) : U8 :=
  m (src + ((ofLex p).1 * srcStride + (ofLex p).2))

/-- The position of the `k`-th pixel. -/
def raster (width k : ℕ) : ℕ ×ₗ ℕ := toLex (k / width, k % width)

theorem raster_strictMono (width : ℕ) : StrictMono (raster width) := by
  intro j k hjk
  rw [raster, raster, Prod.Lex.toLex_lt_toLex]
  rcases (Nat.div_le_div_right hjk.le : j / width ≤ k / width).lt_or_eq with hlt | heq
  · exact .inl hlt
  · refine .inr ⟨heq, ?_⟩
    have hj := Nat.div_add_mod j width
    have hk := Nat.div_add_mod k width
    simp only at heq ⊢
    rw [heq] at hj
    omega

theorem raster_image {width height : ℕ} (hwidth : 0 < width) :
    raster width '' {k | k < width * height} = rasterPositions width height := by
  ext p
  constructor
  · rintro ⟨k, hk, rfl⟩
    exact ⟨Nat.div_lt_of_lt_mul hk, Nat.mod_lt k hwidth⟩
  · rintro ⟨hy, hx⟩
    refine ⟨width * (ofLex p).1 + (ofLex p).2, ?_, ?_⟩
    · have := Nat.mul_le_mul_left width (show (ofLex p).1 + 1 ≤ height from hy)
      rw [Nat.mul_succ] at this
      exact lt_of_lt_of_le (Nat.add_lt_add_left hx _) this
    · rw [raster, Nat.mul_add_div hwidth, Nat.mul_add_mod, Nat.div_eq_of_lt hx, Nat.mod_eq_of_lt hx,
        Nat.add_zero]
      rfl

/-- **The offsets of the first extrema.**  On an image of at least one row and
one column, whatever the stride, `min_max_loc` returns OK and the byte offsets
of the first position with the smallest and of the first with the largest
pixel. -/
theorem min_max_loc_first (m : Mem) {src srcStride width height : ℕ} (hsrc : src ≠ 0)
    (hwidth : 1 ≤ width) (hheight : 1 ≤ height)
    (hpixels : width * height ≤ kleidicvMaxImagePixels) (minBefore maxBefore : ℕ) :
    ∃ y x y' x' reads,
      kleidicvMinMaxLocU8 m src srcStride width height (some minBefore) (some maxBefore) =
        some ⟨.ok, some (y * srcStride + x), some (y' * srcStride + x'), reads⟩ ∧
      FirstMin (pixelAt m src srcStride) (rasterPositions width height) (toLex (y, x)) ∧
      FirstMin (fun p => OrderDual.toDual (pixelAt m src srcStride p))
        (rasterPositions width height) (toLex (y', x')) := by
  obtain ⟨kmin, kmax, reads, hcall, -, hmin, hmax⟩ := kleidicvMinMaxLocU8_spec m srcStride
    (minMaxLocAccepts_iff.mpr ⟨hsrc, hpixels, hwidth, hheight⟩) (some minBefore) (some maxBefore)
  refine ⟨kmin / width, kmin % width, kmax / width, kmax % width, reads, hcall, ?_, ?_⟩
  · have hmono : StrictMono Extremum.minimum.key := fun a b hab => hab
    exact FirstMin.map (g := raster width) (raster_strictMono width) (raster_image hwidth)
      (FirstMin.of_strictMono hmono hmin)
  · have hmono : StrictMono fun a : U8ᵒᵈ => Extremum.maximum.key (OrderDual.ofDual a) := by
      intro a b hab
      have := Fin.lt_def.mp (OrderDual.ofDual_lt_ofDual.mpr hab)
      simp only [Extremum.key]
      omega
    exact FirstMin.map (g := raster width) (raster_strictMono width) (raster_image hwidth)
      (FirstMin.of_strictMono hmono hmax)

/-- An image of two rows of one pixel, with a gap between them. -/
theorem min_max_loc_first_paddedColumn :
    ∃ y x y' x' reads,
      kleidicvMinMaxLocU8 (fun a => if a = 7 then 9 else 3) 1 6 1 2 (some 0) (some 0) =
        some ⟨.ok, some (y * 6 + x), some (y' * 6 + x'), reads⟩ ∧
      FirstMin (pixelAt (fun a => if a = 7 then 9 else 3) 1 6) (rasterPositions 1 2)
        (toLex (y, x)) ∧
      FirstMin (fun p => OrderDual.toDual (pixelAt (fun a => if a = 7 then 9 else 3) 1 6 p))
        (rasterPositions 1 2) (toLex (y', x')) :=
  min_max_loc_first _ (by decide) le_rfl (by decide) (by decide) 0 0

end KleidiCV
