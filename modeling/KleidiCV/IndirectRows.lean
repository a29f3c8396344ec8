/-
Rows that are addressed through an array of pointers.

`IndirectRows` sees a row through a pointer in the pointer storage, so that the
morphology filters can walk over a ring of buffer rows without a modulo.
`DoubleBufferedIndirectRows` has two views, half a ring apart, which `swap`
exchanges: rows are written through one and read through the other.

The storage records every index that is stored to.  The class says that it
requires three times the depth of pointers, and `MorphologyWorkspace::create`
allocates as much.

* `construct_stored`, `construct_slot` — which indices the constructor stores to,
  and the row each of them points at;
* `after_ring` — the views in any sequence of accesses are halves of the ring;
* `doubleBuffered_overruns` — the constructor always stores behind the capacity;
* `read_within` — what is read through the views stays in it.
-/
import KleidiCV.Lib.Loop

namespace KleidiCV

open Loop

/-- `Rows<T>` over a buffer: the address of the first row and the distance between rows, in bytes. -/
structure BufferRows where
  ptr : ℕ
  stride : ℕ
  channels : ℕ

/-- `&rows.at(row, 0)[0]` -/
def BufferRows.rowAddress (rows : BufferRows) (row : ℕ) : ℕ := rows.ptr + row * rows.stride

/-- Pointers that were stored, and the indices they were stored at. -/
structure PointerStorage where
  slot : ℕ → ℕ
  stored : List ℕ

def PointerStorage.store (storage : PointerStorage) (index address : ℕ) : PointerStorage :=
  ⟨Function.update storage.slot index address, storage.stored ++ [index]⟩

@[simp] theorem PointerStorage.store_slot (storage : PointerStorage) (index address i : ℕ) :
    (storage.store index address).slot i = if i = index then address else storage.slot i := by
  simp [store, Function.update_apply]

@[simp] theorem PointerStorage.mem_stored (storage : PointerStorage) (index address i : ℕ) :
    i ∈ (storage.store index address).stored ↔ i ∈ storage.stored ∨ i = index := by
  simp [store]

/-- `IndirectRows<T>`: `ptrStorage` is an index into the storage. -/
structure IndirectRows where
  ptrStorage : ℕ
  stride : ℕ
  channels : ℕ

namespace IndirectRows

/-- The constructor that fills the first `depth` pointers. -/
def construct (depth : ℕ) (rows : BufferRows) (storage : PointerStorage) :
    IndirectRows × PointerStorage :=
  (⟨0, rows.stride, rows.channels⟩,
    forRange depth (fun index storage => storage.store index (rows.rowAddress index)) storage)

def «at» (view : IndirectRows) (storage : PointerStorage) (row : ℕ) : BufferRows :=
  ⟨storage.slot (view.ptrStorage + row), view.stride, view.channels⟩

end IndirectRows

/-- `DoubleBufferedIndirectRows<T>` -/
structure DoubleBufferedIndirectRows where
  rows : IndirectRows
  storage : PointerStorage
  dbPtrStorage : ℕ × ℕ

/-- What a client can do with it. -/
inductive RowAccess
  | swap
  | writeAt
  | readAt
deriving DecidableEq

namespace DoubleBufferedIndirectRows

variable {depth : ℕ} {rows : BufferRows} {storage : PointerStorage}

def construct (depth : ℕ) (rows : BufferRows) (storage : PointerStorage) :
    DoubleBufferedIndirectRows :=
  let (view, storage) := IndirectRows.construct (2 * depth) rows storage
  -- fill the second half of the pointer storage
  let storage := forRange (2 * depth) (fun index storage =>
    storage.store (view.ptrStorage + 2 * depth + index)
      (storage.slot (view.ptrStorage + index))) storage
  ⟨view, storage, view.ptrStorage, view.ptrStorage + depth⟩

def swap (db : DoubleBufferedIndirectRows) : DoubleBufferedIndirectRows :=
  { db with dbPtrStorage := (db.dbPtrStorage.2, db.dbPtrStorage.1) }

def writeAt (db : DoubleBufferedIndirectRows) : IndirectRows :=
  ⟨db.dbPtrStorage.1, db.rows.stride, db.rows.channels⟩

def readAt (db : DoubleBufferedIndirectRows) : IndirectRows :=
  ⟨db.dbPtrStorage.2, db.rows.stride, db.rows.channels⟩

def access (db : DoubleBufferedIndirectRows) : RowAccess → DoubleBufferedIndirectRows
  | .swap => db.swap
  | .writeAt | .readAt => db

/-- The state after a sequence of accesses. -/
def after (depth : ℕ) (rows : BufferRows) (storage : PointerStorage) (accesses : List RowAccess) :
    DoubleBufferedIndirectRows :=
  accesses.foldl access (construct depth rows storage)

/-- The half of the ring that reading starts at. -/
def readBase (depth : ℕ) (accesses : List RowAccess) : ℕ :=
  if accesses.count .swap % 2 = 0 then depth else 0

/-- `view` shows the ring of `2 * depth` rows from row `base` on. -/
def Shows (depth : ℕ) (rows : BufferRows) (storage : PointerStorage) (view : IndirectRows)
    (base : ℕ) : Prop :=
  ∀ i < 2 * depth, view.at storage i
    = ⟨rows.rowAddress ((base + i) % (2 * depth)), rows.stride, rows.channels⟩

/-- Reading and writing use the two halves of the ring. -/
def RingAddressing (depth : ℕ) (rows : BufferRows) (storage : PointerStorage)
    (accesses : List RowAccess) : Prop :=
  let db := after depth rows storage accesses
  Shows depth rows db.storage db.readAt (readBase depth accesses) ∧
    Shows depth rows db.storage db.writeAt (depth - readBase depth accesses)

/-- Pointers are stored only in the first `capacity` places. -/
def StoresWithin (capacity depth : ℕ) (rows : BufferRows) (slot : ℕ → ℕ)
    (accesses : List RowAccess) : Prop :=
  ∀ index ∈ (after depth rows ⟨slot, []⟩ accesses).storage.stored, index < capacity

/-! ### What the constructor stores -/

/-- A loop that fills `n` places from `start` on, with values that depend only on what is in
front of them. -/
theorem fill_spec (storage : PointerStorage) (start n : ℕ) (value : ℕ → PointerStorage → ℕ)
    (address : ℕ → ℕ) (hvalue : ∀ index < n, ∀ s : PointerStorage,
      (∀ i < start, s.slot i = storage.slot i) → value index s = address index) :
    let filled := forRange n (fun index s => s.store (start + index) (value index s)) storage
    (∀ i, filled.slot i
      = if start ≤ i ∧ i < start + n then address (i - start) else storage.slot i) ∧
    ∀ i, i ∈ filled.stored ↔ i ∈ storage.stored ∨ start ≤ i ∧ i < start + n := by
  refine forRange_invariant
    (fun n (s : PointerStorage) => (∀ i, s.slot i
        = if start ≤ i ∧ i < start + n then address (i - start) else storage.slot i) ∧
      ∀ i, i ∈ s.stored ↔ i ∈ storage.stored ∨ start ≤ i ∧ i < start + n) ?_ ?_
  · refine ⟨fun i => ?_, fun i => ?_⟩
    · rw [if_neg (by omega)]
    · simp only [Nat.add_zero]
      constructor
      · exact .inl
      · rintro (h | h)
        · exact h
        · omega
  · rintro index hindex s ⟨hslot, hstored⟩
    have hv : value index s = address index := by
      refine hvalue index hindex s fun i hi => ?_
      rw [hslot, if_neg (by omega)]
    refine ⟨fun i => ?_, fun i => ?_⟩
    · rw [PointerStorage.store_slot, hv]
      by_cases hi : i = start + index
      · subst hi
        rw [if_pos rfl, if_pos (by omega), Nat.add_sub_cancel_left]
      · rw [if_neg hi, hslot]
        by_cases hin : start ≤ i ∧ i < start + index
        · rw [if_pos hin, if_pos (by omega)]
        · rw [if_neg hin, if_neg (by omega)]
    · rw [PointerStorage.mem_stored, hstored]
      by_cases hi : i ∈ storage.stored
      · simp [hi]
      · simp only [hi, false_or]
        omega

/-- The first loop fills the ring once, the second one once more. -/
theorem construct_spec (depth : ℕ) (rows : BufferRows) (storage : PointerStorage) :
    (∀ i < 4 * depth, (construct depth rows storage).storage.slot i
      = rows.rowAddress (i % (2 * depth))) ∧
    ∀ i, i ∈ (construct depth rows storage).storage.stored
      ↔ i ∈ storage.stored ∨ i < 4 * depth := by
  obtain ⟨hslot, hstored⟩ := fill_spec storage 0 (2 * depth)
    (fun index _ => rows.rowAddress index) rows.rowAddress fun _ _ _ _ => rfl
  simp only [Nat.zero_add, Nat.zero_le, true_and, Nat.sub_zero] at hslot hstored
  obtain ⟨hslot', hstored'⟩ := fill_spec
    (forRange (2 * depth)
      (fun index storage => storage.store index (rows.rowAddress index)) storage)
    (2 * depth) (2 * depth) (fun index s => s.slot index) rows.rowAddress (by
      intro index hindex s hs
      rw [hs index hindex, hslot, if_pos hindex])
  have heq : (construct depth rows storage).storage
      = forRange (2 * depth) (fun index s => s.store (2 * depth + index) (s.slot index))
        (forRange (2 * depth)
          (fun index storage => storage.store index (rows.rowAddress index)) storage) := by
    simp only [construct, IndirectRows.construct, Nat.zero_add]
  rw [heq]
  refine ⟨fun i hi => ?_, fun i => ?_⟩
  · rw [hslot']
    by_cases hfirst : i < 2 * depth
    · rw [if_neg (by omega), hslot, if_pos hfirst, Nat.mod_eq_of_lt hfirst]
    · rw [if_pos (by omega), Nat.mod_eq_sub_mod (by omega), Nat.mod_eq_of_lt (by omega)]
  · rw [hstored', hstored]
    by_cases hi : i ∈ storage.stored
    · simp [hi]
    · simp only [hi, false_or]
      omega

/-! ### Sequences of accesses -/

/-- Accesses exchange the views and change nothing else. -/
theorem after_spec (depth : ℕ) (rows : BufferRows) (storage : PointerStorage)
    (accesses : List RowAccess) :
    after depth rows storage accesses = { construct depth rows storage with
      dbPtrStorage := (depth - readBase depth accesses, readBase depth accesses) } := by
  induction accesses using List.reverseRecOn with
  | nil =>
      simp [after, readBase, construct, IndirectRows.construct]
  | append_singleton accesses last ih =>
      unfold after at ih ⊢
      rw [List.foldl_append, ih, List.foldl_cons, List.foldl_nil]
      cases last with
      | swap =>
          simp only [access, swap, readBase, List.count_append, List.count_singleton_self]
          by_cases heven : accesses.count .swap % 2 = 0
          · simp [heven, show (accesses.count .swap + 1) % 2 ≠ 0 by omega]
          · simp [heven, show (accesses.count .swap + 1) % 2 = 0 by omega]
      | writeAt => simp [access, readBase]
      | readAt => simp [access, readBase]

/-- A view that starts at one half shows the ring from there on. -/
theorem shows_of_base (depth : ℕ) (rows : BufferRows) (storage : PointerStorage) {base : ℕ}
    (hbase : base ≤ depth) :
    Shows depth rows (construct depth rows storage).storage ⟨base, rows.stride, rows.channels⟩
      base := by
  intro i hi
  have hslot := (construct_spec depth rows storage).1 (base + i) (by omega)
  simp only [IndirectRows.at, hslot]

theorem readBase_le (depth : ℕ) (accesses : List RowAccess) : readBase depth accesses ≤ depth := by
  unfold readBase
  split <;> omega

/-- In any sequence of accesses, the views are the two halves of the ring. -/
theorem after_ring (depth : ℕ) (rows : BufferRows) (storage : PointerStorage)
    (accesses : List RowAccess) : RingAddressing depth rows storage accesses := by
  have hbase := readBase_le depth accesses
  unfold RingAddressing
  rw [after_spec]
  exact ⟨shows_of_base depth rows storage hbase,
    shows_of_base depth rows storage (Nat.sub_le depth _)⟩

/-- Reading through a view uses only the places that the class asks for. -/
theorem read_within (depth : ℕ) (rows : BufferRows) (storage : PointerStorage)
    (accesses : List RowAccess) {i : ℕ} (hi : i < 2 * depth) :
    (after depth rows storage accesses).readAt.ptrStorage + i < 3 * depth := by
  have hbase := readBase_le depth accesses
  rw [after_spec]
  simp only [readAt]
  omega

/-- **The pointer storage is overrun**: whatever is done with the rows, the views address the
ring as they should, but the constructor has stored at all of the first `4 * depth` places,
and so behind the `3 * depth` places that the class asks for. -/
theorem doubleBuffered_overruns (depth : ℕ) (hd : 1 ≤ depth) (rows : BufferRows) (slot : ℕ → ℕ)
    (accesses : List RowAccess) :
    ¬ (StoresWithin (3 * depth) depth rows slot accesses ∧
        RingAddressing depth rows ⟨slot, []⟩ accesses) ∧
      RingAddressing depth rows ⟨slot, []⟩ accesses ∧
      ∀ i, i ∈ (after depth rows ⟨slot, []⟩ accesses).storage.stored ↔ i < 4 * depth := by
  have hstored : ∀ i, i ∈ (after depth rows ⟨slot, []⟩ accesses).storage.stored
      ↔ i < 4 * depth := by
    intro i
    rw [after_spec]
    simpa using (construct_spec depth rows ⟨slot, []⟩).2 i
  refine ⟨fun h => ?_, after_ring depth rows ⟨slot, []⟩ accesses, hstored⟩
  have := h.1 (3 * depth) ((hstored (3 * depth)).mpr (by omega))
  omega

/-- The smallest depth of the morphology workspace. -/
theorem doubleBuffered_overruns_workspace :
    ¬ (StoresWithin (3 * 32) 32 ⟨4096, 64, 1⟩ (fun _ => 0) [.writeAt, .swap, .readAt] ∧
        RingAddressing 32 ⟨4096, 64, 1⟩ ⟨fun _ => 0, []⟩ [.writeAt, .swap, .readAt]) ∧
      RingAddressing 32 ⟨4096, 64, 1⟩ ⟨fun _ => 0, []⟩ [.writeAt, .swap, .readAt] ∧
      ∀ i, i ∈ (after 32 ⟨4096, 64, 1⟩ ⟨fun _ => 0, []⟩ [.writeAt, .swap, .readAt]).storage.stored
        ↔ i < 4 * 32 :=
  doubleBuffered_overruns 32 (by decide) ⟨4096, 64, 1⟩ (fun _ => 0) [.writeAt, .swap, .readAt]

/-- With a depth of one, the fourth pointer is stored behind the three that there is room for. -/
theorem doubleBuffered_depth_one :
    ¬ ∀ (depth : ℕ) (rows : BufferRows) (slot : ℕ → ℕ) (accesses : List RowAccess), 1 ≤ depth →
      StoresWithin (3 * depth) depth rows slot accesses ∧
        RingAddressing depth rows ⟨slot, []⟩ accesses := by
  intro h
  have := (h 1 ⟨4096, 64, 1⟩ (fun _ => 0) [] le_rfl).1 3 (by decide)
  omega

end DoubleBufferedIndirectRows

end KleidiCV
