/-
The stack of `containers/stack.h`.

The elements live in a chain of blocks that all hold the same number of them.
`back_` points at the last element, so an empty block is told by `back_`
standing one element before the block's data.  A push enters the next block
only when the current one is full; a pop leaves a block as soon as it is empty,
unless it is the first.  Blocks are never given back before the destructor.

Nothing the operations do is assumed to be defined: dereferencing a null
block pointer, or reading or writing outside the data of a block, has no
result in the model.

* `pushBack_represents`, `popBack_represents` — one operation keeps the relation
  `Represents` between the blocks and the list of elements;
* `run_represents` — the same for a sequence of operations;
* `stack_refines_list` — what a client can see is what a list would show, and
  no block is allocated while one left behind by pops can be used;
* `destroyed_eq_range` — the destructor deletes every block once.
-/
import Mathlib.Tactic

namespace KleidiCV

/-- `Stack::Block`; elements that were never stored have no value. -/
structure Block (T : Type) where
  prev : Option ℕ
  next : Option ℕ
  data : ℕ → Option T

/-- The blocks that `new` has returned; an address is a number below `allocated`. -/
structure BlockHeap (T : Type) where
  allocated : ℕ
  block : ℕ → Block T

/-- A `T *` into a block: slot `k` is `data() - 1 + k`. -/
structure SlotPointer where
  block : ℕ
  slot : ℕ
deriving DecidableEq

namespace BlockHeap

variable {T : Type} {heap : BlockHeap T}

/-- `Block::make_block`. -/
def makeBlock (prev : Option ℕ) (heap : BlockHeap T) : ℕ × BlockHeap T :=
  let block := Function.update heap.block heap.allocated ⟨prev, none, fun _ => none⟩
  let block := match prev with
    | some prev => Function.update block prev { block prev with next := some heap.allocated }
    | none => block
  (heap.allocated, ⟨heap.allocated + 1, block⟩)

/-- Whether a pointer is to an element of a block. -/
def InData (capacity : ℕ) (heap : BlockHeap T) (p : SlotPointer) : Prop :=
  p.block < heap.allocated ∧ 1 ≤ p.slot ∧ p.slot ≤ capacity

instance (capacity : ℕ) (p : SlotPointer) : Decidable (heap.InData capacity p) :=
  inferInstanceAs (Decidable (_ ∧ _ ∧ _))

def load (capacity : ℕ) (heap : BlockHeap T) (p : SlotPointer) : Option T :=
  if heap.InData capacity p then (heap.block p.block).data (p.slot - 1) else none

def store (capacity : ℕ) (heap : BlockHeap T) (p : SlotPointer) (value : T) :
    Option (BlockHeap T) :=
  if heap.InData capacity p then
    some { heap with
      block := Function.update heap.block p.block
        { heap.block p.block with
          data := Function.update (heap.block p.block).data (p.slot - 1) (some value) } }
  else none

end BlockHeap

/-- `Stack`, with the fields of the class. -/
structure Stack (T : Type) where
  heap : BlockHeap T
  backPointer : SlotPointer
  emptyBack : SlotPointer
  backMin : SlotPointer
  backMax : SlotPointer
  currentBlock : ℕ
  firstBlock : ℕ

/-- `Stack::kBlockCapacity` for elements of `size` bytes; a block has two pointers in front. -/
def kBlockCapacity (size : ℕ) : ℕ := (2 * 4096 - 16) / size

/-- The elements of a block fit behind its two pointers, and there is room for one. -/
theorem kBlockCapacity_fits {size : ℕ} (h0 : 0 < size) (h : size ≤ 8) :
    1 ≤ kBlockCapacity size ∧ 16 + kBlockCapacity size * size ≤ 2 * 4096 := by
  refine ⟨?_, ?_⟩
  · exact (Nat.one_le_div_iff h0).mpr (by omega)
  · have := Nat.div_mul_le_self (2 * 4096 - 16) size
    unfold kBlockCapacity
    omega

namespace Stack

variable {T : Type} {capacity : ℕ} {s t : Stack T} {elements : List T}

/-- The constructor, before which no block is allocated. -/
def new (T : Type) (capacity : ℕ) : Stack T :=
  let (block, heap) := BlockHeap.makeBlock none ⟨0, fun _ => ⟨none, none, fun _ => none⟩⟩
  { heap := heap
    backPointer := ⟨block, 0⟩
    emptyBack := ⟨block, 0⟩
    backMin := ⟨block, 0⟩
    backMax := ⟨block, capacity⟩
    currentBlock := block
    firstBlock := block }

def nextBlock (capacity : ℕ) (s : Stack T) : Stack T :=
  let (current, heap) := match (s.heap.block s.currentBlock).next with
    | some next => (next, s.heap)
    | none => s.heap.makeBlock (some s.currentBlock)
  { s with
    heap := heap
    currentBlock := current
    backMin := ⟨current, 0⟩
    backMax := ⟨current, capacity⟩
    backPointer := ⟨current, 0⟩ }

def prevBlock (capacity : ℕ) (s : Stack T) : Option (Stack T) := do
  let current ← (s.heap.block s.currentBlock).prev
  return { s with
    currentBlock := current
    backMin := ⟨current, 0⟩
    backMax := ⟨current, capacity⟩
    backPointer := ⟨current, capacity⟩ }

def pushBack (capacity : ℕ) (value : T) (s : Stack T) : Option (Stack T) := do
  let s := if s.backPointer = s.backMax then nextBlock capacity s else s
  let back : SlotPointer := ⟨s.backPointer.block, s.backPointer.slot + 1⟩
  let heap ← s.heap.store capacity back value
  return { s with heap := heap, backPointer := back }

def back (capacity : ℕ) (s : Stack T) : Option T := s.heap.load capacity s.backPointer

def popBack (capacity : ℕ) (s : Stack T) : Option (Stack T) :=
  -- a pointer further before the data than `data() - 1` is not one the source may form
  if s.backPointer.slot = 0 then none else
  let s := { s with backPointer := ⟨s.backPointer.block, s.backPointer.slot - 1⟩ }
  if s.backPointer = s.backMin ∧ s.backPointer ≠ s.emptyBack then prevBlock capacity s else some s

def empty (s : Stack T) : Bool := s.backPointer = s.emptyBack

/-- The addresses the destructor deletes, starting from `block`; `steps` bounds the loop. -/
def destroyed (heap : BlockHeap T) : ℕ → Option ℕ → List ℕ
  | 0, _ | _ + 1, none => []
  | steps + 1, some block => block :: destroyed heap steps (heap.block block).next

/-! ### The blocks and the list they hold -/

/-- The links between the blocks: they form one chain in the order of allocation. -/
structure Chained (heap : BlockHeap T) : Prop where
  pos : 0 < heap.allocated
  prev : ∀ b < heap.allocated, (heap.block b).prev = if b = 0 then none else some (b - 1)
  next : ∀ b < heap.allocated,
    (heap.block b).next = if b + 1 < heap.allocated then some (b + 1) else none

/-- The blocks hold `elements`, the last one pushed at the end. -/
structure Placed (capacity : ℕ) (s : Stack T) (elements : List T) : Prop where
  chained : Chained s.heap
  emptyBack : s.emptyBack = ⟨0, 0⟩
  firstBlock : s.firstBlock = 0
  allocated : s.currentBlock < s.heap.allocated
  backMin : s.backMin = ⟨s.currentBlock, 0⟩
  backMax : s.backMax = ⟨s.currentBlock, capacity⟩
  block : s.backPointer.block = s.currentBlock
  slot : s.backPointer.slot ≤ capacity
  length : elements.length = s.currentBlock * capacity + s.backPointer.slot
  data : ∀ b k, k < capacity → b * capacity + k < elements.length →
    (s.heap.block b).data k = elements[b * capacity + k]?

/-- The relation between operations: only the first block is current while it is empty. -/
structure Represents (capacity : ℕ) (s : Stack T) (elements : List T) : Prop
    extends Placed capacity s elements where
  occupied : s.backPointer.slot = 0 → s.currentBlock = 0

theorem new_represents (capacity : ℕ) : Represents capacity (new T capacity) [] where
  chained := by
    refine ⟨Nat.one_pos, fun b hb => ?_, fun b hb => ?_⟩ <;>
    · replace hb : b < 1 := hb
      obtain rfl : b = 0 := by omega
      simp [new, BlockHeap.makeBlock]
  emptyBack := rfl
  firstBlock := rfl
  allocated := Nat.one_pos
  backMin := rfl
  backMax := rfl
  block := rfl
  slot := Nat.zero_le _
  occupied := fun _ => rfl
  length := by simp [new, BlockHeap.makeBlock]
  data := fun b k _ h => by simp at h

theorem empty_iff (h : Represents capacity s elements) :
    s.empty = true ↔ elements = [] := by
  have hl := h.length
  have hb := h.block
  constructor
  · intro he
    have he : s.backPointer = ⟨0, 0⟩ := by simpa [empty, h.emptyBack] using he
    rw [he] at hl hb
    rw [← List.length_eq_zero_iff, hl, ← hb]
    simp
  · intro he
    rw [he, List.length_nil] at hl
    have hslot : s.backPointer.slot = 0 := by omega
    have hcur := h.occupied hslot
    simp only [empty, h.emptyBack, decide_eq_true_eq]
    rw [show s.backPointer = ⟨s.backPointer.block, s.backPointer.slot⟩ from rfl, hb, hcur, hslot]

theorem slot_pos (h : Represents capacity s elements) (hne : elements ≠ []) :
    1 ≤ s.backPointer.slot := by
  by_contra hn
  have hslot : s.backPointer.slot = 0 := by omega
  have hl := h.length
  rw [hslot, h.occupied hslot] at hl
  exact hne (List.length_eq_zero_iff.mp (by omega))

theorem back_eq (h : Represents capacity s elements) (hne : elements ≠ []) :
    s.back capacity = elements.getLast? := by
  have hpos := slot_pos h hne
  have hslot := h.slot
  have hl := h.length
  have hin : s.heap.InData capacity s.backPointer :=
    ⟨by rw [h.block]; exact h.allocated, hpos, h.slot⟩
  rw [back, BlockHeap.load, if_pos hin, h.block, h.data _ _ (by omega) (by omega),
    List.getLast?_eq_getElem?]
  congr 1
  omega

/-! ### Pushing -/

/-- Entering the next block, new or left behind, keeps the chain and the elements in it. -/
theorem nextBlock_heap (h : Placed capacity s elements) :
    ∃ heap, nextBlock capacity s =
        { s with
          heap := heap
          currentBlock := s.currentBlock + 1
          backMin := ⟨s.currentBlock + 1, 0⟩
          backMax := ⟨s.currentBlock + 1, capacity⟩
          backPointer := ⟨s.currentBlock + 1, 0⟩ } ∧
      Chained heap ∧ heap.allocated = max s.heap.allocated (s.currentBlock + 2) ∧
      ∀ b < s.heap.allocated, (heap.block b).data = (s.heap.block b).data := by
  have hnext := h.chained.next s.currentBlock h.allocated
  by_cases hlast : s.currentBlock + 1 < s.heap.allocated
  · refine ⟨s.heap, ?_, h.chained, by omega, fun _ _ => rfl⟩
    rw [if_pos hlast] at hnext
    simp only [nextBlock, hnext]
  · rw [if_neg hlast] at hnext
    have hcur : s.currentBlock + 1 = s.heap.allocated := by
      have := h.allocated
      omega
    have hne : s.currentBlock ≠ s.heap.allocated := by omega
    refine ⟨(s.heap.makeBlock (some s.currentBlock)).2, ?_, ⟨by simp [BlockHeap.makeBlock], ?_, ?_⟩, ?_,
      ?_⟩
    · simp only [nextBlock, hnext]
      simp only [BlockHeap.makeBlock, hcur]
    · intro b hb
      replace hb : b < s.heap.allocated + 1 := hb
      by_cases hb1 : b = s.currentBlock
      · subst hb1
        simpa [BlockHeap.makeBlock, Function.update_apply, hne] using
          h.chained.prev s.currentBlock h.allocated
      · by_cases hb2 : b = s.heap.allocated
        · subst hb2
          simp [BlockHeap.makeBlock, Function.update_apply, Ne.symm hne]
          omega
        · simpa [BlockHeap.makeBlock, Function.update_apply, hb1, hb2] using
            h.chained.prev b (by omega)
    · intro b hb
      replace hb : b < s.heap.allocated + 1 := hb
      by_cases hb1 : b = s.currentBlock
      · subst hb1
        simp [BlockHeap.makeBlock, Function.update_apply, hcur]
      · by_cases hb2 : b = s.heap.allocated
        · subst hb2
          simp [BlockHeap.makeBlock, Function.update_apply, Ne.symm hne]
        · have := h.chained.next b (by omega)
          rw [if_pos (show b + 1 < s.heap.allocated by omega)] at this
          simp [BlockHeap.makeBlock, Function.update_apply, hb1, hb2, this]
          omega
    · simp only [BlockHeap.makeBlock]
      omega
    · intro b hb
      have hb2 : b ≠ s.heap.allocated := by omega
      by_cases hb1 : b = s.currentBlock
      · subst hb1
        simp [BlockHeap.makeBlock, hne]
      · simp [BlockHeap.makeBlock, Function.update_apply, hb1, hb2]

/-- A position is in one block and one slot only. -/
theorem position_inj {b k c j : ℕ} (hk : k < capacity) (hj : j < capacity)
    (h : b * capacity + k = c * capacity + j) : b = c ∧ k = j := by
  have hdiv := congrArg (· / capacity) h
  simp only [Nat.add_comm _ k, Nat.add_comm _ j,
    Nat.add_mul_div_right _ _ (show 0 < capacity by omega), Nat.div_eq_of_lt hk,
    Nat.div_eq_of_lt hj, Nat.zero_add] at hdiv
  subst hdiv
  exact ⟨rfl, by omega⟩

theorem nextBlock_placed (h : Placed capacity s elements) (hfull : s.backPointer.slot = capacity) :
    Placed capacity (nextBlock capacity s) elements := by
  obtain ⟨heap, heq, hchained, hallocated, hdata⟩ := nextBlock_heap h
  have hl := h.length
  rw [heq]
  exact {
    chained := hchained
    emptyBack := h.emptyBack
    firstBlock := h.firstBlock
    allocated := by simp only [hallocated]; omega
    backMin := rfl
    backMax := rfl
    block := rfl
    slot := Nat.zero_le _
    length := by simp only [hl, hfull, Nat.add_mul, Nat.one_mul, Nat.add_zero]
    data := by
      intro b k hk hlt
      -- the element is in a block that was there before
      have hb : b < s.currentBlock + 1 := by
        by_contra hn
        have := Nat.mul_le_mul_right capacity (Nat.le_of_not_lt hn)
        rw [Nat.add_mul] at this
        omega
      show (heap.block b).data k = _
      rw [hdata b (lt_of_lt_of_le hb h.allocated), h.data b k hk hlt] }

/-- Storing behind the last element appends to the list. -/
theorem store_represents (h : Placed capacity s elements)
    (hroom : s.backPointer.slot < capacity) (value : T) :
    ∃ heap, s.heap.store capacity ⟨s.backPointer.block, s.backPointer.slot + 1⟩ value = some heap ∧
      heap.allocated = s.heap.allocated ∧
      Represents capacity
        { s with heap := heap, backPointer := ⟨s.backPointer.block, s.backPointer.slot + 1⟩ }
        (elements ++ [value]) := by
  have hb := h.block
  have hl := h.length
  have hin : s.heap.InData capacity ⟨s.backPointer.block, s.backPointer.slot + 1⟩ :=
    ⟨by simpa only [hb] using h.allocated, Nat.le_add_left _ _, hroom⟩
  refine ⟨_, if_pos hin, rfl, ?_⟩
  -- the store leaves the links of every block alone
  have hlinks : ∀ b, (Function.update s.heap.block s.backPointer.block
      { s.heap.block s.backPointer.block with
        data := Function.update (s.heap.block s.backPointer.block).data
          (s.backPointer.slot + 1 - 1) (some value) } b).prev = (s.heap.block b).prev ∧
      (Function.update s.heap.block s.backPointer.block
      { s.heap.block s.backPointer.block with
        data := Function.update (s.heap.block s.backPointer.block).data
          (s.backPointer.slot + 1 - 1) (some value) } b).next = (s.heap.block b).next := by
    intro b
    by_cases hbb : b = s.backPointer.block
    · subst hbb
      simp
    · simp [hbb]
  exact {
    chained := ⟨h.chained.pos, fun b hlt => (hlinks b).1.trans (h.chained.prev b hlt),
      fun b hlt => (hlinks b).2.trans (h.chained.next b hlt)⟩
    emptyBack := h.emptyBack
    firstBlock := h.firstBlock
    allocated := h.allocated
    backMin := h.backMin
    backMax := h.backMax
    block := hb
    slot := hroom
    occupied := fun h0 => absurd h0 (Nat.succ_ne_zero _)
    length := by
      simp only [List.length_append, List.length_singleton, hl]
      omega
    data := by
      intro b k hk hlt
      rw [List.length_append, List.length_singleton] at hlt
      show (Function.update s.heap.block _ _ b).data k = _
      by_cases hlast : b * capacity + k = elements.length
      · obtain ⟨rfl, rfl⟩ := position_inj hk hroom (hlast.trans hl)
        rw [hlast, hb]
        simp
      · rw [List.getElem?_append_left (by omega), ← h.data b k hk (by omega)]
        by_cases hbb : b = s.backPointer.block
        · have hkk : k ≠ s.backPointer.slot := by
            rintro rfl
            rw [hbb, hb] at hlast
            exact hlast hl.symm
          subst hbb
          simp [hkk]
        · simp [hbb] }

theorem pushBack_represents (hc : 1 ≤ capacity) (h : Represents capacity s elements) (value : T) :
    ∃ t, s.pushBack capacity value = some t ∧ Represents capacity t (elements ++ [value]) ∧
      t.heap.allocated = max s.heap.allocated (elements.length / capacity + 1) := by
  have hl := h.length
  have hslot := h.slot
  have hback : s.backPointer = s.backMax ↔ s.backPointer.slot = capacity := by
    rw [h.backMax, ← h.block]
    exact ⟨fun he => by rw [he], fun he => by rw [← he]⟩
  by_cases hfull : s.backPointer.slot = capacity
  · obtain ⟨heap, heq, -, hallocated, -⟩ := nextBlock_heap h.toPlaced
    have hplaced := nextBlock_placed h.toPlaced hfull
    have hroom : (nextBlock capacity s).backPointer.slot < capacity := by
      rw [heq]
      exact hc
    obtain ⟨heap', hstore, halloc', hrep⟩ := store_represents hplaced hroom value
    refine ⟨_, ?_, hrep, ?_⟩
    · simp only [pushBack, if_pos (hback.mpr hfull), hstore]
      rfl
    · have hdiv : elements.length / capacity = s.currentBlock + 1 := by
        rw [hl, hfull, Nat.add_comm, Nat.add_mul_div_right _ _ hc, Nat.div_self hc, Nat.add_comm]
      show heap'.allocated = _
      rw [halloc', heq, hdiv, hallocated]
  · have hroom : s.backPointer.slot < capacity := by omega
    obtain ⟨heap', hstore, halloc', hrep⟩ := store_represents h.toPlaced hroom value
    refine ⟨_, ?_, hrep, ?_⟩
    · simp only [pushBack, if_neg (fun he => hfull (hback.mp he)), hstore]
      rfl
    · have hdiv : elements.length / capacity = s.currentBlock := by
        rw [hl, Nat.add_comm, Nat.add_mul_div_right _ _ hc, Nat.div_eq_of_lt hroom, Nat.zero_add]
      have := h.allocated
      show heap'.allocated = _
      rw [halloc', hdiv]
      omega

/-! ### Popping -/

theorem popBack_represents (hc : 1 ≤ capacity) (h : Represents capacity s elements)
    (hne : elements ≠ []) :
    ∃ t, s.popBack capacity = some t ∧ Represents capacity t elements.dropLast ∧
      t.heap = s.heap := by
  have hpos := slot_pos h hne
  have hslot := h.slot
  have hl := h.length
  have hdata : ∀ b k, k < capacity → b * capacity + k < elements.dropLast.length →
      (s.heap.block b).data k = elements.dropLast[b * capacity + k]? := by
    intro b k hk hlt
    rw [List.length_dropLast] at hlt
    rw [h.data b k hk (by omega), List.getElem?_dropLast, if_pos hlt]
  by_cases hleave : s.backPointer.slot = 1 ∧ s.currentBlock ≠ 0
  · -- the block is empty now, and there is one before it
    obtain ⟨hone, hcur⟩ := hleave
    have hprev := h.chained.prev s.currentBlock h.allocated
    rw [if_neg hcur] at hprev
    refine ⟨{ s with
        currentBlock := s.currentBlock - 1
        backMin := ⟨s.currentBlock - 1, 0⟩
        backMax := ⟨s.currentBlock - 1, capacity⟩
        backPointer := ⟨s.currentBlock - 1, capacity⟩ }, ?_, ?_, rfl⟩
    · simp only [popBack, hone, one_ne_zero, if_false, h.block, h.backMin, h.emptyBack, ne_eq,
        SlotPointer.mk.injEq, hcur, false_and, not_false_eq_true, and_self, if_true, prevBlock,
        hprev]
      rfl
    · exact {
        chained := h.chained
        emptyBack := h.emptyBack
        firstBlock := h.firstBlock
        allocated := lt_of_le_of_lt (Nat.sub_le _ _) h.allocated
        backMin := rfl
        backMax := rfl
        block := rfl
        slot := Nat.le_refl _
        length := by
          obtain ⟨c, hc'⟩ : ∃ c, s.currentBlock = c + 1 := Nat.exists_eq_succ_of_ne_zero hcur
          rw [List.length_dropLast, hl, hone, hc', Nat.add_mul]
          simp
        data := hdata
        occupied := fun h0 => by
          replace h0 : capacity = 0 := h0
          omega }
  · refine ⟨{ s with backPointer := ⟨s.backPointer.block, s.backPointer.slot - 1⟩ }, ?_, ?_, rfl⟩
    · have hstay : ¬ ((⟨s.backPointer.block, s.backPointer.slot - 1⟩ : SlotPointer) = s.backMin ∧
          (⟨s.backPointer.block, s.backPointer.slot - 1⟩ : SlotPointer) ≠ s.emptyBack) := by
        rintro ⟨hmin, hne'⟩
        rw [h.backMin, h.block, SlotPointer.mk.injEq] at hmin
        rw [h.emptyBack, h.block] at hne'
        exact hleave ⟨by omega, fun h0 => hne' (by rw [h0, hmin.2])⟩
      simp only [popBack, if_neg (show s.backPointer.slot ≠ 0 by omega), if_neg hstay]
    · exact {
        chained := h.chained
        emptyBack := h.emptyBack
        firstBlock := h.firstBlock
        allocated := h.allocated
        backMin := h.backMin
        backMax := h.backMax
        block := h.block
        slot := le_trans (Nat.sub_le _ _) hslot
        length := by
          rw [List.length_dropLast, hl]
          show _ = s.currentBlock * capacity + (s.backPointer.slot - 1)
          omega
        data := hdata
        occupied := fun h0 => by
          replace h0 : s.backPointer.slot - 1 = 0 := h0
          by_contra hcur
          exact hleave ⟨by omega, hcur⟩ }

/-! ### Sequences of operations -/

/-- The operations of a client. -/
inductive Operation (T : Type)
  | pushBack (value : T)
  | back
  | popBack
  | empty

/-- What a client is given back. -/
inductive Answer (T : Type)
  | done
  | element (value : T)
  | flag (isEmpty : Bool)

/-- An operation on the stack of the source. -/
def perform (capacity : ℕ) (s : Stack T) : Operation T → Option (Answer T × Stack T)
  | .pushBack value => (s.pushBack capacity value).map (Answer.done, ·)
  | .back => (s.back capacity).map (Answer.element ·, s)
  | .popBack => (s.popBack capacity).map (Answer.done, ·)
  | .empty => some (.flag s.empty, s)

/-- An operation on a list, which has a result when the source allows the call. -/
def performOnList (elements : List T) : Operation T → Option (Answer T × List T)
  | .pushBack value => some (.done, elements ++ [value])
  | .back => elements.getLast?.map (Answer.element ·, elements)
  | .popBack => if elements.isEmpty then none else some (.done, elements.dropLast)
  | .empty => some (.flag elements.isEmpty, elements)

/-- A sequence of operations. -/
def runWith {σ : Type} (step : σ → Operation T → Option (Answer T × σ)) :
    σ → List (Operation T) → Option (List (Answer T) × σ)
  | s, [] => some ([], s)
  | s, operation :: operations => do
      let (answer, s) ← step s operation
      let (answers, s) ← runWith step s operations
      return (answer :: answers, s)

def run (capacity : ℕ) : Stack T → List (Operation T) → Option (List (Answer T) × Stack T) :=
  runWith (perform capacity)

def runOnList : List T → List (Operation T) → Option (List (Answer T) × List T) :=
  runWith performOnList

/-- The most elements there are at once, starting from `held`. -/
def mostHeld (held : ℕ) : List (Operation T) → ℕ
  | [] => held
  | .pushBack _ :: operations => mostHeld (held + 1) operations
  | .popBack :: operations => max held (mostHeld (held - 1) operations)
  | .back :: operations | .empty :: operations => mostHeld held operations

def pushes (operations : List (Operation T)) : ℕ :=
  operations.countP fun | .pushBack _ => true | _ => false

def pops (operations : List (Operation T)) : ℕ :=
  operations.countP fun | .popBack => true | _ => false

theorem le_mostHeld (operations : List (Operation T)) (held : ℕ) :
    held ≤ mostHeld held operations := by
  induction operations generalizing held with
  | nil => exact le_rfl
  | cons operation operations ih =>
      cases operation with
      | pushBack value => exact le_trans (Nat.le_succ held) (ih (held + 1))
      | back => exact ih held
      | popBack => exact le_max_left _ _
      | empty => exact ih held

/-- The number of blocks `held` elements take. -/
def blocksFor (capacity held : ℕ) : ℕ := (held + capacity - 1) / capacity

theorem blocksFor_succ (hc : 1 ≤ capacity) (held : ℕ) :
    blocksFor capacity (held + 1) = held / capacity + 1 := by
  rw [blocksFor, show held + 1 + capacity - 1 = held + capacity by omega, Nat.add_div_right _ hc]

theorem blocksFor_mono (capacity : ℕ) : Monotone (blocksFor capacity) :=
  fun _ _ h => Nat.div_le_div_right (by omega)

theorem mostHeld_cons {operation : Operation T} {answer : Answer T} {after : List T}
    (ha : performOnList elements operation = some (answer, after))
    (operations : List (Operation T)) :
    mostHeld elements.length (operation :: operations)
      = max elements.length (mostHeld after.length operations) := by
  cases operation with
  | pushBack value =>
      obtain ⟨rfl, rfl⟩ : Answer.done = answer ∧ elements ++ [value] = after := by
        simpa [performOnList] using ha
      have := le_mostHeld operations (elements.length + 1)
      rw [List.length_append, List.length_singleton]
      exact (max_eq_right (le_trans (Nat.le_succ _) this)).symm
  | back =>
      obtain ⟨value, hv, rfl, rfl⟩ :
          ∃ value, elements.getLast? = some value ∧ Answer.element value = answer ∧
            elements = after := by
        simpa [performOnList] using ha
      exact (max_eq_right (le_mostHeld operations _)).symm
  | popBack =>
      obtain ⟨hne, rfl, rfl⟩ :
          elements ≠ [] ∧ Answer.done = answer ∧ elements.dropLast = after := by
        simpa [performOnList] using ha
      rw [List.length_dropLast]
      rfl
  | empty =>
      obtain ⟨rfl, rfl⟩ : Answer.flag elements.isEmpty = answer ∧ elements = after := by
        simpa [performOnList] using ha
      exact (max_eq_right (le_mostHeld operations _)).symm

/-- One operation on the blocks answers as it does on the list. -/
theorem perform_represents (hc : 1 ≤ capacity) (h : Represents capacity s elements)
    (hblocks : blocksFor capacity elements.length ≤ s.heap.allocated)
    {operation : Operation T} {answer : Answer T} {after : List T}
    (ha : performOnList elements operation = some (answer, after)) :
    ∃ t, perform capacity s operation = some (answer, t) ∧ Represents capacity t after ∧
      t.heap.allocated = max s.heap.allocated (blocksFor capacity after.length) := by
  cases operation with
  | pushBack value =>
      obtain ⟨rfl, rfl⟩ : Answer.done = answer ∧ elements ++ [value] = after := by
        simpa [performOnList] using ha
      obtain ⟨t, ht, hrep, hallocated⟩ := pushBack_represents hc h value
      refine ⟨t, by simp only [perform, ht, Option.map_some], hrep, ?_⟩
      rw [hallocated, List.length_append, List.length_singleton, blocksFor_succ hc]
  | back =>
      obtain ⟨value, hv, rfl, rfl⟩ :
          ∃ value, elements.getLast? = some value ∧ Answer.element value = answer ∧
            elements = after := by
        simpa [performOnList] using ha
      have hne : elements ≠ [] := by
        rintro rfl
        simp at hv
      refine ⟨s, ?_, h, (max_eq_left hblocks).symm⟩
      simp only [perform, back_eq h hne, hv, Option.map_some]
  | popBack =>
      obtain ⟨hne, rfl, rfl⟩ :
          elements ≠ [] ∧ Answer.done = answer ∧ elements.dropLast = after := by
        simpa [performOnList] using ha
      obtain ⟨t, ht, hrep, hheap⟩ := popBack_represents hc h hne
      refine ⟨t, by simp only [perform, ht, Option.map_some], hrep, ?_⟩
      have hfewer : elements.dropLast.length ≤ elements.length := by simp
      rw [hheap, max_eq_left (le_trans (blocksFor_mono capacity hfewer) hblocks)]
  | empty =>
      obtain ⟨rfl, rfl⟩ : Answer.flag elements.isEmpty = answer ∧ elements = after := by
        simpa [performOnList] using ha
      have hflag : s.empty = elements.isEmpty := by
        rw [Bool.eq_iff_iff, empty_iff h, List.isEmpty_iff]
      exact ⟨s, by simp only [perform, hflag], h, (max_eq_left hblocks).symm⟩

theorem runWith_cons {σ : Type} {step : σ → Operation T → Option (Answer T × σ)} {s t : σ}
    {operation : Operation T} {operations : List (Operation T)} {answers : List (Answer T)} :
    runWith step s (operation :: operations) = some (answers, t) ↔
      ∃ answer middle rest, step s operation = some (answer, middle) ∧
        runWith step middle operations = some (rest, t) ∧ answer :: rest = answers := by
  simp only [runWith, Option.bind_eq_bind, Option.bind_eq_some_iff, Option.pure_def,
    Option.some.injEq, Prod.mk.injEq, Prod.exists]
  constructor
  · rintro ⟨answer, middle, hstep, rest, last, hrest, hanswers, rfl⟩
    exact ⟨answer, middle, rest, hstep, hrest, hanswers⟩
  · rintro ⟨answer, middle, rest, hstep, hrest, hanswers⟩
    exact ⟨answer, middle, hstep, rest, t, hrest, hanswers, rfl⟩

/-- A sequence of operations answers as it does on the list, and allocates only the blocks
that the most elements held at once need. -/
theorem run_represents (hc : 1 ≤ capacity) (operations : List (Operation T)) :
    ∀ {s : Stack T} {elements : List T} {answers : List (Answer T)} {after : List T},
      Represents capacity s elements → blocksFor capacity elements.length ≤ s.heap.allocated →
      runOnList elements operations = some (answers, after) →
      ∃ t, run capacity s operations = some (answers, t) ∧ Represents capacity t after ∧
        t.heap.allocated =
          max s.heap.allocated (blocksFor capacity (mostHeld elements.length operations)) := by
  induction operations with
  | nil =>
      intro s elements answers after h hblocks hrun
      obtain ⟨rfl, rfl⟩ : [] = answers ∧ elements = after := by
        simpa [runOnList, runWith] using hrun
      exact ⟨s, rfl, h, (max_eq_left hblocks).symm⟩
  | cons operation operations ih =>
      intro s elements answers after h hblocks hrun
      obtain ⟨answer, middle, rest, hstep, hrest, rfl⟩ := runWith_cons.mp hrun
      obtain ⟨t, ht, hrep, hallocated⟩ := perform_represents hc h hblocks hstep
      have hblocks' : blocksFor capacity middle.length ≤ t.heap.allocated := by
        rw [hallocated]
        exact le_max_right _ _
      obtain ⟨u, hu, hrep', hallocated'⟩ := ih hrep hblocks' hrest
      refine ⟨u, runWith_cons.mpr ⟨answer, t, rest, ht, hu, rfl⟩, hrep', ?_⟩
      have hmost := blocksFor_mono capacity (le_mostHeld operations middle.length)
      rw [hallocated', hallocated, mostHeld_cons hstep, (blocksFor_mono capacity).map_max,
        max_assoc, max_eq_right hmost, ← max_assoc, max_eq_left hblocks]

/-- On a list, every push that was not undone by a pop is still there. -/
theorem length_add_pops (operations : List (Operation T)) :
    ∀ {elements : List T} {answers : List (Answer T)} {after : List T},
      runOnList elements operations = some (answers, after) →
      after.length + pops operations = elements.length + pushes operations := by
  induction operations with
  | nil =>
      intro elements answers after hrun
      obtain ⟨rfl, rfl⟩ : [] = answers ∧ elements = after := by
        simpa [runOnList, runWith] using hrun
      rfl
  | cons operation operations ih =>
      intro elements answers after hrun
      obtain ⟨answer, middle, rest, hstep, hrest, -⟩ := runWith_cons.mp hrun
      have hlen := ih hrest
      unfold pushes pops at hlen ⊢
      cases operation with
      | pushBack value =>
          obtain ⟨-, rfl⟩ : Answer.done = answer ∧ elements ++ [value] = middle := by
            simpa [performOnList] using hstep
          simp only [List.length_append, List.length_singleton] at hlen
          simp only [List.countP_cons]
          simp
          omega
      | back =>
          obtain ⟨_, -, -, rfl⟩ : ∃ value, elements.getLast? = some value ∧
              Answer.element value = answer ∧ elements = middle := by
            simpa [performOnList] using hstep
          simpa using hlen
      | popBack =>
          obtain ⟨hne, -, rfl⟩ :
              elements ≠ [] ∧ Answer.done = answer ∧ elements.dropLast = middle := by
            simpa [performOnList] using hstep
          have := List.length_pos_iff.mpr hne
          rw [List.length_dropLast] at hlen
          simp only [List.countP_cons]
          simp
          omega
      | empty =>
          obtain ⟨-, rfl⟩ : Answer.flag elements.isEmpty = answer ∧ elements = middle := by
            simpa [performOnList] using hstep
          simpa using hlen

/-- **The stack is a list**: whatever its clients do, as long as they ask for the last element
and remove it only when there is one, they are answered as by a list, the stack is empty when
as many elements were removed as were pushed, and the blocks allocated are no more than the
most elements held at once need, so that blocks left behind are used again. -/
theorem stack_refines_list (hc : 1 ≤ capacity) (operations : List (Operation T))
    {answers : List (Answer T)} {after : List T}
    (legal : runOnList [] operations = some (answers, after)) :
    ∃ t, run capacity (new T capacity) operations = some (answers, t) ∧
      (t.empty = true ↔ pops operations = pushes operations) ∧
      (after ≠ [] → t.back capacity = after.getLast?) ∧
      t.heap.allocated = max 1 (blocksFor capacity (mostHeld 0 operations)) := by
  have hfirst : blocksFor capacity ([] : List T).length ≤ (new T capacity).heap.allocated := by
    have : blocksFor capacity 0 = 0 := Nat.div_eq_of_lt (by omega)
    rw [List.length_nil, this]
    exact Nat.zero_le _
  obtain ⟨t, ht, hrep, hallocated⟩ :=
    run_represents hc operations (new_represents capacity) hfirst legal
  have hlen := length_add_pops operations legal
  refine ⟨t, ht, ?_, back_eq hrep, hallocated⟩
  rw [empty_iff hrep, ← List.length_eq_zero_iff]
  rw [List.length_nil] at hlen
  omega

/-- Three pushes over blocks of two elements, and a block used again. -/
theorem stack_refines_list_small :
    ∃ t, run 2 (new ℕ 2) [.pushBack 5, .pushBack 6, .pushBack 7, .popBack, .pushBack 8, .back]
        = some ([.done, .done, .done, .done, .done, .element 8], t) ∧
      (t.empty = true ↔ 1 = 4) ∧ ([5, 6, 8] ≠ [] → t.back 2 = some 8) ∧ t.heap.allocated = 2 :=
  stack_refines_list (T := ℕ) (by decide) _ rfl

/-! ### The destructor -/

theorem destroyed_from {heap : BlockHeap T} (h : Chained heap) :
    ∀ steps b, b + steps = heap.allocated →
      destroyed heap (steps + 1) (if b < heap.allocated then some b else none)
        = List.range' b steps := by
  intro steps
  induction steps with
  | zero =>
      intro b hb
      rw [if_neg (by omega)]
      rfl
  | succ steps ih =>
      intro b hb
      have hlt : b < heap.allocated := by omega
      rw [if_pos hlt, destroyed, h.next b hlt, ih (b + 1) (by omega), List.range'_succ]

/-- The destructor deletes every block once and then meets the end of the chain. -/
theorem destroyed_eq_range (h : Represents capacity s elements) :
    destroyed s.heap (s.heap.allocated + 1) (some s.firstBlock)
      = List.range s.heap.allocated := by
  have := destroyed_from h.chained s.heap.allocated 0 (by omega)
  rw [if_pos h.chained.pos] at this
  rw [h.firstBlock, this, List.range_eq_range']

end Stack

end KleidiCV
