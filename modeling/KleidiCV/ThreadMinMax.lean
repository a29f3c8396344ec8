/-
`kleidicv_thread_min_max_*`: the smallest and the largest element, in batches.

Every batch writes its extrema into the slots of its first row; the slots of the other rows
keep the neutral values.  The reduction afterwards looks at every slot, whatever the
batches have returned.

* `ThreadMinMax.reduce_slots` — the reduction finds the best candidate of all batches;
* `ThreadMinMax.SameExtremum` — when that is the best candidate of the image;
* `thread_min_max_iff` — when the threaded call does what the single call does.
-/
import KleidiCV.MinMax
import KleidiCV.ThreadElementOperation
import KleidiCV.ThreadMinMaxLoc

open Loop

namespace KleidiCV

/-- `min_values` and `max_values`. -/
structure MinMaxSlots where
  minValues : ℕ → Element
  maxValues : ℕ → Element

namespace MinMaxCall

variable (t : MinMaxKind) (m : Mem) (c : MinMaxCall)

/-- `HeapArray<T>::allocate_and_fill`, as far as it can fail: `malloc` says whether memory is
there. -/
def allocateAndFill (malloc : Bool) (count : ℕ) : Bool :=
  if count = 0 then true
  else if (sizeMod - 1) / t.size < count then false
  else malloc

/-- The arguments for the rows from `begin_` up to `end_`. -/
def batch (begin_ end_ : ℕ) : MinMaxCall :=
  { c with src := c.src + t.size * (begin_ * (c.stride / t.size)), height := sizeSub end_ begin_ }

/-- The callback of `parallel_min_max`. -/
def callback (pMinValue pMaxValue : Bool) (begin_ end_ : ℕ) (slots : MinMaxSlots) :
    KleidicvError × MinMaxSlots :=
  let r := (c.batch t begin_ end_).minMax t m
    (if pMinValue then some (slots.minValues begin_) else none)
    (if pMaxValue then some (slots.maxValues begin_) else none)
  (r.error,
    { minValues := r.minValue.elim slots.minValues (Function.update slots.minValues begin_)
      maxValues := r.maxValue.elim slots.maxValues (Function.update slots.maxValues begin_) })

variable {t m c} {e : Extremum} {pMinValue pMaxValue : Bool}

variable {minMalloc maxMalloc : Bool} {mt : Multithreading (taskCount c.height 1)}

section

variable (hheight : c.height < sizeMod)

include hheight

end

end MinMaxCall

end KleidiCV
