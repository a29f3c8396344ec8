/-
Linux's list of online CPUs.

`read_online_cpu_ids` reads a file such as "0-3,8" in two passes over the bytes
of a buffer.  The first pass checks every item and counts the ids, then an array
of that size is allocated, and the second pass fills it.

The file is a list of bytes, and the buffer is accessed by index as in the
source.  `std::from_chars` is described by what it does to the characters it is
given.  Allocations are assumed to succeed; a store behind the end of the array
makes the result `undefined`.

* `ItemText`, `CpuListText` — the format, as a grammar;
* `readCpuRange_iff` — one item;
* `countIds_iff` — the first pass accepts the lists of the grammar;
* `fillIds_spec` — the second pass fills the array exactly;
* `readOnlineCpuIds_exact` — what is accepted, and the ids that are returned.
-/
import KleidiCV.Utils

namespace KleidiCV

namespace OnlineCpuIds

def kCpuListCapacity : ℕ := 512

def comma : UInt8 := 44
def minus : UInt8 := 45
def newline : UInt8 := 10

/-- `read_raw_file`: a file that fills the whole buffer is rejected. -/
def readRawFile (file : List UInt8) (capacity : ℕ) : Option (List UInt8) :=
  if file.length < capacity then some file else none

def isDigit (c : UInt8) : Bool := 48 ≤ c && c ≤ 57

/-- The value of decimal digits, most significant first. -/
def decimalValue (digits : List UInt8) : ℕ :=
  digits.foldl (fun value c => 10 * value + (c.toNat - 48)) 0

/-- `std::from_chars` for a `size_t`: how many characters were used, and the value.  There is
no result when there is no digit, or when the value of the digits does not fit. -/
def fromChars (range : List UInt8) : Option (ℕ × ℕ) :=
  let digits := range.takeWhile isDigit
  if digits = [] then none
  else if sizeMod ≤ decimalValue digits then none
  else some (digits.length, decimalValue digits)

/-- The characters of the buffer from index `first` to before index `last`. -/
def slice (buffer : List UInt8) (first last : ℕ) : List UInt8 := (buffer.take last).drop first

def findNextComma (buffer : List UInt8) (length start : ℕ) : Option ℕ :=
  if length < start then none
  else (List.range' start (length - start)).find? fun index => buffer[index]? = some comma

structure CpuIdRange where
  firstId : ℕ
  cpuCount : ℕ
  deriving DecidableEq

def readCpuRange (buffer : List UInt8) (first last : ℕ) : Option CpuIdRange :=
  if last ≤ first then none else
  match fromChars (slice buffer first last) with
  | none => none
  | some (used, firstId) =>
    let ptr := first + used
    if ptr = last then some ⟨firstId, 1⟩
    else if buffer[ptr]? ≠ some minus then none
    else match fromChars (slice buffer (ptr + 1) last) with
      | none => none
      | some (used, secondId) =>
        if ptr + 1 + used ≠ last ∨ secondId ≤ firstId then none
        else if secondId - firstId = sizeMod - 1 then none
        else some ⟨firstId, secondId - firstId + 1⟩

/-- Where the next item starts. -/
def nextBegin (buffer : List UInt8) (length first : ℕ) : ℕ :=
  match findNextComma buffer length first with
  | some commaIndex => commaIndex + 1
  | none => length

theorem findNextComma_mem {buffer : List UInt8} {length start index : ℕ}
    (h : findNextComma buffer length start = some index) :
    start ≤ index ∧ index < length ∧ buffer[index]? = some comma := by
  unfold findNextComma at h
  split at h
  · cases h
  · have hmem := List.mem_range'_1.mp (List.mem_of_find?_eq_some h)
    have hp := List.find?_some h
    exact ⟨hmem.1, by omega, by simpa using hp⟩

theorem lt_nextBegin {buffer : List UInt8} {length first : ℕ} (h : first < length) :
    first < nextBegin buffer length first := by
  unfold nextBegin
  cases hc : findNextComma buffer length first with
  | none => exact h
  | some index =>
      have := findNextComma_mem hc
      simp only
      omega

/-- The first pass: the number of ids, unless an item is malformed. -/
def countIds (buffer : List UInt8) (length first cpuCount : ℕ) : Option ℕ :=
  if first < length then
    let last := (findNextComma buffer length first).getD length
    match readCpuRange buffer first last with
    | none => none
    | some range =>
      if sizeMod - 1 - range.cpuCount < cpuCount then none
      else countIds buffer length (nextBegin buffer length first)
        ((cpuCount + range.cpuCount) % sizeMod)
  else some cpuCount
termination_by length - first
decreasing_by
  have : first < nextBegin buffer length first := lt_nextBegin (by assumption)
  omega

/-- What `read_online_cpu_ids` returns; an entry that was never stored has no value. -/
inductive Result
  | nullopt
  | undefined
  | ids (entries : List (Option ℕ))
  deriving DecidableEq

/-- `result[i] = id`, which is not defined behind the end of the array. -/
def store (i id : ℕ) (entries : List (Option ℕ)) : Option (List (Option ℕ)) :=
  if i < entries.length then some (entries.set i (some id)) else none

/-- The ids of one range, stored from index `i` on. -/
def fillRange (firstId i : ℕ) : ℕ → List (Option ℕ) → Option (List (Option ℕ))
  | 0, entries => some entries
  | j + 1, entries => do
      let entries ← fillRange firstId i j entries
      store (i + j) ((firstId + j) % sizeMod) entries

/-- The second pass. -/
def fillIds (buffer : List UInt8) (length first i : ℕ) (entries : List (Option ℕ)) : Result :=
  if first < length then
    let last := (findNextComma buffer length first).getD length
    match readCpuRange buffer first last with
    | none => .nullopt
    | some range =>
      match fillRange range.firstId i range.cpuCount entries with
      | none => .undefined
      | some entries =>
        fillIds buffer length (nextBegin buffer length first) (i + range.cpuCount) entries
  else .ids entries
termination_by length - first
decreasing_by
  have : first < nextBegin buffer length first := lt_nextBegin (by assumption)
  omega

def readOnlineCpuIds (file : List UInt8) : Result :=
  match readRawFile file kCpuListCapacity with
  | none => .nullopt
  | some buffer =>
    if buffer.length = 0 then .nullopt else
    let length := if buffer[buffer.length - 1]? = some newline then buffer.length - 1
      else buffer.length
    if length = 0 ∨ buffer[length - 1]? = some comma then .nullopt else
    match countIds buffer length 0 0 with
    | none => .nullopt
    | some cpuCount => fillIds buffer length 0 0 (List.replicate cpuCount none)

/-! ### The format -/

/-- A decimal number that fits a `size_t`. -/
structure NumberText (text : List UInt8) (n : ℕ) : Prop where
  nonempty : text ≠ []
  digits : ∀ c ∈ text, isDigit c
  value : decimalValue text = n
  fits : n < sizeMod

/-- An item: a number, or a range that ends above its start and is not all of `size_t`. -/
inductive ItemText : List UInt8 → CpuIdRange → Prop
  | number {text : List UInt8} {n : ℕ} : NumberText text n → ItemText text ⟨n, 1⟩
  | range {text text' : List UInt8} {a b : ℕ} : NumberText text a → NumberText text' b → a < b →
      b - a ≠ sizeMod - 1 → ItemText (text ++ minus :: text') ⟨a, b - a + 1⟩

/-- Items with commas between them. -/
inductive CpuListText : List UInt8 → List CpuIdRange → Prop
  | one {text : List UInt8} {range : CpuIdRange} : ItemText text range → CpuListText text [range]
  | more {text rest : List UInt8} {range : CpuIdRange} {ranges : List CpuIdRange} :
      ItemText text range → CpuListText rest ranges →
      CpuListText (text ++ comma :: rest) (range :: ranges)

/-- The ids of a range in order. -/
def CpuIdRange.ids (range : CpuIdRange) : List ℕ := List.range' range.firstId range.cpuCount

/-- The number of ids of all items. -/
def totalCount (ranges : List CpuIdRange) : ℕ := (ranges.map CpuIdRange.cpuCount).sum

/-! ### Pieces of the buffer -/

variable {buffer : List UInt8} {first last length : ℕ}

theorem slice_eq_nil (h : last ≤ first) : slice buffer first last = [] := by
  rw [slice, List.drop_eq_nil_iff, List.length_take]
  omega

theorem slice_length (hlast : last ≤ buffer.length) :
    (slice buffer first last).length = last - first := by
  rw [slice, List.length_drop, List.length_take, min_eq_left hlast]

theorem slice_append {middle : ℕ} (h1 : first ≤ middle) (h2 : middle ≤ last) :
    slice buffer first last = slice buffer first middle ++ slice buffer middle last := by
  have hsplit := List.take_append_drop (middle - first) (slice buffer first last)
  rw [← hsplit]
  congr 1
  · rw [slice, slice, List.take_drop, List.take_take]
    congr 2
    omega
  · rw [slice, slice, List.drop_drop]
    congr 1
    omega

theorem slice_cons {c : UInt8} (h : first < last) (hc : buffer[first]? = some c) :
    slice buffer first last = c :: slice buffer (first + 1) last := by
  have hget : (buffer.take last)[first]? = some c := by
    rw [List.getElem?_take, if_pos h, hc]
  obtain ⟨hlt, hval⟩ := List.getElem?_eq_some_iff.mp hget
  rw [slice, slice, List.drop_eq_getElem_cons hlt, hval]

theorem slice_drop (k : ℕ) :
    (slice buffer first last).drop k = slice buffer (first + k) last := by
  rw [slice, slice, List.drop_drop]

theorem slice_getElem? {k : ℕ} (h : first + k < last) :
    (slice buffer first last)[k]? = buffer[first + k]? := by
  rw [slice, List.getElem?_drop, List.getElem?_take, if_pos h]

theorem mem_slice {c : UInt8} (h : c ∈ slice buffer first last) :
    ∃ index, first ≤ index ∧ index < last ∧ buffer[index]? = some c := by
  obtain ⟨k, hk⟩ := List.getElem?_of_mem h
  rw [slice, List.getElem?_drop] at hk
  by_cases hlt : first + k < last
  · rw [List.getElem?_take, if_pos hlt] at hk
    exact ⟨first + k, by omega, hlt, hk⟩
  · rw [List.getElem?_take, if_neg hlt] at hk
    cases hk

/-! ### One item -/

/-- The number that `from_chars` finds is the longest one in front. -/
theorem fromChars_iff {range : List UInt8} {used value : ℕ} :
    fromChars range = some (used, value) ↔ ∃ text rest, range = text ++ rest ∧
      NumberText text value ∧ used = text.length ∧ ∀ c, rest.head? = some c → isDigit c = false := by
  constructor
  · intro h
    unfold fromChars at h
    simp only at h
    split at h
    · cases h
    · rename_i hne
      split at h
      · cases h
      · rename_i hfits
        obtain ⟨rfl, rfl⟩ := Prod.mk.injEq .. ▸ Option.some.inj h
        refine ⟨range.takeWhile isDigit, range.dropWhile isDigit,
          (List.takeWhile_append_dropWhile).symm,
          ⟨hne, fun c hc => List.all_eq_true.mp List.all_takeWhile c hc, rfl, by omega⟩, rfl, fun c hc => ?_⟩
        have := List.head?_dropWhile_not isDigit range
        rw [hc] at this
        simpa using this
  · rintro ⟨text, rest, rfl, hnumber, rfl, hrest⟩
    have htake : (text ++ rest).takeWhile isDigit = text := by
      rw [List.takeWhile_append_of_pos hnumber.digits]
      cases rest with
      | nil => simp
      | cons c rest =>
          have := hrest c rfl
          simp [this]
    have hfits := hnumber.fits
    rw [← hnumber.value] at hfits
    simp only [fromChars, htake, if_neg hnumber.nonempty, if_neg (Nat.not_le.mpr hfits)]
    rw [hnumber.value]

theorem NumberText.minus_notMem {text : List UInt8} {n : ℕ} (h : NumberText text n) :
    minus ∉ text := by
  intro hm
  have := h.digits minus hm
  revert this
  decide

/-- A number that the range starts with, and what is behind it. -/
theorem fromChars_slice {used value : ℕ} (hlast : last ≤ buffer.length)
    (h : fromChars (slice buffer first last) = some (used, value)) :
    first + used ≤ last ∧ NumberText (slice buffer first (first + used)) value ∧
      slice buffer first last
        = slice buffer first (first + used) ++ slice buffer (first + used) last := by
  obtain ⟨text, rest, heq, hnumber, rfl, -⟩ := fromChars_iff.mp h
  have hlength := congrArg List.length heq
  rw [slice_length hlast, List.length_append] at hlength
  have hpos := List.length_pos_iff.mpr hnumber.nonempty
  have hle : first + text.length ≤ last := by omega
  have hsplit : slice buffer first last
      = slice buffer first (first + text.length) ++ slice buffer (first + text.length) last :=
    slice_append (Nat.le_add_right first text.length) hle
  have htext : slice buffer first (first + text.length) = text := by
    refine (List.append_inj (hsplit.symm.trans heq) ?_).1
    rw [slice_length (hle.trans hlast), Nat.add_sub_cancel_left]
  rw [htext]
  rw [htext] at hsplit
  exact ⟨hle, hnumber, hsplit⟩

theorem readCpuRange_sound {range : CpuIdRange} (hlast : last ≤ buffer.length)
    (h : readCpuRange buffer first last = some range) :
    ItemText (slice buffer first last) range := by
  unfold readCpuRange at h
  split at h
  · cases h
  split at h
  · cases h
  rename_i hlt _ used firstId hfirst
  obtain ⟨hle, hnumber, hsplit⟩ := fromChars_slice hlast hfirst
  simp only at h
  split at h
  · -- one number up to the end
    rename_i hend
    obtain rfl := Option.some.inj h
    rw [← hend]
    exact .number hnumber
  split at h
  · cases h
  rename_i hend hminus
  split at h
  · cases h
  rename_i _ used' secondId hsecond
  obtain ⟨hle', hnumber', -⟩ := fromChars_slice hlast hsecond
  split at h
  · cases h
  rename_i hbounds
  split at h
  · cases h
  rename_i hspan
  obtain ⟨hend', hless⟩ : first + used + 1 + used' = last ∧ firstId < secondId := by omega
  obtain rfl := Option.some.inj h
  rw [hsplit, slice_cons (by omega) (not_not.mp hminus), ← hend']
  exact .range hnumber hnumber' hless hspan

theorem readCpuRange_complete {range : CpuIdRange} (hlast : last ≤ buffer.length)
    (h : ItemText (slice buffer first last) range) :
    readCpuRange buffer first last = some range := by
  generalize htext : slice buffer first last = text at h
  have hlength : (slice buffer first last).length = last - first := slice_length hlast
  rw [htext] at hlength
  cases h with
  | @number _ n hnumber =>
      have hpos := List.length_pos_iff.mpr hnumber.nonempty
      have hchars : fromChars text = some (text.length, n) :=
        fromChars_iff.mpr ⟨text, [], by simp, hnumber, rfl, by simp⟩
      simp only [readCpuRange, if_neg (show ¬ last ≤ first by omega), htext, hchars,
        if_pos (show first + text.length = last by omega)]
  | @range text text' a b hnumber hnumber' hless hspan =>
      rw [List.length_append, List.length_cons] at hlength
      have hchars : fromChars (text ++ minus :: text') = some (text.length, a) :=
        fromChars_iff.mpr ⟨text, minus :: text', rfl, hnumber, rfl, fun c hc => by
          obtain rfl := Option.some.inj hc
          decide⟩
      have hminus : buffer[first + text.length]? = some minus := by
        rw [← slice_getElem? (show first + text.length < last by omega), htext]
        simp
      have htail : slice buffer (first + text.length + 1) last = text' := by
        rw [Nat.add_assoc, ← slice_drop, htext]
        simp
      have hchars' : fromChars text' = some (text'.length, b) :=
        fromChars_iff.mpr ⟨text', [], by simp, hnumber', rfl, by simp⟩
      simp only [readCpuRange, if_neg (show ¬ last ≤ first by omega), htext, hchars,
        if_neg (show ¬ first + text.length = last by omega), hminus, ne_eq, not_true_eq_false,
        if_false, htail, hchars', if_neg hspan]
      rw [if_neg (by omega)]

/-- One item. -/
theorem readCpuRange_iff {range : CpuIdRange} (hlast : last ≤ buffer.length) :
    readCpuRange buffer first last = some range ↔ ItemText (slice buffer first last) range :=
  ⟨readCpuRange_sound hlast, readCpuRange_complete hlast⟩

/-! ### The first pass -/

/-- An item has digits and at most a minus. -/
theorem ItemText.notMem {text : List UInt8} {range : CpuIdRange} {c : UInt8}
    (h : ItemText text range) (hdigit : isDigit c = false) (hminus : c ≠ minus) : c ∉ text := by
  have hdigits : ∀ {t : List UInt8} {n : ℕ}, NumberText t n → c ∉ t := by
    intro t n ht hm
    have := ht.digits c hm
    rw [hdigit] at this
    cases this
  cases h with
  | number hnumber => exact hdigits hnumber
  | range hnumber hnumber' _ _ =>
      rw [List.mem_append, List.mem_cons]
      rintro (h | h | h)
      · exact hdigits hnumber h
      · exact hminus h
      · exact hdigits hnumber' h

theorem ItemText.comma_notMem {text : List UInt8} {range : CpuIdRange}
    (h : ItemText text range) : comma ∉ text :=
  h.notMem (by decide) (by decide)

theorem ItemText.nonempty {text : List UInt8} {range : CpuIdRange} (h : ItemText text range) :
    text ≠ [] := by
  cases h with
  | number hnumber => exact hnumber.nonempty
  | range => simp

theorem ItemText.cpuCount_lt {text : List UInt8} {range : CpuIdRange} (h : ItemText text range) :
    range.cpuCount ≤ sizeMod - 1 ∧ range.firstId + range.cpuCount ≤ sizeMod := by
  cases h with
  | number hnumber =>
      have := hnumber.fits
      exact ⟨by simp [sizeMod], by simp only; omega⟩
  | range hnumber hnumber' hless hspan =>
      have := hnumber'.fits
      refine ⟨?_, ?_⟩ <;> simp only <;> omega

theorem CpuListText.nonempty {text : List UInt8} {ranges : List CpuIdRange}
    (h : CpuListText text ranges) : text ≠ [] := by
  cases h with
  | one hitem => exact hitem.nonempty
  | more => simp

/-- A text without a comma is one item. -/
theorem cpuListText_iff_one {text : List UInt8} {ranges : List CpuIdRange} (hno : comma ∉ text) :
    CpuListText text ranges ↔ ∃ range, ItemText text range ∧ ranges = [range] := by
  constructor
  · intro h
    cases h with
    | one hitem => exact ⟨_, hitem, rfl⟩
    | more => simp at hno
  · rintro ⟨range, hitem, rfl⟩
    exact .one hitem

/-- A text is an item up to its first comma, and a list behind it. -/
theorem cpuListText_iff_more {text rest : List UInt8} {ranges : List CpuIdRange}
    (hno : comma ∉ text) : CpuListText (text ++ comma :: rest) ranges ↔
      ∃ range ranges', ItemText text range ∧ CpuListText rest ranges' ∧
        ranges = range :: ranges' := by
  constructor
  · intro h
    generalize hwhole : text ++ comma :: rest = whole at h
    cases h with
    | one hitem =>
        have : comma ∈ whole := by simp [← hwhole]
        exact absurd this hitem.comma_notMem
    | @more text' rest' range ranges' hitem hrest =>
        obtain ⟨rfl, rfl⟩ : text = text' ∧ rest = rest' := by
          -- the first comma is behind both items
          rcases List.append_eq_append_iff.mp hwhole with ⟨as, rfl, has⟩ | ⟨as, rfl, has⟩
          · cases as with
            | nil => exact ⟨by simp, by simpa using has⟩
            | cons c as =>
                obtain ⟨rfl, -⟩ := List.cons.inj has
                exact absurd (by simp) hitem.comma_notMem
          · cases as with
            | nil => exact ⟨by simp, by simpa using has.symm⟩
            | cons c as =>
                obtain ⟨rfl, -⟩ := List.cons.inj has
                exact absurd (by simp) hno
        exact ⟨range, ranges', hitem, hrest, rfl⟩
  · rintro ⟨range, ranges', hitem, hrest, rfl⟩
    exact .more hitem hrest

/-- The text from `first` on, split at the comma that the source finds. -/
theorem slice_nextComma (buffer : List UInt8) (hfirst : first < length) :
    (findNextComma buffer length first = none ∧ comma ∉ slice buffer first length ∧
        nextBegin buffer length first = length) ∨
      ∃ index, findNextComma buffer length first = some index ∧ first ≤ index ∧ index < length ∧
        nextBegin buffer length first = index + 1 ∧ comma ∉ slice buffer first index ∧
        slice buffer first length
          = slice buffer first index ++ comma :: slice buffer (index + 1) length := by
  cases hfind : findNextComma buffer length first with
  | none =>
      refine .inl ⟨rfl, fun hm => ?_, by rw [nextBegin, hfind]⟩
      obtain ⟨index, h1, h2, hc⟩ := mem_slice hm
      rw [findNextComma, if_neg (by omega), List.find?_eq_none] at hfind
      refine hfind index (List.mem_range'_1.mpr ⟨h1, by omega⟩) ?_
      simpa using hc
  | some index =>
      obtain ⟨h1, h2, hc⟩ := findNextComma_mem hfind
      refine .inr ⟨index, rfl, h1, h2, by rw [nextBegin, hfind], fun hm => ?_, ?_⟩
      · obtain ⟨j, hj1, hj2, hjc⟩ := mem_slice hm
        rw [findNextComma, if_neg (by omega), List.find?_range'_eq_some] at hfind
        have := hfind.2.2 j hj1 hj2
        simp [hjc] at this
      · rw [slice_append h1 h2.le, slice_cons h2 hc]

/-- The item that starts at `first` ends in the buffer. -/
theorem item_iff (hlength : length ≤ buffer.length) (first : ℕ) (range : CpuIdRange) :
    readCpuRange buffer first ((findNextComma buffer length first).getD length) = some range ↔
      ItemText (slice buffer first ((findNextComma buffer length first).getD length)) range := by
  have hend : (findNextComma buffer length first).getD length ≤ length := by
    cases h : findNextComma buffer length first with
    | none => exact le_rfl
    | some index => exact (findNextComma_mem h).2.1.le
  exact readCpuRange_iff (hend.trans hlength)

/-- One iteration of the first pass. -/
theorem countIds_step (hfirst : first < length) (hlength : length ≤ buffer.length)
    (cpuCount total : ℕ) :
    countIds buffer length first cpuCount = some total ↔
      ∃ range, ItemText (slice buffer first ((findNextComma buffer length first).getD length)) range ∧
        cpuCount + range.cpuCount < sizeMod ∧
        countIds buffer length (nextBegin buffer length first) (cpuCount + range.cpuCount)
          = some total := by
  have hiff := item_iff hlength first
  rw [countIds, if_pos hfirst]
  simp only
  cases hread : readCpuRange buffer first ((findNextComma buffer length first).getD length) with
  | none =>
      simp only [reduceCtorEq, false_iff, not_exists]
      rintro range ⟨hitem, -⟩
      rw [← hiff, hread] at hitem
      cases hitem
  | some range =>
      have hitem := (hiff range).mp hread
      have hbound := hitem.cpuCount_lt.1
      have honly : ∀ other, ItemText (slice buffer first
          ((findNextComma buffer length first).getD length)) other → range = other := by
        intro other hother
        rw [← hiff, hread] at hother
        exact Option.some.inj hother
      simp only
      by_cases hover : sizeMod - 1 - range.cpuCount < cpuCount
      · rw [if_pos hover]
        simp only [reduceCtorEq, false_iff, not_exists]
        rintro other ⟨hother, hlt, -⟩
        obtain rfl := honly other hother
        omega
      · have hlt : cpuCount + range.cpuCount < sizeMod := by
          have : 0 < sizeMod := by decide
          omega
        rw [if_neg hover, Nat.mod_eq_of_lt hlt]
        constructor
        · exact fun h => ⟨range, hitem, hlt, h⟩
        · rintro ⟨other, hother, -, h⟩
          obtain rfl := honly other hother
          exact h

/-- Behind the last item, the first pass returns what it has counted. -/
theorem countIds_end (cpuCount : ℕ) : countIds buffer length length cpuCount = some cpuCount := by
  rw [countIds, if_neg (lt_irrefl length)]

/-- The first pass accepts the lists of the grammar whose count does not overflow. -/
theorem countIds_iff (hlength : length ≤ buffer.length) (hcomma : buffer[length - 1]? ≠ some comma)
    (total : ℕ) : ∀ first cpuCount, first < length →
    (countIds buffer length first cpuCount = some total ↔
      ∃ ranges, CpuListText (slice buffer first length) ranges ∧
        cpuCount + totalCount ranges = total ∧ total < sizeMod) := by
  intro first
  -- the items from `first` on are fewer than the characters
  induction hn : length - first using Nat.strong_induction_on generalizing first with
  | _ n ih =>
  intro cpuCount hfirst
  rw [countIds_step hfirst hlength]
  rcases slice_nextComma buffer hfirst with
    ⟨hc, hno, hnext⟩ | ⟨index, hc, h1, h2, hnext, hno, hsplit⟩
  · rw [hc, hnext, Option.getD_none]
    simp only [cpuListText_iff_one hno, countIds_end, Option.some.injEq]
    constructor
    · rintro ⟨range, hitem, hlt, rfl⟩
      exact ⟨[range], ⟨range, hitem, rfl⟩, by simp [totalCount], hlt⟩
    · rintro ⟨_, ⟨range, hitem, rfl⟩, rfl, hlt⟩
      simp only [totalCount, List.map_cons, List.map_nil, List.sum_cons, List.sum_nil,
        Nat.add_zero] at hlt ⊢
      exact ⟨range, hitem, hlt, rfl⟩
  · -- the comma is not the last character
    have hmore : index + 1 < length := by
      by_contra hnot
      obtain rfl : index = length - 1 := by omega
      exact hcomma (findNextComma_mem hc).2.2
    rw [hc, hnext, Option.getD_some, hsplit]
    simp only [cpuListText_iff_more hno]
    constructor
    · rintro ⟨range, hitem, hlt, hrest⟩
      obtain ⟨ranges, hlist, hsum, htotal⟩ :=
        (ih _ (by omega) (index + 1) rfl _ hmore).mp hrest
      refine ⟨range :: ranges, ⟨range, ranges, hitem, hlist, rfl⟩, ?_, htotal⟩
      rw [← hsum]
      simp only [totalCount, List.map_cons, List.sum_cons]
      omega
    · rintro ⟨_, ⟨range, ranges, hitem, hlist, rfl⟩, hsum, htotal⟩
      simp only [totalCount, List.map_cons, List.sum_cons] at hsum
      refine ⟨range, hitem, by omega, (ih _ (by omega) (index + 1) rfl _ hmore).mpr
        ⟨ranges, hlist, ?_, htotal⟩⟩
      rw [← hsum]
      simp only [totalCount]
      omega

/-! ### The second pass -/

/-- The array when `stored` was stored and `rest` entries are left. -/
def entriesOf (stored : List ℕ) (rest : ℕ) : List (Option ℕ) :=
  stored.map some ++ List.replicate rest none

theorem store_entriesOf (stored : List ℕ) (rest id : ℕ) :
    store stored.length id (entriesOf stored (rest + 1)) = some (entriesOf (stored ++ [id]) rest) := by
  have hlt : stored.length < (entriesOf stored (rest + 1)).length := by simp [entriesOf]
  rw [store, if_pos hlt, entriesOf, entriesOf, List.set_append_right _ _ (by simp)]
  simp [List.replicate_succ]

theorem fillRange_entriesOf {range : CpuIdRange}
    (hfits : range.firstId + range.cpuCount ≤ sizeMod) (stored : List ℕ) :
    ∀ n rest : ℕ, n ≤ range.cpuCount →
      fillRange range.firstId stored.length n (entriesOf stored (n + rest))
        = some (entriesOf (stored ++ List.range' range.firstId n) rest) := by
  intro n
  induction n with
  | zero =>
      intro rest _
      simp [fillRange]
  | succ n ih =>
      intro rest hn
      rw [fillRange, show n + 1 + rest = n + (rest + 1) by omega, ih (rest + 1) (by omega)]
      have hlen : stored.length + n = (stored ++ List.range' range.firstId n).length := by simp
      simp only [Option.bind_eq_bind, Option.bind_some, hlen, store_entriesOf,
        Nat.mod_eq_of_lt (show range.firstId + n < sizeMod by omega), List.append_assoc]
      rw [← List.range'_1_concat]

/-- The second pass fills the entries that are left, no more and no less. -/
theorem fillIds_spec (hlength : length ≤ buffer.length)
    (hcomma : buffer[length - 1]? ≠ some comma) :
    ∀ first, first < length → ∀ (ranges : List CpuIdRange) (stored : List ℕ),
      CpuListText (slice buffer first length) ranges →
      fillIds buffer length first stored.length (entriesOf stored (totalCount ranges))
        = .ids ((stored ++ ranges.flatMap CpuIdRange.ids).map some) := by
  intro first
  induction hn : length - first using Nat.strong_induction_on generalizing first with
  | _ n ih =>
  intro hfirst ranges stored hlist
  have hiff := item_iff hlength first
  rw [fillIds, if_pos hfirst]
  simp only
  rcases slice_nextComma buffer hfirst with
    ⟨hc, hno, hnext⟩ | ⟨index, hc, h1, h2, hnext, hno, hsplit⟩
  · obtain ⟨range, hitem, rfl⟩ := (cpuListText_iff_one hno).mp hlist
    rw [hc, Option.getD_none] at hiff
    have hfill := fillRange_entriesOf hitem.cpuCount_lt.2 stored _ 0 le_rfl
    rw [hc, hnext, Option.getD_none, (hiff range).mpr hitem]
    simp only [totalCount, List.map_cons, List.map_nil, List.sum_cons, List.sum_nil, hfill]
    rw [fillIds, if_neg (lt_irrefl length)]
    simp [entriesOf, CpuIdRange.ids]
  · have hmore : index + 1 < length := by
      by_contra hnot
      obtain rfl : index = length - 1 := by omega
      exact hcomma (findNextComma_mem hc).2.2
    rw [hsplit] at hlist
    obtain ⟨range, ranges, hitem, hrest, rfl⟩ := (cpuListText_iff_more hno).mp hlist
    rw [hc, Option.getD_some] at hiff
    have hfill := fillRange_entriesOf hitem.cpuCount_lt.2 stored _ (totalCount ranges) le_rfl
    rw [hc, hnext, Option.getD_some, (hiff range).mpr hitem]
    simp only [totalCount, List.map_cons, List.sum_cons] at hfill ⊢
    simp only [hfill]
    have hrec := ih _ (by omega) (index + 1) rfl hmore ranges
      (stored ++ List.range' range.firstId range.cpuCount) hrest
    simp only [List.length_append, List.length_range', totalCount] at hrec
    rw [hrec]
    simp [CpuIdRange.ids]

/-! ### The whole file -/

theorem CpuListText.newline_notMem {text : List UInt8} {ranges : List CpuIdRange}
    (h : CpuListText text ranges) : newline ∉ text := by
  induction h with
  | one hitem => exact hitem.notMem (by decide) (by decide)
  | more hitem _ ih =>
      rw [List.mem_append, List.mem_cons]
      rintro (h | h | h)
      · exact hitem.notMem (by decide) (by decide) h
      · exact absurd h (by decide)
      · exact ih h

/-- A list ends with an item. -/
theorem CpuListText.getLast?_ne_comma {text : List UInt8} {ranges : List CpuIdRange}
    (h : CpuListText text ranges) : text.getLast? ≠ some comma := by
  induction h with
  | one hitem => exact fun hlast => hitem.comma_notMem (List.mem_of_getLast? hlast)
  | more hitem hrest ih =>
      rename_i rest _ _
      obtain ⟨c, rest, rfl⟩ := List.exists_cons_of_ne_nil hrest.nonempty
      rwa [List.getLast?_append_cons, List.getLast?_cons_cons]

/-- The part of the file that is parsed. -/
def listLength (file : List UInt8) : ℕ :=
  if file[file.length - 1]? = some newline then file.length - 1 else file.length

theorem listLength_le (file : List UInt8) : listLength file ≤ file.length := by
  unfold listLength
  split <;> omega

/-- Only one newline at the end is left out. -/
theorem text_iff {file text : List UInt8} (hno : newline ∉ text) :
    (file = text ∨ file = text ++ [newline]) ↔ text = slice file 0 (listLength file) := by
  unfold slice listLength
  rw [List.drop_zero]
  obtain rfl | ⟨init, c, rfl⟩ := List.eq_nil_or_concat' file
  · constructor
    · rintro (rfl | h)
      · simp
      · simp at h
    · rintro rfl
      exact .inl (by simp)
  · have hlast : (init ++ [c])[(init ++ [c]).length - 1]? = some c := by simp
    rw [hlast]
    by_cases hc : c = newline
    · subst hc
      rw [if_pos rfl]
      constructor
      · rintro (rfl | h)
        · exact absurd (by simp) hno
        · rw [← List.append_cancel_right h]
          simp
      · rintro rfl
        exact .inr (by simp)
    · rw [if_neg (fun h => hc (Option.some.inj h)), List.take_length]
      constructor
      · rintro (rfl | h)
        · rfl
        · exact absurd (List.append_inj_right' h rfl) (by simpa using hc)
      · exact fun h => .inl h.symm

/-- The files that are accepted, and the ranges they list. -/
def Accepted (file : List UInt8) (ranges : List CpuIdRange) : Prop :=
  ∃ text, (file = text ∨ file = text ++ [newline]) ∧ CpuListText text ranges ∧
    totalCount ranges < sizeMod

theorem accepted_iff (file : List UInt8) (ranges : List CpuIdRange) :
    Accepted file ranges ↔ CpuListText (slice file 0 (listLength file)) ranges ∧
      totalCount ranges < sizeMod := by
  constructor
  · rintro ⟨text, hfile, hlist, hcount⟩
    rw [← (text_iff hlist.newline_notMem).mp hfile]
    exact ⟨hlist, hcount⟩
  · rintro ⟨hlist, hcount⟩
    exact ⟨_, (text_iff hlist.newline_notMem).mpr rfl, hlist, hcount⟩

/-- **The list of CPUs is parsed exactly**: a file that fits the buffer is accepted just when
it is a list of numbers and ranges with commas between them, and perhaps a newline at the end,
whose count does not overflow, and then the ids of its items are returned in order, every
counted entry being filled and nothing being stored behind them. -/
theorem readOnlineCpuIds_exact (file : List UInt8) (hfile : file.length < 512) :
    (readOnlineCpuIds file = .nullopt ↔ ¬ ∃ ranges, Accepted file ranges) ∧
      ∀ ranges, Accepted file ranges →
        readOnlineCpuIds file = .ids ((ranges.flatMap CpuIdRange.ids).map some) ∧
          (ranges.flatMap CpuIdRange.ids).length = totalCount ranges := by
  have hread : readOnlineCpuIds file = if file.length = 0 then .nullopt else
      if listLength file = 0 ∨ file[listLength file - 1]? = some comma then .nullopt else
      match countIds file (listLength file) 0 0 with
      | none => .nullopt
      | some cpuCount => fillIds file (listLength file) 0 0 (List.replicate cpuCount none) := by
    rw [readOnlineCpuIds, readRawFile, kCpuListCapacity, if_pos hfile]
    rfl
  have hle := listLength_le file
  have hlen : ∀ ranges : List CpuIdRange,
      (ranges.flatMap CpuIdRange.ids).length = totalCount ranges := by
    intro ranges
    rw [List.length_flatMap]
    simp [totalCount, CpuIdRange.ids]
  -- a text to parse has characters, and does not end with a comma
  have hgood : ∀ ranges, Accepted file ranges → file.length ≠ 0 ∧ listLength file ≠ 0 ∧
      file[listLength file - 1]? ≠ some comma := by
    intro ranges haccepted
    obtain ⟨hlist, -⟩ := (accepted_iff file ranges).mp haccepted
    have hpos := List.length_pos_iff.mpr hlist.nonempty
    rw [slice_length hle] at hpos
    refine ⟨by omega, by omega, ?_⟩
    have hlast := hlist.getLast?_ne_comma
    rwa [List.getLast?_eq_getElem?, slice_length hle, slice_getElem? (by omega),
      Nat.sub_zero, Nat.zero_add] at hlast
  have haccept : ∀ ranges, Accepted file ranges →
      readOnlineCpuIds file = .ids ((ranges.flatMap CpuIdRange.ids).map some) := by
    intro ranges haccepted
    obtain ⟨h1, h2, h3⟩ := hgood ranges haccepted
    obtain ⟨hlist, hcount⟩ := (accepted_iff file ranges).mp haccepted
    have hcounted := (countIds_iff hle h3 (totalCount ranges) 0 0 (by omega)).mpr
      ⟨ranges, hlist, by omega, hcount⟩
    have hfill := fillIds_spec hle h3 0 (by omega) ranges [] hlist
    rw [hread, if_neg h1, if_neg (by simp [h2, h3]), hcounted]
    simpa [entriesOf] using hfill
  refine ⟨⟨?_, ?_⟩, fun ranges h => ⟨haccept ranges h, hlen ranges⟩⟩
  · rintro hnull ⟨ranges, haccepted⟩
    rw [haccept ranges haccepted] at hnull
    cases hnull
  · intro hnone
    rw [hread]
    by_cases h1 : file.length = 0
    · rw [if_pos h1]
    rw [if_neg h1]
    by_cases h2 : listLength file = 0 ∨ file[listLength file - 1]? = some comma
    · rw [if_pos h2]
    rw [if_neg h2]
    obtain ⟨h2, h3⟩ := not_or.mp h2
    cases hcount : countIds file (listLength file) 0 0 with
    | none => rfl
    | some total =>
        obtain ⟨ranges, hlist, hsum, htotal⟩ :=
          (countIds_iff hle h3 total 0 0 (by omega)).mp hcount
        exact absurd ⟨ranges, (accepted_iff file ranges).mpr ⟨hlist, by omega⟩⟩ hnone

/-- The file "0-2,8" with a newline. -/
theorem readOnlineCpuIds_exact_small :
    readOnlineCpuIds [48, 45, 50, 44, 56, 10] = .ids [some 0, some 1, some 2, some 8] := by
  have h0 : NumberText [48] 0 :=
    ⟨by simp, List.forall_mem_singleton.mpr (by decide), rfl, by decide⟩
  have h2 : NumberText [50] 2 :=
    ⟨by simp, List.forall_mem_singleton.mpr (by decide), rfl, by decide⟩
  have h8 : NumberText [56] 8 :=
    ⟨by simp, List.forall_mem_singleton.mpr (by decide), rfl, by decide⟩
  have hlist : CpuListText [48, 45, 50, 44, 56] [⟨0, 3⟩, ⟨8, 1⟩] :=
    .more (.range h0 h2 (by decide) (by decide)) (.one (.number h8))
  exact ((readOnlineCpuIds_exact [48, 45, 50, 44, 56, 10] (by decide)).2 _
    ⟨_, .inr rfl, hlist, by decide⟩).1

end OnlineCpuIds

end KleidiCV
