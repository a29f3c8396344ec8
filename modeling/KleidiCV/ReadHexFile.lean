/-
The identification registers of a CPU, as Linux prints them.

`read_hex_file` reads at most 32 bytes of a file such as "0x00000000410fd4f0\n",
skips the prefix, looks for the end of the line and converts what is between.
The file is its bytes, and a file that cannot be opened or read is `none`.
`read` is assumed to return as many bytes as the file has and the buffer holds.

* `HexLine` — the lines that are a hexadecimal number, with their value;
* `readHexFile_iff` — the code decides exactly the first 32 characters of the line;
* `HexLine.take` — the front of a number is a number;
* `readHexFile_readsFirstLine_iff` — when the whole first line is what counts.

A longer line is cut without notice: there is no check that its end was seen, as
`read_raw_file` has it for the list of CPUs.
-/
import KleidiCV.OnlineCpuIds
import Mathlib.Data.List.TakeWhile

namespace KleidiCV

namespace ReadHexFile

open OnlineCpuIds (isDigit slice newline slice_eq_nil)

/-- `sizeof(buffer)`. -/
def bufferSize : ℕ := 32

def zero : UInt8 := 48
def lowerX : UInt8 := 120
def upperX : UInt8 := 88
def carriageReturn : UInt8 := 13

def isTerminator (character : UInt8) : Bool :=
  character == newline || character == carriageReturn

def isHexDigit (c : UInt8) : Bool :=
  isDigit c || (97 ≤ c && c ≤ 102) || (65 ≤ c && c ≤ 70)

/-- The value of one digit; letters count in both cases. -/
def hexDigitValue (c : UInt8) : ℕ :=
  if isDigit c then c.toNat - 48
  else if 97 ≤ c then c.toNat - 97 + 10
  else c.toNat - 65 + 10

/-- The value of hexadecimal digits, most significant first. -/
def hexValue (digits : List UInt8) : ℕ :=
  digits.foldl (fun value c => 16 * value + hexDigitValue c) 0

/-- `std::from_chars` with base 16 for a `uint64_t`: how many characters were used, and the
value.  Base 16 has no prefix here. -/
def fromChars16 (range : List UInt8) : Option (ℕ × ℕ) :=
  let digits := range.takeWhile isHexDigit
  if digits = [] then none
  else if sizeMod ≤ hexValue digits then none
  else some (digits.length, hexValue digits)

/-- Where the number starts in the buffer. -/
def startIndex (buffer : List UInt8) : ℕ :=
  if 2 ≤ buffer.length ∧ buffer[0]? = some zero ∧
      (buffer[1]? = some lowerX ∨ buffer[1]? = some upperX) then 2
  else 0

/-- `std::find_if` from index `first` on; the end of the buffer if there is none. -/
def findEnd (buffer : List UInt8) (first : ℕ) : ℕ :=
  first + (buffer.drop first).findIdx isTerminator

/-- `read_hex_file`. -/
def readHexFile : Option (List UInt8) → Option ℕ
  | none => none
  | some file =>
    let buffer := file.take bufferSize
    if buffer.length = 0 then none
    else
      let first := startIndex buffer
      let last := findEnd buffer first
      match fromChars16 (slice buffer first last) with
      | none => none
      | some (used, value) => if first + used ≠ last then none else some value

/-! ### The format -/

/-- Digits that are a number of 64 bits. -/
structure HexNumber (text : List UInt8) (n : ℕ) : Prop where
  nonempty : text ≠ []
  digits : ∀ c ∈ text, isHexDigit c = true
  value : hexValue text = n
  fits : n < sizeMod

/-- A line that is in full a hexadecimal number, with or without a prefix. -/
inductive HexLine : List UInt8 → ℕ → Prop
  | plain {digits : List UInt8} {value : ℕ} : HexNumber digits value → HexLine digits value
  | prefixed {x : UInt8} {digits : List UInt8} {value : ℕ} :
      x = lowerX ∨ x = upperX → HexNumber digits value → HexLine (zero :: x :: digits) value

/-- The first line of a file without its terminator. -/
def firstLine (file : List UInt8) : List UInt8 := file.takeWhile fun c => !isTerminator c

/-- A value is returned exactly for a first line that is a number, and it is the value of that
line; nothing is returned when a part of the line was left unread. -/
def ReadsFirstLine (file : List UInt8) : Prop :=
  (∀ value, readHexFile (some file) = some value ↔ HexLine (firstLine file) value) ∧
    ∀ value, readHexFile (some file) = some value → (firstLine file).length ≤ bufferSize

/-! ### Numbers -/

theorem hexValue_append (front back : List UInt8) :
    hexValue (front ++ back) = back.foldl (fun value c => 16 * value + hexDigitValue c)
      (hexValue front) := by
  rw [hexValue, List.foldl_append]
  rfl

/-- More digits never make the number smaller. -/
theorem le_foldl_hex (back : List UInt8) (start : ℕ) :
    start ≤ back.foldl (fun value c => 16 * value + hexDigitValue c) start := by
  induction back generalizing start with
  | nil => exact le_refl start
  | cons c back ih =>
      have hstep := ih (16 * start + hexDigitValue c)
      rw [List.foldl_cons]
      omega

theorem HexNumber.take {digits : List UInt8} {value : ℕ} (h : HexNumber digits value) {n : ℕ}
    (hn : 0 < n) : HexNumber (digits.take n) (hexValue (digits.take n)) := by
  have hle : hexValue (digits.take n) ≤ value := by
    have hmono := le_foldl_hex (digits.drop n) (hexValue (digits.take n))
    rwa [← hexValue_append, List.take_append_drop, h.value] at hmono
  refine ⟨?_, fun c hc => h.digits c (List.mem_of_mem_take hc), rfl, lt_of_le_of_lt hle h.fits⟩
  rw [Ne, List.take_eq_nil_iff]
  rintro (h0 | hnil)
  · omega
  · exact h.nonempty hnil

/-- **The front of a number is a number.**  So a line that is cut behind its prefix and a digit
still reads as one. -/
theorem HexLine.take {line : List UInt8} {value : ℕ} (h : HexLine line value) {n : ℕ} (hn : 2 < n) :
    ∃ front, HexLine (line.take n) front := by
  cases h with
  | plain hnumber => exact ⟨_, .plain (hnumber.take (by omega))⟩
  | prefixed hx hnumber =>
      obtain ⟨m, rfl⟩ : ∃ m, n = m + 2 := ⟨n - 2, by omega⟩
      rw [List.take_succ_cons, List.take_succ_cons]
      exact ⟨_, .prefixed hx (hnumber.take (by omega))⟩

/-- The conversion uses the whole range exactly when the range is a number. -/
theorem fromChars16_iff {range : List UInt8} {value : ℕ} :
    fromChars16 range = some (range.length, value) ↔ HexNumber range value := by
  have hwhole : ∀ digits : List UInt8, digits = range.takeWhile isHexDigit →
      digits.length = range.length → digits = range := by
    rintro digits rfl hlength
    exact (List.takeWhile_prefix isHexDigit).eq_of_length hlength
  constructor
  · intro h
    simp only [fromChars16] at h
    split at h
    · cases h
    · rename_i hne
      split at h
      · cases h
      · rename_i hfits
        obtain ⟨hlength, rfl⟩ := Prod.mk.injEq .. ▸ Option.some.inj h
        have hall := hwhole _ rfl hlength
        refine ⟨hall ▸ hne, ?_, by rw [hall], Nat.not_le.mp hfits⟩
        intro c hc
        rw [← hall] at hc
        exact List.all_eq_true.mp List.all_takeWhile c hc
  · intro h
    have hall : range.takeWhile isHexDigit = range := List.takeWhile_eq_self_iff.mpr h.digits
    have hfits := h.fits
    rw [← h.value] at hfits
    simp only [fromChars16, hall, if_neg h.nonempty, if_neg (Nat.not_le.mpr hfits)]
    rw [h.value]

/-! ### The buffer -/

theorem firstLine_take (file : List UInt8) (n : ℕ) :
    firstLine (file.take n) = (firstLine file).take n := by
  induction file generalizing n with
  | nil => simp [firstLine]
  | cons c file ih =>
      cases n with
      | zero => simp [firstLine]
      | succ n =>
          have hrec := ih n
          simp only [firstLine] at hrec ⊢
          rw [List.take_succ_cons]
          by_cases hc : isTerminator c = true
          · rw [List.takeWhile_cons_of_neg (by simp [hc]), List.takeWhile_cons_of_neg (by simp [hc]),
              List.take_nil]
          · rw [List.takeWhile_cons_of_pos (by simp [hc]), List.takeWhile_cons_of_pos (by simp [hc]),
              List.take_succ_cons, hrec]

/-- What stands between the start and the end that is found: the rest of the line. -/
theorem slice_findEnd (buffer : List UInt8) (first : ℕ) :
    slice buffer first (findEnd buffer first) = firstLine (buffer.drop first) := by
  rw [slice, findEnd, firstLine, List.takeWhile_eq_take_findIdx_not, List.drop_take]
  congr 1
  rw [Nat.add_sub_cancel_left]
  congr 1
  funext c
  rw [Bool.not_not]

/-- The prefix is a part of the line, and what is behind it is the number. -/
theorem hexLine_iff (buffer : List UInt8) (value : ℕ) :
    HexLine (firstLine buffer) value ↔
      HexNumber (firstLine (buffer.drop (startIndex buffer))) value := by
  by_cases hprefix : ∃ x rest, buffer = zero :: x :: rest ∧ (x = lowerX ∨ x = upperX)
  · obtain ⟨x, rest, rfl, hx⟩ := hprefix
    have hstart : startIndex (zero :: x :: rest) = 2 := by
      rw [startIndex, if_pos]
      refine ⟨by simp, rfl, ?_⟩
      rcases hx with rfl | rfl
      · exact Or.inl rfl
      · exact Or.inr rfl
    have hxline : isTerminator x = false ∧ isHexDigit x = false := by
      rcases hx with rfl | rfl <;> decide
    have hline : firstLine (zero :: x :: rest) = zero :: x :: firstLine rest := by
      rw [firstLine, List.takeWhile_cons_of_pos (by decide),
        List.takeWhile_cons_of_pos (by simp [hxline.1])]
      rfl
    rw [hstart, hline]
    constructor
    · intro h
      cases h with
      | plain hnumber =>
          -- the letter of the prefix is no digit
          have := hnumber.digits x (by simp)
          rw [hxline.2] at this
          cases this
      | prefixed _ hnumber => exact hnumber
    · exact HexLine.prefixed hx
  · have hstart : startIndex buffer = 0 := by
      rw [startIndex, if_neg]
      rintro ⟨hlength, hzero, hx⟩
      match buffer, hlength, hzero, hx with
      | c :: x :: rest, _, hzero, hx =>
          refine hprefix ⟨x, rest, ?_, ?_⟩
          · rw [List.getElem?_cons_zero, Option.some.injEq] at hzero
            rw [hzero]
          · simpa using hx
    rw [hstart, List.drop_zero]
    constructor
    · intro h
      generalize hline : firstLine buffer = line at h
      cases h with
      | plain hnumber => exact hnumber
      | @prefixed x digits _ hx _ =>
          obtain ⟨rest, hrest⟩ : zero :: x :: digits <+: buffer :=
            hline ▸ List.takeWhile_prefix _
          exact absurd ⟨x, digits ++ rest, by rw [← hrest]; rfl, hx⟩ hprefix
    · exact HexLine.plain

/-- The code decides the first line of what is in the buffer. -/
theorem readHexFile_iff (file : List UInt8) (value : ℕ) :
    readHexFile (some file) = some value ↔ HexLine ((firstLine file).take bufferSize) value := by
  rw [← firstLine_take, hexLine_iff, ← fromChars16_iff, ← slice_findEnd]
  simp only [readHexFile]
  generalize file.take bufferSize = buffer
  generalize hfirst : startIndex buffer = first
  have hlength : first + (slice buffer first (findEnd buffer first)).length
      = findEnd buffer first := by
    rw [slice, List.length_drop, List.length_take, findEnd]
    have hle : (buffer.drop first).findIdx isTerminator ≤ (buffer.drop first).length :=
      List.findIdx_le_length
    rw [List.length_drop] at hle
    by_cases h0 : first ≤ buffer.length
    · omega
    · have hstart : first ≤ buffer.length := by
        rw [← hfirst, startIndex]
        split
        · rename_i h2
          exact h2.1
        · exact Nat.zero_le _
      exact absurd hstart h0
  by_cases hempty : buffer.length = 0
  · rw [if_pos hempty]
    have hnil : buffer = [] := List.length_eq_zero_iff.mp hempty
    have hslice : slice buffer first (findEnd buffer first) = [] := by simp [hnil, slice]
    rw [hslice]
    simp [fromChars16]
  · rw [if_neg hempty]
    cases hconversion : fromChars16 (slice buffer first (findEnd buffer first)) with
    | none => simp
    | some conversion =>
        obtain ⟨used, read⟩ := conversion
        simp only [Option.some.injEq, Prod.mk.injEq, ne_eq]
        split
        · rename_i hused
          constructor
          · intro h
            cases h
          · rintro ⟨rfl, -⟩
            exact absurd hlength hused
        · rename_i hused
          rw [Option.some.injEq]
          constructor
          · rintro rfl
            exact ⟨by omega, rfl⟩
          · exact fun h => h.2

/-- **A value stands for the whole first line exactly when the line fits into the buffer, or
its first 32 characters are no number.**  In every other file the rest of the line is lost. -/
theorem readHexFile_readsFirstLine_iff (file : List UInt8) :
    ReadsFirstLine file ↔ (firstLine file).length ≤ bufferSize ∨
      ∀ value, ¬ HexLine ((firstLine file).take bufferSize) value := by
  constructor
  · rintro ⟨-, hwhole⟩
    by_cases hfits : (firstLine file).length ≤ bufferSize
    · exact Or.inl hfits
    · refine Or.inr fun value hline => hfits (hwhole value ?_)
      exact (readHexFile_iff file value).mpr hline
  · rintro (hfits | hnone)
    · refine ⟨fun value => ?_, fun _ _ => hfits⟩
      rw [readHexFile_iff, List.take_of_length_le hfits]
    · have hread : ∀ value, readHexFile (some file) ≠ some value := fun value h =>
        hnone value ((readHexFile_iff file value).mp h)
      refine ⟨fun value => ⟨fun h => absurd h (hread value), fun hline => ?_⟩,
        fun value h => absurd h (hread value)⟩
      -- a number that is too long for the buffer starts with one that is not
      obtain ⟨front, hfront⟩ := hline.take (n := bufferSize) (by decide)
      exact absurd hfront (hnone front)

/-- "0x", thirty zeros and a one, which is no longer in the buffer. -/
def cutLine : List UInt8 := [zero, lowerX] ++ List.replicate 30 zero ++ [49]

theorem readHexFile_cutLine :
    readHexFile (some cutLine) = some 0 ∧ HexLine (firstLine cutLine) 1 ∧
      ¬ ∀ file, ReadsFirstLine file := by
  have hread : readHexFile (some cutLine) = some 0 := by decide
  have hline : HexLine (firstLine cutLine) 1 := by
    have hnumber : HexNumber (List.replicate 30 zero ++ [49]) 1 :=
      ⟨by decide, List.all_eq_true.mp (by decide), by decide, by decide⟩
    exact HexLine.prefixed (Or.inl rfl) hnumber
  refine ⟨hread, hline, fun h => ?_⟩
  have hone := ((h cutLine).1 1).mpr hline
  rw [hread] at hone
  cases hone

end ReadHexFile

end KleidiCV
