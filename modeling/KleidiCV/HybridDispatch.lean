/-
Batches that run on the CPU or on a streaming mode unit.

`parallel_batches_with_sme` hands every batch to a callback that asks the limiter for a
slot: with a slot the streaming version of the filter processes the batch, without one the
version of the CPU backend.  Either version may find no memory for its buffer, and then
leaves its rows alone.  Which CPU a call runs on, whether it gets a slot, what its
allocation returns and what the inactive lanes of its vectors hold is not up to the caller:
it is part of what the call meets.

* `batchStep_recorded` — one call, after others;
* `parallelBatchesWithSme_rows` — the rows that are written, and the code, for any two
  callbacks that write the same values;
* `separableFilter2d_hybrid` — the threaded `separable_filter_2d` against the single call.
-/
import KleidiCV.Multithreading
import KleidiCV.ScalableSeparableFilter2D
import KleidiCV.SmeThreadLimiter

open Loop

namespace KleidiCV

/-! ### Dispatching -/

/-- `kParallelBatchesDispatch`: `parallel_batches_cpu_only` or `parallel_batches_hybrid`. -/
inductive ParallelBatchesDispatch
  | cpuOnly
  | hybrid (limiter : SmeThreadLimiter)

/-- `resolve_parallel_batches_dispatch`; `limiter` is `SmeThreadLimiter::instance()`. -/
def resolveParallelBatchesDispatch (isSmeSupported : Bool) (limiter : Option SmeThreadLimiter) :
    ParallelBatchesDispatch :=
  match limiter with
  | some limiter => if isSmeSupported then .hybrid limiter else .cpuOnly
  | none => .cpuOnly

/-- What a call of the callback meets: the CPU it runs on, unless that is not known,
whether a slot of the domain of that CPU is free, and the rest of its environment. -/
structure BatchMeets (ε : Type) where
  currentCpu : Option ℕ
  acquired : Bool
  environment : ε

/-- The callbacks of `parallel_batches_with_sme`. -/
structure BatchCallbacks (ε σ : Type) where
  cpu : ε → ℕ → ℕ → σ → KleidicvError × σ
  sme : ε → ℕ → ℕ → σ → KleidicvError × σ

section

variable {ε σ : Type}

/-- `SmeThreadLimiter::try_to_run`. -/
def SmeThreadLimiter.tryToRun (limiter : SmeThreadLimiter) (meets : BatchMeets ε)
    (callback : σ → KleidicvError × σ) (s : σ) : AttemptResult × σ :=
  match meets.currentCpu with
  | none => (⟨false, .ok⟩, s)
  | some cpu =>
    if !limiter.topology.isCpuAllowed cpu then (⟨false, .ok⟩, s)
    else if limiter.size ≤ limiter.topology.domainForCpu cpu || !meets.acquired then
      (⟨false, .ok⟩, s)
    else
      let result := callback s
      (⟨true, result.1⟩, result.2)

/-- What `parallel_batches` is given: call after call, with the calls counted. -/
def dispatchedCallback (dispatch : ParallelBatchesDispatch) (callbacks : BatchCallbacks ε σ)
    (meets : ℕ → BatchMeets ε) (yBegin yEnd : ℕ) (s : ℕ × σ) : KleidicvError × ℕ × σ :=
  let met := meets s.1
  let cpu := callbacks.cpu met.environment yBegin yEnd
  let result := match dispatch with
    | .cpuOnly => cpu s.2
    | .hybrid limiter =>
      let attempt := limiter.tryToRun met (callbacks.sme met.environment yBegin yEnd) s.2
      if attempt.1.accepted then (attempt.1.error, attempt.2) else cpu attempt.2
  (result.1, s.1 + 1, result.2)

/-- `parallel_batches_with_sme`. -/
def parallelBatchesWithSme (dispatch : ParallelBatchesDispatch) (callbacks : BatchCallbacks ε σ)
    (meets : ℕ → BatchMeets ε) (count minBatchSize : ℕ)
    (mt : Multithreading (taskCount count minBatchSize)) (s : σ) : KleidicvError × σ :=
  let result := runParallelBatches (dispatchedCallback dispatch callbacks meets) count minBatchSize
    mt (0, s)
  (result.1, result.2.2)

/-- A callback that gets no slot is not run. -/
theorem SmeThreadLimiter.tryToRun_cases (limiter : SmeThreadLimiter) (meets : BatchMeets ε)
    (callback : σ → KleidicvError × σ) (s : σ) :
    limiter.tryToRun meets callback s = (⟨false, .ok⟩, s) ∨
      limiter.tryToRun meets callback s = (⟨true, (callback s).1⟩, (callback s).2) := by
  rw [tryToRun]
  cases meets.currentCpu with
  | none => exact .inl rfl
  | some cpu =>
    simp only
    split_ifs
    · exact .inl rfl
    · exact .inl rfl
    · exact .inr rfl

/-- Every call runs exactly one of the two callbacks. -/
theorem dispatchedCallback_cases (dispatch : ParallelBatchesDispatch)
    (callbacks : BatchCallbacks ε σ) (meets : ℕ → BatchMeets ε) (yBegin yEnd : ℕ) (s : ℕ × σ) :
    ∃ f, (f = callbacks.cpu ∨ f = callbacks.sme) ∧
      dispatchedCallback dispatch callbacks meets yBegin yEnd s =
        ((f (meets s.1).environment yBegin yEnd s.2).1, s.1 + 1,
          (f (meets s.1).environment yBegin yEnd s.2).2) := by
  cases dispatch with
  | cpuOnly => exact ⟨callbacks.cpu, .inl rfl, rfl⟩
  | hybrid limiter =>
    rcases limiter.tryToRun_cases (meets s.1)
      (callbacks.sme (meets s.1).environment yBegin yEnd) s.2 with hrun | hrun
    · refine ⟨callbacks.cpu, .inl rfl, ?_⟩
      simp only [dispatchedCallback, hrun, Bool.false_eq_true, if_false]
    · refine ⟨callbacks.sme, .inr rfl, ?_⟩
      simp only [dispatchedCallback, hrun, if_true]

end

/-! ### Rows of an image -/

section

variable {ε γ : Type} {succeeds : ε → Prop} {rows : Rows} {value : ℕ × ℕ → γ} {length height : ℕ}

/-- A callback that writes the rows of its batch, where its environment lets it succeed,
and reports an error and writes nothing otherwise. -/
structure WritesRows (succeeds : ε → Prop) (rows : Rows) (value : ℕ × ℕ → γ) (length height : ℕ)
    (callback : ε → ℕ → ℕ → (ℕ → γ) → KleidicvError × (ℕ → γ)) : Prop where
  done : ∀ env, succeeds env → ∀ yBegin yEnd, yBegin ≤ yEnd → yEnd ≤ height → ∀ m,
    (callback env yBegin yEnd m).1 = .ok ∧
      Wrote rows.address value (stripeElements length yBegin yEnd) m (callback env yBegin yEnd m).2
  failed : ∀ env, ¬succeeds env → ∀ yBegin yEnd m,
    (callback env yBegin yEnd m).1 ≠ .ok ∧ (callback env yBegin yEnd m).2 = m

/-- The elements of the batches whose calls succeed. -/
def doneElements (length : ℕ) (batches : List (ℕ × ℕ)) (done : ℕ → Prop) : Set (ℕ × ℕ) :=
  {p | ∃ i r, batches[i]? = some r ∧ done i ∧ p ∈ stripeElements length r.1 r.2}

theorem doneElements_concat (batches : List (ℕ × ℕ)) (r : ℕ × ℕ) (done : ℕ → Prop) :
    doneElements length (batches ++ [r]) done =
      doneElements length batches done ∪
        {p | done batches.length ∧ p ∈ stripeElements length r.1 r.2} := by
  refine Set.ext fun p => ?_
  constructor
  · rintro ⟨i, q, hget, hdone, hp⟩
    rcases Nat.lt_or_ge i batches.length with hi | hi
    · rw [List.getElem?_append_left hi] at hget
      exact .inl ⟨i, q, hget, hdone, hp⟩
    · rw [List.getElem?_append_right hi, List.getElem?_singleton] at hget
      obtain ⟨hzero, hq⟩ := Option.ite_none_right_eq_some.mp hget
      obtain rfl : i = batches.length := by omega
      obtain rfl : r = q := Option.some.inj hq
      exact .inr ⟨hdone, hp⟩
  · rintro (⟨i, q, hget, hdone, hp⟩ | ⟨hdone, hp⟩)
    · have hi : i < batches.length := (List.getElem?_eq_some_iff.mp hget).1
      exact ⟨i, q, by rw [List.getElem?_append_left hi, hget], hdone, hp⟩
    · exact ⟨batches.length, r, List.getElem?_concat_length, hdone, hp⟩

/-- Where every call succeeds, nothing is left out. -/
theorem doneElements_all {batches : List (ℕ × ℕ)} {done : ℕ → Prop}
    (hbatches : IsPartition height batches) (hall : ∀ i < batches.length, done i) :
    doneElements length batches done = stripeElements length 0 height := by
  refine Set.ext fun p => ?_
  constructor
  · rintro ⟨i, r, hget, -, -, hend, hp⟩
    obtain ⟨hi, rfl⟩ := List.getElem?_eq_some_iff.mp hget
    exact ⟨Nat.zero_le _, hend.trans_le (hbatches.bounds _ (List.getElem_mem hi)).2, hp⟩
  · rintro ⟨-, hend, hp⟩
    obtain ⟨r, hr, h1, h2⟩ := hbatches.cover p.1 hend
    obtain ⟨i, hi, rfl⟩ := List.getElem_of_mem hr
    exact ⟨i, _, List.getElem?_eq_getElem hi, hall i hi, h1, h2, hp⟩

/-- What the calls made so far leave: their number, their codes, and the rows of those
that succeeded. -/
structure Recorded (succeeds : ε → Prop) (rows : Rows) (value : ℕ × ℕ → γ) (length : ℕ)
    (meets : ℕ → BatchMeets ε) (m : ℕ → γ) (batches : List (ℕ × ℕ)) (errors : List KleidicvError)
    (s : ℕ × (ℕ → γ)) : Prop where
  calls : s.1 = batches.length
  codes : ∀ e, e ∈ errors → e ≠ .ok → ∃ i < batches.length, ¬succeeds (meets i).environment
  reported : ∀ i < batches.length, ¬succeeds (meets i).environment → ∃ e ∈ errors, e ≠ .ok
  wrote : Wrote rows.address value
    (doneElements length batches fun i => succeeds (meets i).environment) m s.2

variable {callbacks : BatchCallbacks ε (ℕ → γ)} {meets : ℕ → BatchMeets ε}

/-- One call, after others. -/
theorem batchStep_recorded (hcpu : WritesRows succeeds rows value length height callbacks.cpu)
    (hsme : WritesRows succeeds rows value length height callbacks.sme)
    (hstride : length ≤ rows.stride) (dispatch : ParallelBatchesDispatch) {m : ℕ → γ}
    {batches : List (ℕ × ℕ)} {r : ℕ × ℕ} {errors : List KleidicvError} {s : ℕ × (ℕ → γ)}
    (hr : r.1 ≤ r.2 ∧ r.2 ≤ height)
    (h : Recorded succeeds rows value length meets m batches errors s) :
    Recorded succeeds rows value length meets m (batches ++ [r])
      (errors ++ [(dispatchedCallback dispatch callbacks meets r.1 r.2 s).1])
      (dispatchedCallback dispatch callbacks meets r.1 r.2 s).2 := by
  obtain ⟨f, hf, heq⟩ := dispatchedCallback_cases dispatch callbacks meets r.1 r.2 s
  have hrows : WritesRows succeeds rows value length height f := by
    rcases hf with rfl | rfl
    · exact hcpu
    · exact hsme
  rw [heq, h.calls]
  have hlength : (batches ++ [r]).length = batches.length + 1 := List.length_append
  by_cases hok : succeeds (meets batches.length).environment
  · obtain ⟨hcode, hwrote⟩ := hrows.done _ hok r.1 r.2 hr.1 hr.2 s.2
    refine ⟨hlength.symm, ?_, ?_, ?_⟩
    · intro e he hne
      rcases List.mem_append.mp he with he | he
      · obtain ⟨i, hi, hfail⟩ := h.codes e he hne
        exact ⟨i, by omega, hfail⟩
      · exact absurd ((List.mem_singleton.mp he).trans hcode) hne
    · intro i hi hfail
      have hne : i ≠ batches.length := fun heq => hfail (heq ▸ hok)
      obtain ⟨e, he, hne⟩ := h.reported i (by omega) hfail
      exact ⟨e, List.mem_append_left _ he, hne⟩
    · rw [doneElements_concat]
      refine h.wrote.trans (Rows.address_injOn hstride) ?_ ?_ (hwrote.congr ?_)
      · rintro p ⟨i, q, -, -, hp⟩
        exact hp.2.2
      · rintro p ⟨-, hp⟩
        exact hp.2.2
      · exact Set.ext fun p => ⟨fun hp => ⟨hok, hp⟩, fun hp => hp.2⟩
  · obtain ⟨hcode, hsame⟩ := hrows.failed _ hok r.1 r.2 s.2
    refine ⟨hlength.symm, ?_, ?_, ?_⟩
    · intro e he hne
      exact ⟨batches.length, by omega, hok⟩
    · intro i hi hfail
      exact ⟨_, List.mem_append_right _ (List.mem_singleton_self _), hcode⟩
    · rw [doneElements_concat]
      simp only [hsame]
      refine h.wrote.congr ?_
      exact Set.ext fun p => ⟨.inl, fun hp => hp.elim id fun hp => absurd hp.1 hok⟩

/-- **Two versions of a filter as one.**  Whichever of the two callbacks processes a batch,
the rows written are those of the calls that succeed, with the values of the filter, and
the code is `.ok` exactly if all calls succeed. -/
theorem parallelBatchesWithSme_rows
    (hcpu : WritesRows succeeds rows value length height callbacks.cpu)
    (hsme : WritesRows succeeds rows value length height callbacks.sme)
    (hstride : length ≤ rows.stride) (hpos : 0 < height) (hmax : height < sizeMod)
    (dispatch : ParallelBatchesDispatch) (meets : ℕ → BatchMeets ε)
    (mt : Multithreading (taskCount height 1)) (m : ℕ → γ) :
    Wrote rows.address value
        (doneElements length (parallelBatches height 1 mt.tasks) fun i =>
          succeeds (meets i).environment) m
        (parallelBatchesWithSme dispatch callbacks meets height 1 mt m).2 ∧
      ((parallelBatchesWithSme dispatch callbacks meets height 1 mt m).1 = .ok ↔
        ∀ i < mt.tasks.ranges.length, succeeds (meets i).environment) := by
  have hbatches := parallelBatches_isPartition hmax hpos mt.tasks
  have h := foldl_batchStep_invariant (dispatchedCallback dispatch callbacks meets)
    (Recorded succeeds rows value length meets m) (l := parallelBatches height 1 mt.tasks)
    (s := (0, m))
    ⟨rfl, fun e he => absurd he List.not_mem_nil, fun i hi => absurd hi (Nat.not_lt_zero i),
      Wrote.refl_of_empty m fun p ⟨i, r, hget, _⟩ => by simp at hget⟩
    (fun done r errors s hinitial hrecorded => batchStep_recorded hcpu hsme hstride dispatch
      (hbatches.bounds r (hinitial.subset (List.mem_append_right _ (List.mem_singleton_self r))))
      hrecorded)
  have hlength : (parallelBatches height 1 mt.tasks).length = mt.tasks.ranges.length :=
    List.length_map _
  refine ⟨h.wrote, mt.result_eq_ok_iff.trans ⟨fun hall i hi => ?_, fun hall e he => ?_⟩⟩
  · by_contra hfail
    obtain ⟨e, he, hne⟩ := h.reported i (hlength ▸ hi) hfail
    exact hne (hall e he)
  · by_contra hne
    obtain ⟨i, hi, hfail⟩ := h.codes e he hne
    exact hfail (hall i (hlength ▸ hi))

end

/-! ### `separable_filter_2d` -/

/-- What a batch of `separable_filter_2d` meets: what `malloc` returns for its buffer, and
what inactive lanes hold. -/
structure FilterEnvironment (T : FilterElement) where
  allocation : Option (ℕ → BitVec (2 * T.bits))
  unspecified : ℕ → ℕ → ℕ → BitVec (2 * T.bits)

section

variable (T : FilterElement)

/-- The `callback` and the `sme_callback` of the threaded filter; `vl` is the length of
vectors in streaming mode. -/
def separableFilter2dCallbacks (vl : VectorLength) (srcElements : ℕ → BitVec T.bits)
    (src srcStride dst dstStride width height channels : ℕ) (kernelX kernelY : ℕ → BitVec T.bits)
    (fixedBorderType : FixedBorderType) :
    BatchCallbacks (FilterEnvironment T) (ℕ → BitVec T.bits) where
  cpu := fun env yBegin yEnd =>
    separableFilter2dStripe T srcElements src srcStride dst dstStride width height yBegin yEnd
      channels kernelX kernelY fixedBorderType env.allocation
  sme := fun env yBegin yEnd =>
    separableFilter2dStripeSc vl T env.unspecified srcElements src srcStride dst dstStride width
      height yBegin yEnd channels kernelX kernelY fixedBorderType env.allocation

/-- `kleidicv_thread_separable_filter_2d_u8` and `kleidicv_thread_separable_filter_2d_u16`. -/
def kleidicvThreadSeparableFilter2d (vl : VectorLength) (dispatch : ParallelBatchesDispatch)
    (srcElements : ℕ → BitVec T.bits) (src srcStride dst dstStride width height channels : ℕ)
    (kernelX : Option (ℕ → BitVec T.bits)) (kernelWidth : ℕ)
    (kernelY : Option (ℕ → BitVec T.bits)) (kernelHeight : ℕ) (borderType : BorderType)
    (meets : ℕ → BatchMeets (FilterEnvironment T)) (mt : Multithreading (taskCount height 1))
    (dstElements : ℕ → BitVec T.bits) : KleidicvError × (ℕ → BitVec T.bits) :=
  match separableFilter2dValidate T src srcStride dst dstStride width height channels kernelX
      kernelWidth kernelY kernelHeight borderType, kernelX, kernelY with
  | .error error, _, _ => (error, dstElements)
  | .ok fixedBorderType, some kernelX, some kernelY =>
    parallelBatchesWithSme dispatch
      (separableFilter2dCallbacks T vl srcElements src srcStride dst dstStride width height channels
        kernelX kernelY fixedBorderType) meets height 1 mt dstElements
  -- Not reached, the checks turn null kernels away.
  | .ok _, _, _ => (.nullPointer, dstElements)

end

section

variable {T : FilterElement} {src srcStride dst dstStride width height channels : ℕ}
  {kernelX kernelY : ℕ → BitVec T.bits} {b : FixedBorderType} {srcElements : ℕ → BitVec T.bits}

/-- What belongs to element `p.2` of row `p.1`. -/
def filteredValue (kernelX kernelY : ℕ → BitVec T.bits) (srcElements : ℕ → BitVec T.bits)
    (srcRows : Rows) (width height : ℕ) (b : FixedBorderType) (channels : ℕ) (p : ℕ × ℕ) :
    BitVec T.bits :=
  BitVec.ofNat T.bits (min (2 ^ T.bits - 1) (exactSum kernelX kernelY srcElements srcRows width
    height b p.1 (p.2 / channels) (p.2 % channels)))

/-- A stripe of filtered rows, element by element. -/
theorem FilteredRows.wrote {srcRows dstRows : Rows} {yBegin yEnd : ℕ} {m m' : ℕ → BitVec T.bits}
    (h : FilteredRows kernelX kernelY srcElements srcRows dstRows width height b yBegin yEnd m m') :
    Wrote dstRows.address
      (filteredValue kernelX kernelY srcElements srcRows width height b dstRows.channels)
      (stripeElements (width * dstRows.channels) yBegin yEnd) m m' := by
  refine ⟨?_, ?_⟩
  · rintro ⟨y, e⟩ ⟨h1, h2, he⟩
    have hpos : 0 < dstRows.channels := Nat.pos_of_ne_zero fun h => by simp [h] at he
    have hx : e / dstRows.channels < width := Nat.div_lt_of_lt_mul (by rwa [Nat.mul_comm] at he)
    have hvalue := h.value y (e / dstRows.channels) (e % dstRows.channels) h1 h2 hx
      (Nat.mod_lt _ hpos)
    have haddress : dstRows.ptrAt y (e / dstRows.channels : ℕ) (e % dstRows.channels) =
        dstRows.address (y, e) := by
      rw [Rows.ptrAt_natCast, Rows.address, Nat.add_assoc, Nat.div_add_mod']
    rw [haddress] at hvalue
    refine BitVec.eq_of_toNat_eq ?_
    rw [hvalue, filteredValue, toNat_ofNat_min]
  · intro a ha
    refine h.frame a fun y x c h1 h2 hx hc heq => ?_
    refine ha (y, x * dstRows.channels + c) ⟨h1, h2, pixelByte_lt hx hc⟩ ?_
    rw [← heq, Rows.ptrAt_natCast, Rows.address, Nat.add_assoc, Nat.add_assoc, Nat.add_assoc]

theorem separableFilter2dValidate_error {kernelX kernelY : Option (ℕ → BitVec T.bits)}
    {kernelWidth kernelHeight : ℕ} {borderType : BorderType} {error : KleidicvError}
    (h : separableFilter2dValidate T src srcStride dst dstStride width height channels kernelX
      kernelWidth kernelY kernelHeight borderType = .error error) : error ≠ .ok := by
  rw [separableFilter2dValidate] at h
  by_cases h5 : kernelWidth ≠ 5 ∨ kernelHeight ≠ 5
  · rw [if_pos h5] at h
    cases h
    exact KleidicvError.noConfusion
  by_cases hsize : width < kernelWidth - 1 ∨ height < kernelWidth - 1
  · rw [if_neg h5, if_pos hsize] at h
    cases h
    exact KleidicvError.noConfusion
  rw [if_neg h5, if_neg hsize] at h
  cases htype : getFixedBorderType borderType with
  | none =>
    rw [htype] at h
    cases h
    exact KleidicvError.noConfusion
  | some fixedBorderType =>
    simp only [htype] at h
    split_ifs at h with hchecks
    · cases h
      exact hchecks
    · cases h
      exact KleidicvError.noConfusion

section

variable (vl : VectorLength) (hwidth : 4 ≤ width) (hheight : 4 ≤ height)
  (himage : width * height ≤ kleidicvMaxImagePixels)
  (hstride : width * channels ≤ dstStride / T.size)

include hwidth hheight himage hstride

/-- A batch on the CPU backend. -/
theorem separableFilter2dCallbacks_cpu :
    WritesRows (fun env : FilterEnvironment T => env.allocation.isSome = true)
      (elementRows T.size dst dstStride channels)
      (filteredValue kernelX kernelY srcElements (elementRows T.size src srcStride channels) width
        height b channels) (width * channels) height
      (separableFilter2dCallbacks T vl srcElements src srcStride dst dstStride width height channels
        kernelX kernelY b).cpu := by
  have hmax : kleidicvMaxImagePixels < 2 ^ 63 := by decide
  have hw : width ≤ width * height := Nat.le_mul_of_pos_right _ (by omega)
  have hh : height ≤ width * height := Nat.le_mul_of_pos_left _ (by omega)
  constructor
  · intro env hsome yBegin yEnd hle hend m
    obtain ⟨buffer, hbuffer⟩ := Option.isSome_iff_exists.mp hsome
    simp only [separableFilter2dCallbacks, hbuffer]
    refine ⟨rfl, FilteredRows.wrote ?_⟩
    exact process_filteredRows ⟨kernelX, kernelY⟩ (elementRows T.size src srcStride channels)
      (elementRows T.size dst dstStride channels) hwidth (by omega) hheight (by omega) rfl hstride
      hle hend _ buffer m
  · intro env hnone yBegin yEnd m
    simp only [separableFilter2dCallbacks, Option.not_isSome_iff_eq_none.mp hnone]
    exact ⟨KleidicvError.noConfusion, rfl⟩

/-- A batch in streaming mode. -/
theorem separableFilter2dCallbacks_sme :
    WritesRows (fun env : FilterEnvironment T => env.allocation.isSome = true)
      (elementRows T.size dst dstStride channels)
      (filteredValue kernelX kernelY srcElements (elementRows T.size src srcStride channels) width
        height b channels) (width * channels) height
      (separableFilter2dCallbacks T vl srcElements src srcStride dst dstStride width height channels
        kernelX kernelY b).sme := by
  constructor
  · intro env hsome yBegin yEnd hle hend m
    obtain ⟨buffer, hbuffer⟩ := Option.isSome_iff_exists.mp hsome
    have hstripe : ∃ m', separableFilter2dStripeSc vl T env.unspecified srcElements src srcStride
          dst dstStride width height yBegin yEnd channels kernelX kernelY b (some buffer) m =
            (.ok, m') ∧
        FilteredRows kernelX kernelY srcElements (elementRows T.size src srcStride channels)
          (elementRows T.size dst dstStride channels) width height b yBegin yEnd m m' :=
      separableFilter2dStripeSc_filteredRows hwidth hheight himage hstride hle hend buffer m
    obtain ⟨m', hcall, hrows⟩ := hstripe
    simp only [separableFilter2dCallbacks, hbuffer, hcall]
    exact ⟨trivial, hrows.wrote⟩
  · intro env hnone yBegin yEnd m
    simp only [separableFilter2dCallbacks, Option.not_isSome_iff_eq_none.mp hnone]
    exact ⟨KleidicvError.noConfusion, rfl⟩

end

/-- How a threaded call compares with the single call on the same image: rejected alike;
otherwise every batch that can allocate leaves the rows of the single call, the other
batches leave theirs alone, and the code tells whether there are such. -/
structure FollowsSingleCall {γ : Type} (succeeds : ℕ → Prop) (rows : Rows) (length : ℕ)
    (batches : List (ℕ × ℕ)) (m : ℕ → γ) (single threaded : KleidicvError × (ℕ → γ)) : Prop where
  rejected : single.1 ≠ .ok → threaded = single
  code : single.1 = .ok → (threaded.1 = .ok ↔ ∀ i < batches.length, succeeds i)
  image : threaded.1 = .ok → threaded.2 = single.2
  batch : single.1 = .ok → ∀ (i : ℕ) (r : ℕ × ℕ), batches[i]? = some r → succeeds i →
    ∀ p ∈ stripeElements length r.1 r.2, threaded.2 (rows.address p) = single.2 (rows.address p)
  kept : ∀ a, threaded.2 a = m a ∨ threaded.2 a = single.2 a

/-- Rows of a run of batches against all rows. -/
theorem followsSingleCall_of_wrote {γ : Type} {succeeds : ℕ → Prop} {rows : Rows}
    {value : ℕ × ℕ → γ} {length height : ℕ} {batches : List (ℕ × ℕ)} {m : ℕ → γ}
    {single threaded : KleidicvError × (ℕ → γ)} (hbatches : IsPartition height batches)
    (hok : single.1 = .ok)
    (hsingle : Wrote rows.address value (stripeElements length 0 height) m single.2)
    (hthreaded : Wrote rows.address value (doneElements length batches succeeds) m threaded.2)
    (hcode : threaded.1 = .ok ↔ ∀ i < batches.length, succeeds i) :
    FollowsSingleCall succeeds rows length batches m single threaded := by
  have hall : ∀ (i : ℕ) (r : ℕ × ℕ), batches[i]? = some r → ∀ p ∈ stripeElements length r.1 r.2,
      p ∈ stripeElements length 0 height := by
    rintro i r hget p ⟨-, hend, hp⟩
    obtain ⟨hi, rfl⟩ := List.getElem?_eq_some_iff.mp hget
    exact ⟨Nat.zero_le _, hend.trans_le (hbatches.bounds _ (List.getElem_mem hi)).2, hp⟩
  refine ⟨fun hne => absurd hok hne, fun _ => hcode, ?_, ?_, ?_⟩
  · intro h
    exact (hthreaded.congr (doneElements_all hbatches (hcode.mp h))).eq_of hsingle
  · intro _ i r hget hdone p hp
    rw [hthreaded.value p ⟨i, r, hget, hdone, hp⟩, hsingle.value p (hall i r hget p hp)]
  · intro a
    by_cases ha : ∃ p ∈ doneElements length batches succeeds, rows.address p = a
    · obtain ⟨p, hp, rfl⟩ := ha
      obtain ⟨i, r, hget, hdone, hmem⟩ := hp
      rw [hthreaded.value p ⟨i, r, hget, hdone, hmem⟩, hsingle.value p (hall i r hget p hmem)]
      exact .inr rfl
    · push Not at ha
      exact .inl (hthreaded.frame a ha)

/-- Writing all rows again makes up for the rows that were left out. -/
theorem wrote_again {γ : Type} {succeeds : ℕ → Prop} {rows : Rows} {value : ℕ × ℕ → γ}
    {length height : ℕ} {batches : List (ℕ × ℕ)} {m m' single again : ℕ → γ}
    (hbatches : IsPartition height batches)
    (hdone : Wrote rows.address value (doneElements length batches succeeds) m m')
    (hsingle : Wrote rows.address value (stripeElements length 0 height) m single)
    (hagain : Wrote rows.address value (stripeElements length 0 height) m' again) :
    again = single := by
  funext a
  by_cases ha : ∃ p ∈ stripeElements length 0 height, rows.address p = a
  · obtain ⟨p, hp, rfl⟩ := ha
    rw [hagain.value p hp, hsingle.value p hp]
  · push Not at ha
    rw [hagain.frame a ha, hsingle.frame a ha]
    refine hdone.frame a ?_
    rintro p ⟨i, r, hget, -, -, hend, hp⟩
    obtain ⟨hi, rfl⟩ := List.getElem?_eq_some_iff.mp hget
    exact ha p ⟨Nat.zero_le _, hend.trans_le (hbatches.bounds _ (List.getElem_mem hi)).2, hp⟩

/-- **The threaded filter on a machine with streaming mode units.**  For every scheduler,
dispatch and vector length, whatever CPUs the batches run on, whichever of them get a slot
and whichever find memory, the call compares with the single call as above; and a single
call that follows it leaves the image as if it had been the only one. -/
theorem separableFilter2d_hybrid (vl : VectorLength) (dispatch : ParallelBatchesDispatch)
    {kernelX kernelY : Option (ℕ → BitVec T.bits)} {kernelWidth kernelHeight : ℕ}
    {borderType : BorderType} (hstride : width * channels ≤ dstStride / T.size)
    (meets : ℕ → BatchMeets (FilterEnvironment T)) (mt : Multithreading (taskCount height 1))
    (buffer : ℕ → BitVec (2 * T.bits)) (m : ℕ → BitVec T.bits) :
    let single := kleidicvSeparableFilter2d T srcElements src srcStride dst dstStride width height
      channels kernelX kernelWidth kernelY kernelHeight borderType (some buffer)
    let threaded := kleidicvThreadSeparableFilter2d T vl dispatch srcElements src srcStride dst
      dstStride width height channels kernelX kernelWidth kernelY kernelHeight borderType meets mt m
    FollowsSingleCall (fun i => (meets i).environment.allocation.isSome = true)
        (elementRows T.size dst dstStride channels) (width * channels)
        (parallelBatches height 1 mt.tasks) m (single m) threaded ∧
      (single threaded.2).2 = (single m).2 := by
  have hturned : ∀ error : KleidicvError, error ≠ .ok →
      FollowsSingleCall (fun i => (meets i).environment.allocation.isSome = true)
        (elementRows T.size dst dstStride channels) (width * channels)
        (parallelBatches height 1 mt.tasks) m (error, m) (error, m) := fun error hne =>
    ⟨fun _ => rfl, fun h => absurd h hne, fun _ => rfl, fun h => absurd h hne, fun _ => .inl rfl⟩
  unfold kleidicvSeparableFilter2d kleidicvThreadSeparableFilter2d
  cases hvalid : separableFilter2dValidate T src srcStride dst dstStride width height channels
      kernelX kernelWidth kernelY kernelHeight borderType with
  | error error => exact ⟨hturned error (separableFilter2dValidate_error hvalid), rfl⟩
  | ok b =>
    cases kernelX with
    | none => exact ⟨hturned .nullPointer KleidicvError.noConfusion, rfl⟩
    | some kernelX =>
      cases kernelY with
      | none => exact ⟨hturned .nullPointer KleidicvError.noConfusion, rfl⟩
      | some kernelY =>
        obtain ⟨hwidth, hheight, himage⟩ := separableFilter2dValidate_ok hvalid
        have hh : height ≤ width * height := Nat.le_mul_of_pos_left _ (by omega)
        have hmax : height < sizeMod := (hh.trans himage).trans_lt (by decide)
        have hcpu : WritesRows _ _ (filteredValue kernelX kernelY srcElements
              (elementRows T.size src srcStride channels) width height b channels) _ _
            (separableFilter2dCallbacks T vl srcElements src srcStride dst dstStride width height
              channels kernelX kernelY b).cpu :=
          separableFilter2dCallbacks_cpu vl hwidth hheight himage hstride
        obtain ⟨hwrote, hcode⟩ := parallelBatchesWithSme_rows hcpu
          (separableFilter2dCallbacks_sme vl hwidth hheight himage hstride) hstride (by omega) hmax
          dispatch meets mt m
        have hsingle := fun m =>
          hcpu.done ⟨some buffer, fun _ _ _ => 0⟩ rfl 0 height (Nat.zero_le _) le_rfl m
        have hbatches := parallelBatches_isPartition hmax (by omega) mt.tasks
        have hlength : (parallelBatches height 1 mt.tasks).length = mt.tasks.ranges.length :=
          List.length_map _
        exact ⟨followsSingleCall_of_wrote hbatches (hsingle m).1 (hsingle m).2 hwrote
          (by rw [hlength]; exact hcode), wrote_again hbatches hwrote (hsingle m).2 (hsingle _).2⟩

end

theorem one_lt_unsignedMod : 1 < unsignedMod := by decide

/-- A unit with one slot, for CPU 0. -/
def oneSlot : SmeThreadLimiter := ⟨⟨[0], [true], [⟨0, ⟨1, one_lt_unsignedMod⟩, false⟩]⟩, true⟩

/-- Calls on CPU 0 that get a slot every other time; the second finds no memory. -/
def slotEveryOtherTime : ℕ → BatchMeets (FilterEnvironment .u8) := fun call =>
  ⟨some 0, call % 2 == 0, ⟨if call = 1 then none else some fun _ => 7, fun _ _ _ => 77⟩⟩

/-- Four rows in batches of their own. -/
theorem separableFilter2d_hybrid_fourRows :
    FollowsSingleCall
      (fun call => (slotEveryOtherTime call).environment.allocation.isSome = true)
      (elementRows FilterElement.u8.size 200 4 1) (4 * 1)
      (parallelBatches 4 1 (Multithreading.perTask (taskCount 4 1)).tasks) (fun _ => 0)
      (kleidicvSeparableFilter2d .u8 (fun a => BitVec.ofNat 8 a) 100 4 200 4 4 4 1 (some fun _ => 1)
        5 (some fun _ => 2) 5 .reflect (some fun _ => 0) fun _ => 0)
      (kleidicvThreadSeparableFilter2d .u8 ⟨16, 4, by decide⟩ (.hybrid oneSlot)
        (fun a => BitVec.ofNat 8 a) 100 4 200 4 4 4 1 (some fun _ => 1) 5 (some fun _ => 2) 5 .reflect
        slotEveryOtherTime (Multithreading.perTask (taskCount 4 1)) fun _ => 0) :=
  (separableFilter2d_hybrid ⟨16, 4, by decide⟩ (.hybrid oneSlot) (by decide) slotEveryOtherTime
    (Multithreading.perTask (taskCount 4 1)) (fun _ => 0) fun _ => 0).1

end KleidiCV
