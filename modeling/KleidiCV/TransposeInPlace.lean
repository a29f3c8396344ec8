/-
`kleidicv_transpose` on Neon, with the source as destination.

Tiles on the diagonal are transposed where they are, tiles across the diagonal
are exchanged through a temporary one, and what does not fill a tile is swapped
pixel by pixel.  All of them are addressed with the destination stride.

* `exchangeSteps` — the exchanges, in the order of the code;
* `ExchangeStep.run_wrote` — what one exchange does to the memory;
* `exchangeSteps_exchanged` — every pair is exchanged by one of them;
* `kleidicvTranspose_inPlace` — which square image is transposed.
-/
import KleidiCV.Transpose

open Loop

namespace KleidiCV

namespace InPlace

/-! ### The exchanges -/

/-- An exchange of `transpose_in_place`: a tile on the diagonal, two tiles across it, or two
pixels. -/
inductive ExchangeStep where
  | diagonalTile (vindex : ℕ)
  | mirrorTiles (vindex hindex : ℕ)
  | pixels (i j : ℕ)

/-- A tile, transposed from the rows of `srcMem`. -/
def transposeTile (sz P : ℕ) (srcRows dstRows : PixelRows) (srcMem m : Mem) : Mem :=
  if P = 3 then rotateTransposeTile3ch sz false srcRows dstRows (fun index _ => index) srcMem m
  else rotateTransposeTile sz false srcRows dstRows (fun index _ => index) srcMem m

/-- The temporary memory for one tile. -/
def tmpRows (sz : ℕ) (rows : PixelRows) : PixelRows :=
  ⟨0, numLanes sz * rows.pixel, rows.pixel⟩

/-- What the code does in an exchange. -/
def ExchangeStep.run (sz P : ℕ) (rows : PixelRows) (m : Mem) : ExchangeStep → Mem
  | .diagonalTile vindex =>
    transposeTile sz P (rows.atPixel vindex vindex) (rows.atPixel vindex vindex) m m
  | .mirrorTiles vindex hindex =>
    let tmp := transposeTile sz P (rows.atPixel vindex hindex) (tmpRows sz rows) m fun _ => 0
    copyNonOverlappingRows (numLanes sz) (numLanes sz) tmp (tmpRows sz rows)
      (rows.atPixel hindex vindex)
      (transposeTile sz P (rows.atPixel hindex vindex) (rows.atPixel vindex hindex) m m)
  | .pixels i j => swapPixels rows i j m

/-- The exchanges of the rows of a tile, over what `exchange` does for one. -/
def exchangeTileRows {σ : Type*} (numOfLanes width : ℕ) (exchange : σ → ExchangeStep → σ)
    (vindex : ℕ) (s : σ) : σ :=
  let s := exchange s (.diagonalTile vindex)
  if vindex + numOfLanes < width then
    (({ LoopUnroll2.start width numOfLanes with
        index := min (vindex + numOfLanes) width }, s) |>
      LoopUnroll2.unrollOnce (fun hindex s => exchange s (.mirrorTiles vindex hindex)) |>
      LoopUnroll2.remaining (fun hindex finalHindex =>
        forFrom vindex numOfLanes fun i =>
          forFrom hindex (finalHindex - hindex) fun j s => exchange s (.pixels i j))).2
  else s

/-- The exchanges within the last rows, fewer than those of a tile. -/
def exchangeLastRows {σ : Type*} (exchange : σ → ExchangeStep → σ) (vindex finalVindex : ℕ)
    (s : σ) : σ :=
  forFrom vindex (finalVindex - vindex) (fun i =>
    forFrom (i + 1) (finalVindex - (i + 1)) fun j s => exchange s (.pixels i j)) s

/-- The loops of `transpose_in_place`. -/
def exchangeLoop {σ : Type*} (numOfLanes width : ℕ) (exchange : σ → ExchangeStep → σ) (s : σ) : σ :=
  ((LoopUnroll2.start width numOfLanes, s) |>
    LoopUnroll2.unrollOnce (exchangeTileRows numOfLanes width exchange) |>
    LoopUnroll2.remaining (exchangeLastRows exchange)).2

/-- The exchanges, in the order of the code. -/
def exchangeSteps (numOfLanes width : ℕ) : List ExchangeStep :=
  exchangeLoop numOfLanes width (fun steps step => steps ++ [step]) []

theorem transposeInPlace_eq_exchangeLoop (sz P width : ℕ) (rows : PixelRows) (m : Mem) :
    transposeInPlace sz P width rows m =
      (.ok, exchangeLoop (numLanes sz) width (ExchangeStep.run sz P rows) m) := rfl

/-- Two runs of the loops whose exchanges keep a relation between their states. -/
theorem exchangeLoop_rel {σ τ : Type*} (r : σ → τ → Prop) {exchange : σ → ExchangeStep → σ}
    {exchange' : τ → ExchangeStep → τ}
    (hstep : ∀ s t step, r s t → r (exchange s step) (exchange' t step)) (numOfLanes width : ℕ)
    {s : σ} {t : τ} (h : r s t) :
    r (exchangeLoop numOfLanes width exchange s) (exchangeLoop numOfLanes width exchange' t) := by
  have hrow : ∀ i first count s t, r s t →
      r (forFrom first count (fun j s => exchange s (.pixels i j)) s)
        (forFrom first count (fun j s => exchange' s (.pixels i j)) t) :=
    fun i first count s t hst => forRange_rel (fun _ => r) hst fun j _ s t hst => hstep s t _ hst
  have htile : ∀ vindex s t, r s t → r (exchangeTileRows numOfLanes width exchange vindex s)
      (exchangeTileRows numOfLanes width exchange' vindex t) := by
    intro vindex s t hst
    have hdiagonal := hstep s t (.diagonalTile vindex) hst
    simp only [exchangeTileRows]
    split_ifs
    · have hmirror := LoopUnroll2.unrollNTimes_rel r 1
        (fun hindex s t hst => hstep s t (.mirrorTiles vindex hindex) hst) hdiagonal
      refine LoopUnroll2.remaining_rel r ?_ (hmirror _).1 (hmirror _).2
      intro hindex finalHindex s t hst
      exact forRange_rel (fun _ => r) hst fun i _ s t hst => hrow _ _ _ s t hst
    · exact hdiagonal
  have htiles := LoopUnroll2.unrollNTimes_rel r 1 htile h
  refine LoopUnroll2.remaining_rel r ?_ (htiles _).1 (htiles _).2
  intro vindex finalVindex s t hst
  exact forRange_rel (fun _ => r) hst fun i _ s t hst => hrow _ _ _ s t hst

/-- The code makes the exchanges of the list, one after the other. -/
theorem transposeInPlace_eq (sz P width : ℕ) (rows : PixelRows) (m : Mem) :
    transposeInPlace sz P width rows m =
      (.ok, (exchangeSteps (numLanes sz) width).foldl (ExchangeStep.run sz P rows) m) := by
  rw [transposeInPlace_eq_exchangeLoop]
  congr 1
  refine exchangeLoop_rel (fun m' (steps : List ExchangeStep) => m' = steps.foldl (ExchangeStep.run sz P rows) m) ?_ _ _ rfl
  intro m' steps step h
  rw [h, List.foldl_append]
  rfl

/-! ### Every pair once -/

/-- The exchanges that stay in a square of `n` pixels. -/
def ExchangeStep.InBounds (numOfLanes n : ℕ) : ExchangeStep → Prop
  | .diagonalTile vindex => vindex + numOfLanes ≤ n
  | .mirrorTiles vindex hindex => vindex + numOfLanes ≤ hindex ∧ hindex + numOfLanes ≤ n
  | .pixels i j => i < j ∧ j < n

/-- Whether the pixels at `(i, j)` and `(j, i)` are exchanged. -/
def ExchangeStep.Exchanges (numOfLanes i j : ℕ) : ExchangeStep → Prop
  | .diagonalTile vindex =>
    (vindex ≤ i ∧ i < vindex + numOfLanes) ∧ vindex ≤ j ∧ j < vindex + numOfLanes
  | .mirrorTiles vindex hindex =>
    ((vindex ≤ i ∧ i < vindex + numOfLanes) ∧ hindex ≤ j ∧ j < hindex + numOfLanes) ∨
      ((vindex ≤ j ∧ j < vindex + numOfLanes) ∧ hindex ≤ i ∧ i < hindex + numOfLanes)
  | .pixels a b => (i = a ∧ j = b) ∨ (j = a ∧ i = b)

instance (numOfLanes i j : ℕ) (step : ExchangeStep) : Decidable (step.Exchanges numOfLanes i j) :=
  match step with
  | .diagonalTile _ => inferInstanceAs (Decidable (_ ∧ _))
  | .mirrorTiles _ _ => inferInstanceAs (Decidable (_ ∨ _))
  | .pixels _ _ => inferInstanceAs (Decidable (_ ∨ _))

/-- How many of the exchanges are of `(i, j)` and `(j, i)`. -/
def timesExchanged (numOfLanes : ℕ) (steps : List ExchangeStep) (i j : ℕ) : ℕ :=
  steps.countP fun step => decide (step.Exchanges numOfLanes i j)

/-- The pairs of `done` have been exchanged once, and no others. -/
structure Exchanged (numOfLanes n : ℕ) (done : ℕ → ℕ → Prop) (steps : List ExchangeStep) :
    Prop where
  inBounds : ∀ step ∈ steps, step.InBounds numOfLanes n
  once : ∀ i j, done i j → timesExchanged numOfLanes steps i j = 1
  never : ∀ i j, ¬done i j → timesExchanged numOfLanes steps i j = 0

section

variable {numOfLanes n : ℕ} {done done' : ℕ → ℕ → Prop} {steps : List ExchangeStep}

theorem Exchanged.congr (h : Exchanged numOfLanes n done steps)
    (hiff : ∀ i j, done i j ↔ done' i j) : Exchanged numOfLanes n done' steps :=
  ⟨h.inBounds, fun i j hd => h.once i j ((hiff i j).mpr hd),
    fun i j hd => h.never i j fun hcon => hd ((hiff i j).mp hcon)⟩

theorem timesExchanged_snoc (step : ExchangeStep) (i j : ℕ) :
    timesExchanged numOfLanes (steps ++ [step]) i j =
      timesExchanged numOfLanes steps i j + if step.Exchanges numOfLanes i j then 1 else 0 := by
  unfold timesExchanged
  rw [List.countP_append, List.countP_singleton]
  simp only [decide_eq_true_eq]

/-- One more exchange, of pairs that have not been exchanged yet. -/
theorem Exchanged.snoc (h : Exchanged numOfLanes n done steps) {step : ExchangeStep}
    (hin : step.InBounds numOfLanes n)
    (hnew : ∀ i j, step.Exchanges numOfLanes i j → ¬done i j)
    (hiff : ∀ i j, done' i j ↔ done i j ∨ step.Exchanges numOfLanes i j) :
    Exchanged numOfLanes n done' (steps ++ [step]) := by
  refine ⟨?_, ?_, ?_⟩
  · intro step' hmem
    rcases List.mem_append.mp hmem with hold | hlast
    · exact h.inBounds step' hold
    · rw [List.mem_singleton.mp hlast]
      exact hin
  · intro i j hd
    rw [timesExchanged_snoc]
    rcases (hiff i j).mp hd with hold | hstep
    · rw [h.once i j hold, if_neg fun hcon => hnew i j hcon hold]
    · rw [h.never i j (hnew i j hstep), if_pos hstep]
  · intro i j hd
    have hnot := not_or.mp fun hcon => hd ((hiff i j).mpr hcon)
    rw [timesExchanged_snoc, h.never i j hnot.1, if_neg hnot.2]

end

/-- The pairs with a pixel in the first `v` rows. -/
def rowsDone (n v i j : ℕ) : Prop := (i < v ∨ j < v) ∧ i < n ∧ j < n

/-- Of the next rows, those of a tile, the columns before `h` are done, too. -/
def tilesDone (numOfLanes n v h i j : ℕ) : Prop :=
  rowsDone n v i j ∨ ((v ≤ i ∧ i < v + numOfLanes) ∧ v ≤ j ∧ j < h) ∨
    ((v ≤ j ∧ j < v + numOfLanes) ∧ v ≤ i ∧ i < h)

section

variable {numOfLanes n v : ℕ} {done : ℕ → ℕ → Prop} {steps : List ExchangeStep}

/-- Rows of pixels above the diagonal, each from a column of its own on. -/
theorem exchangePixels_exchanged (first : ℕ → ℕ) (count : ℕ) (hrows : v + count ≤ n)
    (hfirst : ∀ i, v ≤ i → i < v + count → i < first i ∧ first i ≤ n)
    (hnew : ∀ i j, v ≤ i → i < v + count → first i ≤ j → j < n → ¬done i j ∧ ¬done j i)
    (h : Exchanged numOfLanes n done steps) :
    Exchanged numOfLanes n (fun i j => done i j ∨
        (v ≤ i ∧ i < v + count ∧ first i ≤ j ∧ j < n) ∨
        (v ≤ j ∧ j < v + count ∧ first j ≤ i ∧ i < n))
      (forFrom v count (fun i => forFrom (first i) (n - first i) fun j steps =>
        steps ++ [.pixels i j]) steps) := by
  refine forFrom_invariant (fun r => Exchanged numOfLanes n fun i j => done i j ∨
    (v ≤ i ∧ i < r ∧ first i ≤ j ∧ j < n) ∨ (v ≤ j ∧ j < r ∧ first j ≤ i ∧ i < n)) ?_ ?_
  · exact h.congr fun i j => ⟨.inl, fun hcon => hcon.elim id fun hnone => by omega⟩
  · intro r hlow hr steps' hsteps
    obtain ⟨habove, hfit⟩ := hfirst r hlow hr
    -- Within row `r`, the columns before `c` are done.
    have hrow : Exchanged numOfLanes n (fun i j => done i j ∨
          ((v ≤ i ∧ i < r ∧ first i ≤ j ∧ j < n) ∨ (v ≤ j ∧ j < r ∧ first j ≤ i ∧ i < n)) ∨
          (i = r ∧ first r ≤ j ∧ j < first r + (n - first r)) ∨
          (j = r ∧ first r ≤ i ∧ i < first r + (n - first r)))
        (forFrom (first r) (n - first r) (fun j steps => steps ++ [.pixels r j]) steps') := by
      refine forFrom_invariant (fun c => Exchanged numOfLanes n fun i j => done i j ∨
        ((v ≤ i ∧ i < r ∧ first i ≤ j ∧ j < n) ∨ (v ≤ j ∧ j < r ∧ first j ≤ i ∧ i < n)) ∨
        (i = r ∧ first r ≤ j ∧ j < c) ∨ (j = r ∧ first r ≤ i ∧ i < c)) ?_ ?_
      · exact hsteps.congr fun i j => or_congr_right (by omega)
      · intro c hc hcn steps'' hsteps''
        obtain ⟨hupper, hlower⟩ := hnew r c hlow hr hc (by omega)
        refine hsteps''.snoc ⟨by omega, by omega⟩ ?_ ?_
        · rintro i j (⟨rfl, rfl⟩ | ⟨rfl, rfl⟩) hcon
          · exact hcon.elim hupper (by omega)
          · exact hcon.elim hlower (by omega)
        · intro i j
          refine Iff.trans (or_congr_right ?_) or_assoc.symm
          simp only [ExchangeStep.Exchanges]
          omega
    rw [Nat.add_sub_cancel' hfit] at hrow
    refine hrow.congr fun i j => or_congr_right ?_
    rcases eq_or_ne r i with rfl | hi <;> rcases eq_or_ne r j with rfl | hj <;> omega

/-- Tiles across the diagonal, then the pixels beside them. -/
theorem exchangeTileRows_exchanged (hN : 0 < numOfLanes) (hv : v + numOfLanes ≤ n)
    (h : Exchanged numOfLanes n (rowsDone n v) steps) :
    Exchanged numOfLanes n (rowsDone n (v + numOfLanes))
      (exchangeTileRows numOfLanes n (fun steps step => steps ++ [step]) v steps) := by
  have hdiagonal : Exchanged numOfLanes n (tilesDone numOfLanes n v (v + numOfLanes))
      (steps ++ [.diagonalTile v]) := by
    refine h.snoc hv ?_ ?_
    · simp only [ExchangeStep.Exchanges, rowsDone]
      omega
    · simp only [ExchangeStep.Exchanges, rowsDone, tilesDone]
      omega
  have hlast : ∀ i j, tilesDone numOfLanes n v n i j ↔ rowsDone n (v + numOfLanes) i j := by
    intro i j
    simp only [tilesDone, rowsDone]
    omega
  simp only [exchangeTileRows]
  split_ifs with hmore
  · have hstart : Unrolled n numOfLanes
        (fun c steps => v + numOfLanes ≤ c ∧
          Exchanged numOfLanes n (tilesDone numOfLanes n v c) steps)
        ({ LoopUnroll2.start n numOfLanes with index := min (v + numOfLanes) n },
          steps ++ [.diagonalTile v]) := by
      refine ⟨rfl, rfl, rfl, Nat.min_le_right _ _, ?_⟩
      simp only [Nat.min_eq_left hv]
      exact ⟨le_rfl, hdiagonal⟩
    refine hstart.unrollOnce_remaining hN (Exchanged numOfLanes n (rowsDone n (v + numOfLanes)))
      ?_ ?_ ?_
    · rintro c steps' hc ⟨hlow, hsteps⟩
      refine ⟨by omega, hsteps.snoc ⟨hlow, hc⟩ ?_ ?_⟩
      · simp only [ExchangeStep.Exchanges, tilesDone, rowsDone]
        omega
      · simp only [ExchangeStep.Exchanges, tilesDone, rowsDone]
        omega
    · rintro steps' ⟨-, hsteps⟩
      exact hsteps.congr hlast
    · rintro c steps' hc - ⟨hlow, hsteps⟩
      refine (exchangePixels_exchanged (fun _ => c) _ hv (fun i _ _ => ⟨by omega, hc.le⟩) ?_
        hsteps).congr ?_
      · simp only [tilesDone, rowsDone]
        omega
      · simp only [tilesDone, rowsDone]
        omega
  · have hn : v + numOfLanes = n := by omega
    rw [hn] at hdiagonal
    exact hdiagonal.congr hlast

/-- Every pixel above the diagonal is exchanged once, and no pixel more than once. -/
theorem exchangeSteps_exchanged (hN : 0 < numOfLanes) (n : ℕ) :
    ∃ done, Exchanged numOfLanes n done (exchangeSteps numOfLanes n) ∧
      ∀ i < n, ∀ j < n, i ≠ j → done i j := by
  have hstart : Unrolled n numOfLanes (fun v => Exchanged numOfLanes n (rowsDone n v))
      (LoopUnroll2.start n numOfLanes, []) := by
    refine .start ⟨fun step hmem => absurd hmem List.not_mem_nil, ?_, fun _ _ _ => rfl⟩
    intro i j hcon
    simp only [rowsDone] at hcon
    omega
  refine hstart.unrollOnce_remaining hN (fun steps => ∃ done, Exchanged numOfLanes n done steps ∧
    ∀ i < n, ∀ j < n, i ≠ j → done i j) ?_ ?_ ?_
  · exact fun v steps hv hsteps => exchangeTileRows_exchanged hN hv hsteps
  · exact fun steps hsteps => ⟨_, hsteps, fun i hi j hj _ => ⟨.inl hi, hi, hj⟩⟩
  · intro v steps hv _ hsteps
    -- In the last rows only the pixels right of the diagonal are left.
    refine ⟨_, exchangePixels_exchanged (fun i => i + 1) (n - v) (by omega) ?_ ?_ hsteps,
      ?_⟩
    · omega
    · simp only [rowsDone]
      omega
    · simp only [rowsDone]
      omega

end

/-! ### What an exchange does -/

section

variable {sz P n p : ℕ} {rows : PixelRows} {m : Mem}

/-- The bytes that an exchange moves. -/
def ExchangeStep.part (numOfLanes p : ℕ) (step : ExchangeStep) : Set (ℕ × ℕ × ℕ) :=
  {q | step.Exchanges numOfLanes q.1 q.2.1 ∧ q.2.2 < p}

/-- The byte across the diagonal. -/
def across (rows : PixelRows) (m : Mem) (q : ℕ × ℕ × ℕ) : U8 := m (rows.byteAt (q.2.1, q.1, q.2.2))

/-- The last byte of a row of pixels. -/
theorem rowByte_divMod {w j : ℕ} (hp : 0 < p) (hj : j < w * p) :
    j / p < w ∧ j % p < p ∧ j / p * p + j % p = j :=
  ⟨Nat.div_lt_of_lt_mul (by rwa [Nat.mul_comm]), Nat.mod_lt _ hp, Nat.div_add_mod' j p⟩

/-- A row of pixels, overwritten. -/
theorem row_wrote {w row : ℕ} {addr : ℕ × ℕ × ℕ → ℕ} {v : ℕ × ℕ × ℕ → U8} {d : ℕ} {g : ℕ → U8}
    (hp : 0 < p) (haddr : ∀ i k, addr (row, i, k) = d + (i * p + k))
    (hvalue : ∀ i < w, ∀ k < p, g (i * p + k) = v (row, i, k)) (m : Mem) :
    Wrote addr v (rectPart row (row + 1) 0 w p) m (overwrite m d (w * p) g) := by
  refine overwrite_wrote ?_ fun j hj => ?_
  · rintro ⟨y, i, k⟩ ⟨hy, hi, hk⟩
    simp only at hy hi hk
    obtain rfl : y = row := by omega
    exact ⟨i * p + k, pixelByte_lt hi.2 hk, haddr i k, hvalue i hi.2 k hk⟩
  · obtain ⟨hi, hk, hsum⟩ := rowByte_divMod hp hj
    refine ⟨(row, j / p, j % p), ⟨⟨le_rfl, Nat.lt_succ_self _⟩, ⟨Nat.zero_le _, hi⟩, hk⟩, ?_⟩
    rw [haddr, hsum]

theorem rectPart_rows (h w p : ℕ) :
    ⋃ t < h, rectPart t (t + 1) 0 w p = rectPart 0 h 0 w p := by
  ext ⟨y, x, k⟩
  simp only [Set.mem_iUnion, rectPart, Set.mem_ofPred_eq, exists_prop]
  constructor
  · rintro ⟨t, ht, hy, hx, hk⟩
    exact ⟨by omega, hx, hk⟩
  · rintro ⟨hy, hx, hk⟩
    exact ⟨y, hy.2, ⟨le_rfl, Nat.lt_succ_self y⟩, hx, hk⟩

/-- A tile is written transposed. -/
theorem transposeTile_wrote (hsz : ScalarSize sz) (hP : P = 1 ∨ P = 3) (hp : p = P * sz)
    (src dst : PixelRows) (hsrc : src.pixel = p) (hdst : dst.pixel = p)
    (hinj : Set.InjOn dst.byteAt (rectPart 0 (numLanes sz) 0 (numLanes sz) p)) (srcMem m : Mem) :
    Wrote dst.byteAt (across src srcMem) (rectPart 0 (numLanes sz) 0 (numLanes sz) p) m
      (transposeTile sz P src dst srcMem m) := by
  have hpos : 0 < p := hp ▸ Nat.mul_pos (by omega) hsz.pos
  unfold transposeTile
  rw [tile_store_from hsz hP, ← hp]
  refine (Wrote.forRange hinj (fun t => rectPart t (t + 1) 0 (numLanes sz) p)
    (fun t ht => rectPart_subset ht le_rfl) m fun t ht m' _ => ?_).congr (rectPart_rows _ _ _)
  refine row_wrote hpos (fun i k => ?_) (fun i hi k hk => ?_) m'
  · simp only [PixelRows.byteAt, PixelRows.atPixel, hdst]
    omega
  · obtain ⟨hdiv, hmod⟩ : (i * p + k) / p = i ∧ (i * p + k) % p = k := by
      rw [Nat.mul_comm, Nat.mul_add_div hpos, Nat.div_eq_of_lt hk, Nat.mul_add_mod,
        Nat.mod_eq_of_lt hk]
      exact ⟨Nat.add_zero i, rfl⟩
    simp only [across, PixelRows.byteAt, hsrc, hdiv, hmod, tileRow, Bool.false_eq_true, if_false,
      Nat.add_assoc]

/-- `copy_rows` of a square. -/
theorem copyNonOverlappingRows_wrote {w : ℕ} (src dst : PixelRows) (hw : w * w < sizeMod)
    (hp : 0 < p) (hsrc : src.pixel = p) (hdst : dst.pixel = p)
    (hinj : Set.InjOn dst.byteAt (rectPart 0 w 0 w p)) (tmp m : Mem) :
    Wrote dst.byteAt (fun q => tmp (src.byteAt q)) (rectPart 0 w 0 w p) m
      (copyNonOverlappingRows w w tmp src dst m) := by
  unfold copyNonOverlappingRows
  rw [zipRows_eq _ hw]
  split
  · -- Without gaps the rows are copied as one.
    rename_i hcontinuous
    rw [hsrc, hdst, Bool.and_eq_true, beq_iff_eq, beq_iff_eq] at hcontinuous
    obtain ⟨hs, hd⟩ := hcontinuous
    have haddr : ∀ y x k, dst.byteAt (y, x, k) = dst.base + ((y * w + x) * p + k) := by
      intro y x k
      simp only [PixelRows.byteAt, hdst, hd]
      ring
    simp only [PixelRows.atPixel, Nat.zero_mul, Nat.add_zero, hdst]
    refine overwrite_wrote ?_ fun j hj => ?_
    · rintro ⟨y, x, k⟩ ⟨hy, hx, hk⟩
      refine ⟨(y * w + x) * p + k, pixelByte_lt (pixelByte_lt hy.2 hx.2) hk, haddr y x k, ?_⟩
      simp only [PixelRows.byteAt, hsrc, hs]
      congr 1
      ring
    · obtain ⟨hpixel, hk, hsum⟩ := rowByte_divMod hp hj
      have hw0 : 0 < w := by
        rcases Nat.eq_zero_or_pos w with rfl | hw0
        · omega
        · exact hw0
      obtain ⟨hy, hx, hrow⟩ := rowByte_divMod hw0 hpixel
      refine ⟨(j / p / w, j / p % w, j % p), ⟨⟨Nat.zero_le _, hy⟩, ⟨Nat.zero_le _, hx⟩, hk⟩, ?_⟩
      rw [haddr, hrow, hsum]
  · refine (Wrote.forRange hinj (fun t => rectPart t (t + 1) 0 w p)
      (fun t ht => rectPart_subset ht le_rfl) m fun t ht m' _ => ?_).congr (rectPart_rows _ _ _)
    rw [hdst]
    refine row_wrote hp (fun i k => ?_) (fun i hi k hk => ?_) m'
    · simp only [PixelRows.byteAt, PixelRows.atPixel, hdst]
      omega
    · simp only [PixelRows.byteAt, PixelRows.atPixel, hsrc]
      congr 1
      omega

theorem byteAt_atPixel (rows : PixelRows) (row column y x k : ℕ) :
    (rows.atPixel row column).byteAt (y, x, k) = rows.byteAt (row + y, column + x, k) := by
  simp only [PixelRows.byteAt, PixelRows.atPixel]
  ring

/-- The bytes of a rectangle of the square do not overlap. -/
theorem atPixel_injOn (hinj : Set.InjOn rows.byteAt (rectPart 0 n 0 n p)) {row column w : ℕ}
    (hrow : row + w ≤ n) (hcolumn : column + w ≤ n) :
    Set.InjOn (rows.atPixel row column).byteAt (rectPart 0 w 0 w p) := by
  rintro ⟨y, x, k⟩ ⟨hy, hx, hk⟩ ⟨y', x', k'⟩ ⟨hy', hx', hk'⟩ heq
  simp only at hy hx hk hy' hx' hk'
  rw [byteAt_atPixel, byteAt_atPixel] at heq
  have hsame := hinj (show (row + y, column + x, k) ∈ _ from
      ⟨⟨Nat.zero_le _, by simp only; omega⟩, ⟨Nat.zero_le _, by simp only; omega⟩, hk⟩)
    (show (row + y', column + x', k') ∈ _ from
      ⟨⟨Nat.zero_le _, by simp only; omega⟩, ⟨Nat.zero_le _, by simp only; omega⟩, hk'⟩) heq
  simp only [Prod.mk.injEq, Nat.add_left_cancel_iff] at hsame ⊢
  exact hsame

/-- A square of pixels, as a part of the image. -/
theorem wrote_atPixel {row column w : ℕ} {v v' : ℕ × ℕ × ℕ → U8} {m' : Mem}
    (h : Wrote (rows.atPixel row column).byteAt v' (rectPart 0 w 0 w p) m m')
    (hvalue : ∀ y < w, ∀ x < w, ∀ k, v' (y, x, k) = v (row + y, column + x, k)) :
    Wrote rows.byteAt v (rectPart row (row + w) column (column + w) p) m m' := by
  refine h.reindex (fun q => (q.1 - row, q.2.1 - column, q.2.2)) ?_ ?_
  · rintro ⟨y, x, k⟩ ⟨hy, hx, hk⟩
    obtain ⟨y, rfl⟩ := Nat.exists_eq_add_of_le hy.1
    obtain ⟨x, rfl⟩ := Nat.exists_eq_add_of_le hx.1
    simp only [Nat.add_sub_cancel_left, Nat.add_lt_add_iff_left] at hy hx hk ⊢
    exact ⟨⟨⟨Nat.zero_le y, hy.2⟩, ⟨Nat.zero_le x, hx.2⟩, hk⟩, byteAt_atPixel ..,
      hvalue y hy.2 x hx.2 k⟩
  · rintro ⟨y, x, k⟩ ⟨hy, hx, hk⟩
    simp only at hy hx
    refine ⟨(row + y, column + x, k), ⟨⟨Nat.le_add_right _ _, by simp only; omega⟩,
      ⟨Nat.le_add_right _ _, by simp only; omega⟩, hk⟩, ?_⟩
    simp only [Nat.add_sub_cancel_left]

/-- Two pixels off the diagonal are swapped. -/
theorem swapPixels_wrote (hp : 0 < p) (hpixel : rows.pixel = p)
    (hinj : Set.InjOn rows.byteAt (rectPart 0 n 0 n p)) {i j : ℕ} (hij : i < j) (hj : j < n)
    (m : Mem) :
    Wrote rows.byteAt (across rows m) ((ExchangeStep.pixels i j).part (numLanes sz) p) m
      (swapPixels rows i j m) := by
  have hmem : ∀ {y x k}, y < n → x < n → k < p → (y, x, k) ∈ rectPart 0 n 0 n p :=
    fun hy hx hk => ⟨⟨Nat.zero_le _, hy⟩, ⟨Nat.zero_le _, hx⟩, hk⟩
  have haddr : ∀ y x k, rows.byteAt (y, x, k) = (rows.atPixel y x).base + k := fun y x k => by
    simp only [PixelRows.byteAt, PixelRows.atPixel, Nat.add_assoc]
  have happart := ranges_disjoint (a := (rows.atPixel i j).base) (b := (rows.atPixel j i).base) hp hp
    fun k hk k' hk' heq => by
      rw [← haddr, ← haddr] at heq
      have := congrArg Prod.fst (hinj (hmem (by omega) hj hk) (hmem hj (by omega) hk') heq)
      simp only at this
      omega
  rw [swapPixels, hpixel, swapRanges_eq happart]
  -- The pixel at `(y, x)` takes the value of the one at `(x, y)`.
  have hone : ∀ y x m', y < n → x < n →
      Wrote rows.byteAt (across rows m) {q | (q.1 = y ∧ q.2.1 = x) ∧ q.2.2 < p} m'
        (overwrite m' (rows.atPixel y x).base p fun k => m ((rows.atPixel x y).base + k)) := by
    intro y x m' hy hx
    refine overwrite_wrote ?_ fun k hk => ⟨(y, x, k), ⟨⟨rfl, rfl⟩, hk⟩, haddr y x k⟩
    rintro ⟨_, _, k⟩ ⟨⟨rfl, rfl⟩, hk⟩
    exact ⟨k, hk, haddr _ _ k, by rw [across, haddr]⟩
  have hsub : ∀ {y x}, y < n → x < n →
      {q : ℕ × ℕ × ℕ | (q.1 = y ∧ q.2.1 = x) ∧ q.2.2 < p} ⊆ rectPart 0 n 0 n p := by
    rintro y x hy hx ⟨_, _, k⟩ ⟨⟨rfl, rfl⟩, hk⟩
    exact hmem hy hx hk
  refine ((hone i j m (by omega) hj).trans hinj (hsub (by omega) hj) (hsub hj (by omega))
    (hone j i _ hj (by omega))).congr ?_
  ext ⟨y, x, k⟩
  simp only [ExchangeStep.part, ExchangeStep.Exchanges, Set.mem_union, Set.mem_ofPred_eq]
  omega

/-- An exchange puts the value of every byte across the diagonal, and writes nothing else. -/
theorem ExchangeStep.run_wrote (hsz : ScalarSize sz) (hP : P = 1 ∨ P = 3) (hp : p = P * sz)
    (hpixel : rows.pixel = p) (hinj : Set.InjOn rows.byteAt (rectPart 0 n 0 n p))
    {step : ExchangeStep} (hin : step.InBounds (numLanes sz) n) (m : Mem) :
    Wrote rows.byteAt (across rows m) (step.part (numLanes sz) p) m (step.run sz P rows m) := by
  have hpos : 0 < p := hp ▸ Nat.mul_pos (by omega) hsz.pos
  have hacross : ∀ row column y x k, across (rows.atPixel row column) m (y, x, k) =
      across rows m (column + y, row + x, k) := by
    intro row column y x k
    simp only [across, byteAt_atPixel]
  have hlanes : numLanes sz * numLanes sz < sizeMod := by
    rcases hsz with rfl | rfl | rfl | rfl <;> decide
  cases step with
  | diagonalTile v =>
    have htile := transposeTile_wrote hsz hP hp (rows.atPixel v v) (rows.atPixel v v) hpixel hpixel
      (atPixel_injOn hinj hin hin) m m
    refine (wrote_atPixel htile fun y _ x _ k => hacross v v y x k).congr ?_
    ext ⟨y, x, k⟩
    simp only [rectPart, ExchangeStep.part, ExchangeStep.Exchanges, Set.mem_ofPred_eq]
    omega
  | mirrorTiles v h =>
    obtain ⟨hvh, hh⟩ := hin
    have htmpPixel : (tmpRows sz rows).pixel = p := hpixel
    have htmpInj : Set.InjOn (tmpRows sz rows).byteAt
        (rectPart 0 (numLanes sz) 0 (numLanes sz) p) :=
      byteAt_injOn htmpPixel (.inl (by rw [← hpixel]; exact le_rfl))
    have htmp := transposeTile_wrote hsz hP hp (rows.atPixel v h) (tmpRows sz rows) hpixel
      htmpPixel htmpInj m fun _ => 0
    have hupper := wrote_atPixel
      (transposeTile_wrote hsz hP hp (rows.atPixel h v) (rows.atPixel v h) hpixel hpixel
        (atPixel_injOn hinj (by omega) hh) m m)
      fun y _ x _ k => hacross h v y x k
    -- The temporary tile still holds what the upper one held.
    have hcopy := (copyNonOverlappingRows_wrote (tmpRows sz rows) (rows.atPixel h v) hlanes hpos
      htmpPixel hpixel (atPixel_injOn hinj hh (by omega)) _
      (transposeTile sz P (rows.atPixel h v) (rows.atPixel v h) m m)).congr_value htmp.value
    have hlower := wrote_atPixel hcopy fun y _ x _ k => hacross v h y x k
    refine (hupper.trans hinj (rectPart_subset (by omega) hh) (rectPart_subset hh (by omega))
      hlower).congr ?_
    ext ⟨y, x, k⟩
    simp only [rectPart, ExchangeStep.part, ExchangeStep.Exchanges, Set.mem_union,
      Set.mem_ofPred_eq]
    omega
  | pixels i j => exact swapPixels_wrote hpos hpixel hinj hin.1 hin.2 m

/-! ### All exchanges -/

theorem ExchangeStep.exchanges_comm {numOfLanes i j : ℕ} (step : ExchangeStep) :
    step.Exchanges numOfLanes i j ↔ step.Exchanges numOfLanes j i := by
  cases step <;> simp only [ExchangeStep.Exchanges] <;> omega

theorem ExchangeStep.Exchanges.lt {numOfLanes i j : ℕ} {step : ExchangeStep}
    (h : step.Exchanges numOfLanes i j) (hin : step.InBounds numOfLanes n) : i < n ∧ j < n := by
  cases step <;> simp only [ExchangeStep.Exchanges, ExchangeStep.InBounds] at h hin <;> omega

theorem timesExchanged_pos {numOfLanes i j : ℕ} {steps : List ExchangeStep} :
    0 < timesExchanged numOfLanes steps i j ↔ ∃ step ∈ steps, step.Exchanges numOfLanes i j := by
  simp only [timesExchanged, List.countP_pos_iff, decide_eq_true_eq]

/-- Exchanges of different pairs, one after the other. -/
theorem steps_wrote (hsz : ScalarSize sz) (hP : P = 1 ∨ P = 3) (hp : p = P * sz)
    (hpixel : rows.pixel = p) (hinj : Set.InjOn rows.byteAt (rectPart 0 n 0 n p))
    (steps : List ExchangeStep) (hin : ∀ step ∈ steps, step.InBounds (numLanes sz) n)
    (honce : ∀ i j, timesExchanged (numLanes sz) steps i j ≤ 1) (m : Mem) :
    Wrote rows.byteAt (across rows m) (⋃ step ∈ steps, step.part (numLanes sz) p) m
      (steps.foldl (ExchangeStep.run sz P rows) m) := by
  have hsub : ∀ step : ExchangeStep, step.InBounds (numLanes sz) n →
      step.part (numLanes sz) p ⊆ rectPart 0 n 0 n p := by
    rintro step hstep ⟨y, x, k⟩ ⟨hex, hk⟩
    obtain ⟨hy, hx⟩ := hex.lt hstep
    exact ⟨⟨Nat.zero_le y, hy⟩, ⟨Nat.zero_le x, hx⟩, hk⟩
  refine Wrote.foldl hinj (fun step hmem => hsub step (hin step hmem)) m ?_
  intro earlier step later hsteps m' hm'
  have hstep : step.InBounds (numLanes sz) n := hin step (by simp [hsteps])
  refine (step.run_wrote hsz hP hp hpixel hinj hstep m').congr_value ?_
  -- No exchange before this one has touched the bytes across.
  rintro ⟨y, x, k⟩ ⟨hex, hk⟩
  obtain ⟨hy, hx⟩ := hex.lt hstep
  refine hm'.read ?_
  rintro ⟨y', x', k'⟩ hmem heq
  simp only [Set.mem_iUnion, exists_prop] at hmem
  obtain ⟨step', hstep', hpart⟩ := hmem
  have hbounds := hsub step' (hin step' (by simp [hsteps, hstep'])) hpart
  have hsame := hinj hbounds (show (x, y, k) ∈ rectPart 0 n 0 n p from
    ⟨⟨Nat.zero_le _, hx⟩, ⟨Nat.zero_le _, hy⟩, hk⟩) heq
  simp only [Prod.mk.injEq] at hsame
  obtain ⟨rfl, rfl, rfl⟩ := hsame
  have htwice : 2 ≤ timesExchanged (numLanes sz) steps y' x' := by
    have hbefore : 0 < timesExchanged (numLanes sz) earlier y' x' :=
      timesExchanged_pos.mpr ⟨step', hstep', hpart.1⟩
    have hthis : 0 < timesExchanged (numLanes sz) (step :: later) y' x' :=
      timesExchanged_pos.mpr ⟨step, List.mem_cons_self, step.exchanges_comm.mp hex⟩
    rw [hsteps, timesExchanged, List.countP_append]
    simp only [timesExchanged] at hbefore hthis
    omega
  have := honce y' x'
  omega

/-- In place, a square is transposed. -/
theorem transposeInPlace_transposed (hsz : ScalarSize sz) (hP : P = 1 ∨ P = 3) (hp : p = P * sz)
    (hpixel : rows.pixel = p) (hrows : n * p ≤ rows.stride ∨ n ≤ 1) (m : Mem) {i j k : ℕ}
    (hi : i < n) (hj : j < n) (hk : k < p) :
    (transposeInPlace sz P n rows m).2 (rows.byteAt (i, j, k)) = m (rows.byteAt (j, i, k)) := by
  obtain ⟨done, hsteps, hall⟩ := exchangeSteps_exchanged hsz.numLanes_pos n
  have hinj := byteAt_injOn hpixel hrows
  have hmost : ∀ i j, timesExchanged (numLanes sz) (exchangeSteps (numLanes sz) n) i j ≤ 1 := by
    intro i j
    by_cases hd : done i j
    · exact (hsteps.once i j hd).le
    · exact (hsteps.never i j hd).le.trans (Nat.zero_le 1)
  have hwrote := steps_wrote hsz hP hp hpixel hinj _ hsteps.inBounds hmost m
  rw [transposeInPlace_eq]
  by_cases hex : 0 < timesExchanged (numLanes sz) (exchangeSteps (numLanes sz) n) i j
  · obtain ⟨step, hmem, hstep⟩ := timesExchanged_pos.mp hex
    exact hwrote.value (i, j, k) (Set.mem_biUnion hmem ⟨hstep, hk⟩)
  · -- Only pixels of the diagonal are left out.
    obtain rfl : i = j := by
      by_contra hne
      have := hsteps.once i j (hall i hi j hj hne)
      omega
    refine hwrote.read ?_
    rintro ⟨y, x, k'⟩ hmem heq
    simp only [Set.mem_iUnion, exists_prop] at hmem
    obtain ⟨step, hin, hstep, hk'⟩ := hmem
    obtain ⟨hy, hx⟩ := hstep.lt (hsteps.inBounds step hin)
    have hsame := hinj (show (y, x, k') ∈ rectPart 0 n 0 n p from
        ⟨⟨Nat.zero_le _, hy⟩, ⟨Nat.zero_le _, hx⟩, hk'⟩)
      (show (i, i, k) ∈ rectPart 0 n 0 n p from ⟨⟨Nat.zero_le _, hi⟩, ⟨Nat.zero_le _, hi⟩, hk⟩) heq
    simp only [Prod.mk.injEq] at hsame
    obtain ⟨rfl, rfl, rfl⟩ := hsame
    exact hex (timesExchanged_pos.mpr ⟨step, hin, hstep⟩)

end

/-! ### The entry point -/

/-- The bytes of a scalar of a pixel of `pixelSize` bytes. -/
def scalarSize (pixelSize : ℕ) : ℕ := if pixelSize % 3 = 0 then pixelSize / 3 else pixelSize

/-- The destination of `m'` holds at `(i, j)` what the source of `m` held at `(j, i)`. -/
def HoldsTransposed (b : Buffers) (n p : ℕ) (m m' : Mem) : Prop :=
  ∀ i < n, ∀ j < n, ∀ k < p, m' ((b.dstRows p).byteAt (i, j, k)) = m ((b.srcRows p).byteAt (j, i, k))

/-- With the source stride and with the destination stride, the same pixels are read. -/
def SameWithBothStrides (b : Buffers) (n p : ℕ) (m : Mem) : Prop :=
  ∀ i < n, ∀ j < n, ∀ k < p, m ((b.srcRows p).byteAt (i, j, k)) = m ((b.dstRows p).byteAt (i, j, k))

/-- The memory after the call comes from exchanges, one of each pair off the diagonal. -/
def ExchangedOnce (b : Buffers) (n p : ℕ) (m m' : Mem) : Prop :=
  let numOfLanes := numLanes (scalarSize p)
  let steps := exchangeSteps numOfLanes n
  steps.foldl (ExchangeStep.run (scalarSize p) (p / scalarSize p) (b.dstRows p)) m = m' ∧
    (∀ step ∈ steps, ∀ m, Wrote (b.dstRows p).byteAt (across (b.dstRows p) m)
      (step.part numOfLanes p) m
      (step.run (scalarSize p) (p / scalarSize p) (b.dstRows p) m)) ∧
    ∀ i < n, ∀ j < n, i ≠ j → timesExchanged numOfLanes steps i j = 1

/-- What an in-place call is meant to do. -/
def TransposedInPlace (b : Buffers) (n p : ℕ) (m m' : Mem) : Prop :=
  HoldsTransposed b n p m m' ∧ ExchangedOnce b n p m m'

section

variable {b : Buffers} {width height pixelSize : ℕ} {m : Mem}

/-- An accepted call with the source as destination is one of the loops, on a square. -/
theorem kleidicvTranspose_inPlace (hsame : b.src = b.dst)
    (hok : (kleidicvTranspose b width height pixelSize m).1 = .ok) :
    ∃ sz P, ScalarSize sz ∧ (P = 1 ∨ P = 3) ∧ pixelSize = P * sz ∧ width = height ∧
      ∀ m, kleidicvTranspose b width height pixelSize m =
        transposeInPlace sz P width (b.dstRows pixelSize) m := by
  obtain ⟨sz, P, hsz, hP, hp, -, hformat⟩ := kleidicvTranspose_format hok
  rw [hformat, transposeScalar] at hok
  refine ⟨sz, P, hsz, hP, hp, ?_⟩
  by_cases hchecks : rotateTransposeChecks sz b width height = .ok
  · by_cases hsquare : width = height
    · refine ⟨hsquare, fun m => ?_⟩
      rw [hformat, transposeScalar]
      simp only [if_neg (not_not.mpr hchecks), if_pos hsame, if_neg (not_not.mpr hsquare), hp]
    · simp [hchecks, hsame, hsquare] at hok
  · simp only [if_pos hchecks] at hok
    exact absurd hok hchecks

theorem scalarSize_eq {sz P : ℕ} (hsz : ScalarSize sz) (hP : P = 1 ∨ P = 3) :
    scalarSize (P * sz) = sz ∧ P * sz / scalarSize (P * sz) = P := by
  rcases hP with rfl | rfl <;> rcases hsz with rfl | rfl | rfl | rfl <;> decide

/-- **In place, the destination is transposed where both strides read the same image**, that
is, for every image, where the strides are equal or there is a single pixel. -/
theorem kleidicvTranspose_inPlace_exact (hsame : b.src = b.dst)
    (hrows : width * pixelSize ≤ b.dstStride ∨ width ≤ 1)
    (hok : (kleidicvTranspose b width height pixelSize m).1 = .ok) :
    (TransposedInPlace b width pixelSize m (kleidicvTranspose b width height pixelSize m).2 ↔
      SameWithBothStrides b width pixelSize m) ∧
    ((∀ m, TransposedInPlace b width pixelSize m (kleidicvTranspose b width height pixelSize m).2) ↔
      b.srcStride = b.dstStride ∨ width ≤ 1) := by
  obtain ⟨sz, P, hsz, hP, hp, -, hcall⟩ := kleidicvTranspose_inPlace hsame hok
  obtain ⟨hscalar, hchannels⟩ := scalarSize_eq hsz hP
  rw [← hp] at hscalar hchannels
  have honce : ∀ m, ExchangedOnce b width pixelSize m
      (kleidicvTranspose b width height pixelSize m).2 := by
    intro m
    obtain ⟨done, hsteps, hall⟩ := exchangeSteps_exchanged hsz.numLanes_pos width
    unfold ExchangedOnce
    rw [hchannels, hscalar, hcall, transposeInPlace_eq]
    refine ⟨rfl, fun step hstep m => ?_, fun i hi j hj hne => ?_⟩
    · exact step.run_wrote hsz hP hp rfl (byteAt_injOn rfl hrows) (hsteps.inBounds step hstep) m
    · exact hsteps.once i j (hall i hi j hj hne)
  have hvalue : ∀ m i j k, i < width → j < width → k < pixelSize →
      (kleidicvTranspose b width height pixelSize m).2 ((b.dstRows pixelSize).byteAt (i, j, k)) =
        m ((b.dstRows pixelSize).byteAt (j, i, k)) := by
    intro m i j k hi hj hk
    rw [hcall]
    exact transposeInPlace_transposed hsz hP hp rfl hrows m hi hj hk
  have hiff : ∀ m, TransposedInPlace b width pixelSize m
      (kleidicvTranspose b width height pixelSize m).2 ↔
        SameWithBothStrides b width pixelSize m := by
    intro m
    constructor
    · rintro ⟨hholds, -⟩ i hi j hj k hk
      rw [← hholds j hj i hi k hk, hvalue m j i k hj hi hk]
    · intro hboth
      refine ⟨fun i hi j hj k hk => ?_, honce m⟩
      rw [hvalue m i j k hi hj hk, hboth j hj i hi k hk]
  refine ⟨hiff m, ?_⟩
  simp only [hiff]
  constructor
  · -- An image whose second row differs from the bytes at the other stride.
    intro hall
    by_contra hcon
    obtain ⟨hstride, hwidth⟩ := not_or.mp hcon
    have hpos : 0 < pixelSize := hp ▸ Nat.mul_pos (by omega) hsz.pos
    have h := hall (fun a => if a = (b.srcRows pixelSize).byteAt (1, 0, 0) then 1 else 0) 1
      (by omega) 0 (by omega) 0 hpos
    have hne : (b.dstRows pixelSize).byteAt (1, 0, 0) ≠ (b.srcRows pixelSize).byteAt (1, 0, 0) := by
      simp only [PixelRows.byteAt, Buffers.dstRows, Buffers.srcRows]
      omega
    simp only [if_true, if_neg hne] at h
    exact absurd h (by decide)
  · rintro hstride m i hi j hj k hk
    congr 1
    simp only [PixelRows.byteAt, Buffers.dstRows, Buffers.srcRows, hsame]
    rcases hstride with heq | h1
    · rw [heq]
    · rw [show i = 0 by omega, Nat.zero_mul, Nat.zero_mul]

/-- Every byte of memory holds its address. -/
def numberedMem : Mem := fun a => Fin.ofNat 256 a

/-- Two by two pixels at address 16; the source has a byte of padding in each row. -/
def paddedSource : Buffers := ⟨16, 3, 16, 2⟩

theorem kleidicvTranspose_inPlace_exact_square :
    TransposedInPlace ⟨16, 2, 16, 2⟩ 2 1 numberedMem
      (kleidicvTranspose ⟨16, 2, 16, 2⟩ 2 2 1 numberedMem).2 :=
  have hok : (kleidicvTranspose ⟨16, 2, 16, 2⟩ 2 2 1 numberedMem).1 = .ok := rfl
  (kleidicvTranspose_inPlace_exact rfl (.inl le_rfl) hok).2.mpr (.inl rfl) numberedMem

/-- Without the padding, the pixel of row 1 is not the one that row 0 gets. -/
theorem kleidicvTranspose_inPlace_padded :
    (kleidicvTranspose paddedSource 2 2 1 numberedMem).1 = .ok ∧
      ¬TransposedInPlace paddedSource 2 1 numberedMem
        (kleidicvTranspose paddedSource 2 2 1 numberedMem).2 := by
  refine ⟨rfl, fun hcon => ?_⟩
  have h := hcon.1 0 (by decide) 1 (by decide) 0 (by decide)
  revert h
  decide

end

end InPlace

end KleidiCV
