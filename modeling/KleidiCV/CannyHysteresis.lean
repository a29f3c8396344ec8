/-
Edge tracking by hysteresis in the Canny detector.

After the thresholds every pixel is labelled 0 (no edge), 1 (weak edge) or 0xFF
(strong edge), in a buffer with one more pixel on every side that is labelled 0.
A stack holds the addresses of the strong pixels.  `perform_hysteresis` takes
pixels off the stack and makes their weak neighbours strong, which are put on
the stack in turn, until it is empty.

Pixels are offsets into the padded buffer; a read outside it has no result.

* `handle_fills` — one neighbour, as a step of a flood fill;
* `performHysteresis_spec` — the loop ends with the fill complete;
* `performHysteresis_exact` — in terms of the image: a pixel is strong at the end
  just when it is connected to a strong one through edge pixels.
-/
import KleidiCV.Stack
import KleidiCV.Lib.FloodFill

namespace KleidiCV

open FloodFill Relation

namespace Canny

/-- `HysteresisBuffer`, for an image of `width * height` pixels. -/
structure HysteresisBuffer where
  width : ℕ
  height : ℕ

/-- The labels of the buffer and the addresses of strong edges still to follow. -/
structure HysteresisState where
  strongEdgePixels : Stack ℤ
  labels : ℤ → ℕ

/-- The stack holds pointers of eight bytes. -/
def edgeStackCapacity : ℕ := kBlockCapacity 8

namespace HysteresisBuffer

def stride (buffer : HysteresisBuffer) : ℕ := buffer.width + 2

/-- The bytes allocated: one line and one column more on every side. -/
def area (buffer : HysteresisBuffer) : ℕ := (buffer.width + 2) * (buffer.height + 2)

def load (buffer : HysteresisBuffer) (labels : ℤ → ℕ) (pixel : ℤ) : Option ℕ :=
  if 0 ≤ pixel ∧ pixel < buffer.area then some (labels pixel) else none

end HysteresisBuffer

variable {buffer : HysteresisBuffer} {labels : ℤ → ℕ} {filled : Set ℤ} {work rest : List ℤ}
  {s : HysteresisState} {x pixel : ℤ}

def handlePotentiallyStrongPixel (buffer : HysteresisBuffer) (s : HysteresisState) (pixel : ℤ) :
    Option HysteresisState := do
  let label ← buffer.load s.labels pixel
  if label = 1 then
    let stack ← s.strongEdgePixels.pushBack edgeStackCapacity pixel
    return ⟨stack, Function.update s.labels pixel 0xFF⟩
  else
    return s

/-- The neighbours of a pixel in the order in which they are handled. -/
def neighbours (stride strongPixel : ℤ) : List ℤ :=
  [strongPixel - stride - 1, strongPixel - stride, strongPixel - stride + 1,
    strongPixel - 1, strongPixel + 1,
    strongPixel + stride - 1, strongPixel + stride, strongPixel + stride + 1]

/-- `perform_hysteresis`; the loop has no result when it takes more than `fuel` iterations. -/
def performHysteresis (buffer : HysteresisBuffer) : ℕ → HysteresisState → Option HysteresisState
  | 0, _ => none
  | fuel + 1, s =>
      if s.strongEdgePixels.empty then some s else do
        let strongPixel ← s.strongEdgePixels.back edgeStackCapacity
        let stack ← s.strongEdgePixels.popBack edgeStackCapacity
        let s ← (neighbours buffer.stride strongPixel).foldlM
          (handlePotentiallyStrongPixel buffer) ⟨stack, s.labels⟩
        performHysteresis buffer fuel s

/-! ### The image in the buffer -/

/-- The cells of the padded buffer, as a row and a column. -/
def InGrid (buffer : HysteresisBuffer) (cell : ℕ × ℕ) : Prop :=
  cell.1 < buffer.height + 2 ∧ cell.2 < buffer.width + 2

/-- The cells of the image itself. -/
def Interior (buffer : HysteresisBuffer) (cell : ℕ × ℕ) : Prop :=
  1 ≤ cell.1 ∧ cell.1 ≤ buffer.height ∧ 1 ≤ cell.2 ∧ cell.2 ≤ buffer.width

/-- The address of a cell. -/
def pixelAt (buffer : HysteresisBuffer) (cell : ℕ × ℕ) : ℤ :=
  cell.1 * buffer.stride + cell.2

/-- The buffer as the earlier stages leave it. -/
structure Padded (buffer : HysteresisBuffer) (labels : ℤ → ℕ) : Prop where
  margin : ∀ cell, InGrid buffer cell → ¬ Interior buffer cell → labels (pixelAt buffer cell) = 0
  interior : ∀ cell, Interior buffer cell →
    labels (pixelAt buffer cell) = 0 ∨ labels (pixelAt buffer cell) = 1 ∨
      labels (pixelAt buffer cell) = 0xFF

/-- Two different cells that touch at a side or at a corner. -/
def Adjacent (a b : ℕ × ℕ) : Prop :=
  a ≠ b ∧ a.1 ≤ b.1 + 1 ∧ b.1 ≤ a.1 + 1 ∧ a.2 ≤ b.2 + 1 ∧ b.2 ≤ a.2 + 1

/-- The cells that steps through edge pixels lead to from a strong one. -/
def ConnectedToStrong (buffer : HysteresisBuffer) (labels : ℤ → ℕ) (cell : ℕ × ℕ) : Prop :=
  ∃ strong, InGrid buffer strong ∧ labels (pixelAt buffer strong) = 0xFF ∧
    ReflTransGen (fun a b => InGrid buffer b ∧ Adjacent a b ∧ labels (pixelAt buffer b) ≠ 0)
      strong cell

open Classical in
/-- What hysteresis is for: cells connected to a strong edge become strong. -/
noncomputable def hysteresisOf (buffer : HysteresisBuffer) (labels : ℤ → ℕ) (pixel : ℤ) : ℕ :=
  if ∃ cell, InGrid buffer cell ∧ pixel = pixelAt buffer cell ∧
      ConnectedToStrong buffer labels cell then 0xFF
  else labels pixel

/-- The addresses of the edge pixels. -/
def edgePixels (buffer : HysteresisBuffer) (labels : ℤ → ℕ) : Set ℤ :=
  {pixel | ∃ cell, InGrid buffer cell ∧ pixel = pixelAt buffer cell ∧ labels pixel ≠ 0}

/-- The addresses of the strong pixels. -/
def strongPixels (buffer : HysteresisBuffer) (labels : ℤ → ℕ) : Set ℤ :=
  {pixel | ∃ cell, InGrid buffer cell ∧ pixel = pixelAt buffer cell ∧ labels pixel = 0xFF}

theorem Interior.inGrid {cell : ℕ × ℕ} (h : Interior buffer cell) : InGrid buffer cell := by
  obtain ⟨-, h1, -, h2⟩ := h
  exact ⟨by omega, by omega⟩

theorem pixelAt_mem {cell : ℕ × ℕ} (h : InGrid buffer cell) :
    0 ≤ pixelAt buffer cell ∧ pixelAt buffer cell < buffer.area := by
  obtain ⟨h1, h2⟩ := h
  have hrow : cell.1 * (buffer.width + 2) + (buffer.width + 2)
      ≤ (buffer.width + 2) * (buffer.height + 2) := by
    have := Nat.mul_le_mul_left (buffer.width + 2) (show cell.1 + 1 ≤ buffer.height + 2 from h1)
    rw [Nat.mul_add, Nat.mul_one, Nat.mul_comm _ cell.1] at this
    exact this
  have hlt : cell.1 * (buffer.width + 2) + cell.2 < (buffer.width + 2) * (buffer.height + 2) := by
    omega
  refine ⟨?_, ?_⟩
  · unfold pixelAt
    positivity
  · unfold pixelAt HysteresisBuffer.stride HysteresisBuffer.area
    exact_mod_cast hlt

theorem pixelAt_inj {a b : ℕ × ℕ} (ha : InGrid buffer a) (hb : InGrid buffer b)
    (h : pixelAt buffer a = pixelAt buffer b) : a = b := by
  have hn : a.1 * (buffer.width + 2) + a.2 = b.1 * (buffer.width + 2) + b.2 := by
    unfold pixelAt HysteresisBuffer.stride at h
    exact_mod_cast h
  obtain ⟨h1, h2⟩ := Stack.position_inj ha.2 hb.2 hn
  exact Prod.ext h1 h2

/-- The neighbours of a pixel of the image are the cells around it. -/
theorem mem_neighbours {cell : ℕ × ℕ} (h : Interior buffer cell) (pixel : ℤ) :
    pixel ∈ neighbours buffer.stride (pixelAt buffer cell) ↔
      ∃ around, InGrid buffer around ∧ Adjacent cell around ∧ pixel = pixelAt buffer around := by
  obtain ⟨hrow, hrow', hcol, hcol'⟩ := h
  obtain ⟨row, column⟩ := cell
  obtain ⟨row, rfl⟩ : ∃ r, row = r + 1 := ⟨row - 1, by simp only at hrow; omega⟩
  obtain ⟨column, rfl⟩ : ∃ c, column = c + 1 := ⟨column - 1, by simp only at hcol; omega⟩
  simp only at hrow' hcol'
  constructor
  · intro hp
    -- one cell for each of the eight entries of the list
    have hcell : ∃ a b, a ≤ row + 2 ∧ row ≤ a ∧ b ≤ column + 2 ∧ column ≤ b ∧
        (a ≠ row + 1 ∨ b ≠ column + 1) ∧ pixel = pixelAt buffer (a, b) := by
      simp only [neighbours, List.mem_cons, List.not_mem_nil, or_false] at hp
      rcases hp with rfl | rfl | rfl | rfl | rfl | rfl | rfl | rfl
      · exact ⟨row, column, by omega, by omega, by omega, by omega, by omega,
          by simp only [pixelAt]; push_cast; ring⟩
      · exact ⟨row, column + 1, by omega, by omega, by omega, by omega, by omega,
          by simp only [pixelAt]; push_cast; ring⟩
      · exact ⟨row, column + 2, by omega, by omega, by omega, by omega, by omega,
          by simp only [pixelAt]; push_cast; ring⟩
      · exact ⟨row + 1, column, by omega, by omega, by omega, by omega, by omega,
          by simp only [pixelAt]; push_cast; ring⟩
      · exact ⟨row + 1, column + 2, by omega, by omega, by omega, by omega, by omega,
          by simp only [pixelAt]; push_cast; ring⟩
      · exact ⟨row + 2, column, by omega, by omega, by omega, by omega, by omega,
          by simp only [pixelAt]; push_cast; ring⟩
      · exact ⟨row + 2, column + 1, by omega, by omega, by omega, by omega, by omega,
          by simp only [pixelAt]; push_cast; ring⟩
      · exact ⟨row + 2, column + 2, by omega, by omega, by omega, by omega, by omega,
          by simp only [pixelAt]; push_cast; ring⟩
    obtain ⟨a, b, ha, ha', hb, hb', hne, hpixel⟩ := hcell
    refine ⟨(a, b), ⟨by omega, by omega⟩, ⟨?_, by omega, by omega, by omega, by omega⟩, hpixel⟩
    intro he
    simp only [Prod.mk.injEq] at he
    omega
  · rintro ⟨⟨a, b⟩, -, ⟨hne, ha, ha', hb, hb'⟩, rfl⟩
    simp only at ha ha' hb hb'
    have hne : a ≠ row + 1 ∨ b ≠ column + 1 := by
      by_contra hcon
      push Not at hcon
      exact hne (by rw [hcon.1, hcon.2])
    obtain rfl | rfl | rfl : a = row ∨ a = row + 1 ∨ a = row + 2 := by omega
    all_goals
      obtain rfl | rfl | rfl : b = column ∨ b = column + 1 ∨ b = column + 2 := by omega
      all_goals
        first
        | omega
        | simp only [neighbours, pixelAt, List.mem_cons, List.not_mem_nil, or_false]
          push_cast
          ring_nf
          simp only [true_or, or_true]

/-! ### Reachability in the buffer and in the image -/

theorem reached_edge {c : ℤ}
    (h : Reached (neighbours buffer.stride) (edgePixels buffer labels)
      (strongPixels buffer labels) c) : c ∈ edgePixels buffer labels := by
  obtain ⟨s, ⟨cell, hcell, hs, hlabel⟩, hpath⟩ := h
  cases hpath with
  | refl => exact ⟨cell, hcell, hs, by rw [hlabel]; decide⟩
  | tail _ hstep => exact hstep.2

theorem Padded.interior_of_edge (h : Padded buffer labels) {cell : ℕ × ℕ}
    (hcell : InGrid buffer cell) (hlabel : labels (pixelAt buffer cell) ≠ 0) :
    Interior buffer cell := by
  by_contra hout
  exact hlabel (h.margin cell hcell hout)

/-- Following pixels in the buffer is following cells in the image. -/
theorem reached_iff (h : Padded buffer labels) {cell : ℕ × ℕ} (hcell : InGrid buffer cell) :
    Reached (neighbours buffer.stride) (edgePixels buffer labels) (strongPixels buffer labels)
        (pixelAt buffer cell) ↔ ConnectedToStrong buffer labels cell := by
  constructor
  · rintro ⟨s, ⟨strong, hstrong, rfl, hlabel⟩, hpath⟩
    -- every pixel on the path is the address of a cell of the image
    have hfollow : ∀ p, ReflTransGen (fun a b => b ∈ neighbours buffer.stride a ∧
        b ∈ edgePixels buffer labels) (pixelAt buffer strong) p →
        ∃ c, InGrid buffer c ∧ p = pixelAt buffer c ∧ labels p ≠ 0 ∧
          ConnectedToStrong buffer labels c := by
      intro p hp
      induction hp with
      | refl =>
          exact ⟨strong, hstrong, rfl, by rw [hlabel]; decide, strong, hstrong, hlabel, .refl⟩
      | tail _ hstep ih =>
          obtain ⟨c, hc, rfl, hcl, seed, hseed, hsl, hpath⟩ := ih
          obtain ⟨hnext, -, -, -, hedge⟩ := hstep
          obtain ⟨around, haround, hadj, rfl⟩ :=
            (mem_neighbours (h.interior_of_edge hc hcl) _).mp hnext
          exact ⟨around, haround, rfl, hedge, seed, hseed, hsl,
            hpath.tail ⟨haround, hadj, hedge⟩⟩
    obtain ⟨c, hc, hpc, -, hconnected⟩ := hfollow _ hpath
    rwa [pixelAt_inj hcell hc hpc]
  · rintro ⟨strong, hstrong, hlabel, hpath⟩
    refine ⟨pixelAt buffer strong, ⟨strong, hstrong, rfl, hlabel⟩, ?_⟩
    have hfollow : ∀ c, ReflTransGen (fun a b => InGrid buffer b ∧ Adjacent a b ∧
        labels (pixelAt buffer b) ≠ 0) strong c →
        InGrid buffer c ∧ labels (pixelAt buffer c) ≠ 0 ∧
          ReflTransGen (fun a b => b ∈ neighbours buffer.stride a ∧
            b ∈ edgePixels buffer labels) (pixelAt buffer strong) (pixelAt buffer c) := by
      intro c hc
      induction hc with
      | refl => exact ⟨hstrong, by rw [hlabel]; decide, .refl⟩
      | tail _ hstep ih =>
          obtain ⟨hin, hcl, hreach⟩ := ih
          obtain ⟨haround, hadj, hedge⟩ := hstep
          refine ⟨haround, hedge, hreach.tail ⟨?_, _, haround, rfl, hedge⟩⟩
          exact (mem_neighbours (h.interior_of_edge hin hcl) _).mpr ⟨_, haround, hadj, rfl⟩
    exact (hfollow cell hpath).2.2

/-! ### The loop as a flood fill -/

open Classical in
/-- The labels once the pixels in `filled` are strong. -/
noncomputable def painted (labels : ℤ → ℕ) (filled : Set ℤ) (pixel : ℤ) : ℕ :=
  if pixel ∈ filled then 0xFF else labels pixel

/-- The state of the loop while the neighbours in `rest` of `x` are still to be handled. -/
structure Filled (buffer : HysteresisBuffer) (labels : ℤ → ℕ) (s : HysteresisState)
    (filled : Set ℤ) (work : List ℤ) (x : ℤ) (rest : List ℤ) : Prop where
  stack : Stack.Represents edgeStackCapacity s.strongEdgePixels work
  painted : s.labels = painted labels filled
  filling : Filling (neighbours buffer.stride) (edgePixels buffer labels)
    (strongPixels buffer labels) filled work x rest

/-- The addresses of the image. -/
def imagePixels (buffer : HysteresisBuffer) : Finset ℤ :=
  ((Finset.range buffer.height) ×ˢ (Finset.range buffer.width)).image
    fun c => pixelAt buffer (c.1 + 1, c.2 + 1)

/-- What the loop can still do: pixels on the stack, and pixels that may get there. -/
noncomputable def remaining (buffer : HysteresisBuffer) (filled : Set ℤ) (work : List ℤ) : ℕ :=
  work.length + (↑(imagePixels buffer) \ filled : Set ℤ).ncard

theorem remaining_le (filled : Set ℤ) (work : List ℤ) :
    remaining buffer filled work ≤ work.length + buffer.width * buffer.height := by
  have h1 : (↑(imagePixels buffer) \ filled : Set ℤ).ncard ≤ (imagePixels buffer).card := by
    rw [← Set.ncard_coe_finset]
    exact Set.ncard_le_ncard Set.sdiff_subset (Finset.finite_toSet _)
  have h2 : (imagePixels buffer).card ≤ buffer.height * buffer.width := by
    refine le_trans Finset.card_image_le ?_
    rw [Finset.card_product, Finset.card_range, Finset.card_range]
  have h3 := Nat.mul_comm buffer.width buffer.height
  unfold remaining
  omega

theorem mem_imagePixels {cell : ℕ × ℕ} (h : Interior buffer cell) :
    pixelAt buffer cell ∈ imagePixels buffer := by
  obtain ⟨h1, h2, h3, h4⟩ := h
  refine Finset.mem_image.mpr ⟨(cell.1 - 1, cell.2 - 1), ?_, ?_⟩
  · rw [Finset.mem_product, Finset.mem_range, Finset.mem_range]
    exact ⟨by omega, by omega⟩
  · rw [Nat.sub_add_cancel h1, Nat.sub_add_cancel h3]

theorem painted_insert (filled : Set ℤ) (pixel : ℤ) :
    Function.update (painted labels filled) pixel 0xFF = painted labels (insert pixel filled) := by
  funext p
  by_cases hp : p = pixel
  · subst hp
    simp [painted]
  · have hiff : p ∈ insert pixel filled ↔ p ∈ filled := by simp [hp]
    rw [Function.update_of_ne hp]
    unfold painted
    by_cases hin : p ∈ filled
    · rw [if_pos hin, if_pos (hiff.mpr hin)]
    · rw [if_neg hin, if_neg (fun h => hin (hiff.mp h))]

/-- A pixel that becomes strong moves from the image to the stack. -/
theorem remaining_insert (hp : pixel ∈ imagePixels buffer) (hnew : pixel ∉ filled) :
    remaining buffer (insert pixel filled) (work ++ [pixel]) = remaining buffer filled work := by
  have hsplit : (↑(imagePixels buffer) \ insert pixel filled : Set ℤ)
      = (↑(imagePixels buffer) \ filled) \ {pixel} := by
    rw [Set.sdiff_sdiff, Set.union_singleton]
  have hcard := Set.ncard_sdiff_singleton_add_one
    (show pixel ∈ (↑(imagePixels buffer) \ filled : Set ℤ) from ⟨hp, hnew⟩)
    ((Finset.finite_toSet _).subset Set.sdiff_subset)
  simp only [remaining, List.length_append, List.length_singleton, hsplit]
  omega

/-- One neighbour. -/
theorem handle_fills (hpad : Padded buffer labels)
    (h : Filled buffer labels s filled work x (pixel :: rest)) :
    ∃ t filled' work', handlePotentiallyStrongPixel buffer s pixel = some t ∧
      Filled buffer labels t filled' work' x rest ∧
      remaining buffer filled' work' = remaining buffer filled work := by
  obtain ⟨hx, hrest⟩ := h.filling.current (by simp)
  obtain ⟨cell, hcell, rfl, hedge⟩ := reached_edge (h.filling.reached x hx)
  obtain ⟨around, haround, -, rfl⟩ :=
    (mem_neighbours (hpad.interior_of_edge hcell hedge) pixel).mp (hrest pixel (by simp))
  have hload : buffer.load s.labels (pixelAt buffer around)
      = some (painted labels filled (pixelAt buffer around)) := by
    rw [HysteresisBuffer.load, if_pos (pixelAt_mem haround), h.painted]
  by_cases hweak : painted labels filled (pixelAt buffer around) = 1
  · -- a weak edge that no strong pixel was found next to before
    have hnew : pixelAt buffer around ∉ filled := by
      intro hin
      simp [painted, hin] at hweak
    have hlabel : labels (pixelAt buffer around) = 1 := by
      simpa [painted, hnew] using hweak
    have hedge' : labels (pixelAt buffer around) ≠ 0 := by rw [hlabel]; decide
    have hcapacity : 1 ≤ edgeStackCapacity := (kBlockCapacity_fits (by decide) (by decide)).1
    obtain ⟨stack, hpush, hrep, -⟩ :=
      Stack.pushBack_represents hcapacity h.stack (pixelAt buffer around)
    refine ⟨⟨stack, Function.update s.labels (pixelAt buffer around) 0xFF⟩,
      insert (pixelAt buffer around) filled, work ++ [pixelAt buffer around], ?_,
      ⟨hrep, ?_, h.filling.fill ⟨around, haround, rfl, hedge'⟩⟩,
      remaining_insert (mem_imagePixels (hpad.interior_of_edge haround hedge')) hnew⟩
    · simp only [handlePotentiallyStrongPixel, hload, hweak, hpush, Option.bind_eq_bind,
        Option.bind_some, if_true]
      rfl
    · show Function.update s.labels _ _ = _
      rw [h.painted, painted_insert]
  · refine ⟨s, filled, work, ?_, ⟨h.stack, h.painted, h.filling.skip ?_⟩, rfl⟩
    · simp only [handlePotentiallyStrongPixel, hload, hweak, Option.bind_eq_bind,
        Option.bind_some, if_false]
      rfl
    · -- an edge pixel that is not weak now was strong from the start, or is by now
      rintro ⟨c, hc, hpc, hne⟩
      by_contra hnew
      have hlabel : labels (pixelAt buffer around) ≠ 1 := by
        simpa [painted, hnew] using hweak
      have hstrong : labels (pixelAt buffer around) = 0xFF := by
        rcases hpad.interior around (hpad.interior_of_edge haround hne) with h0 | h1 | h2
        · exact absurd h0 hne
        · exact absurd h1 hlabel
        · exact h2
      exact hnew (h.filling.seeded ⟨around, haround, rfl, hstrong⟩)

/-- All the neighbours of one pixel. -/
theorem handleAll_fills (hpad : Padded buffer labels) (rest : List ℤ) :
    ∀ {s : HysteresisState} {filled : Set ℤ} {work : List ℤ},
      Filled buffer labels s filled work x rest →
      ∃ t filled' work', rest.foldlM (handlePotentiallyStrongPixel buffer) s = some t ∧
        Filled buffer labels t filled' work' x [] ∧
        remaining buffer filled' work' = remaining buffer filled work := by
  induction rest with
  | nil =>
      intro s filled work h
      exact ⟨s, filled, work, rfl, h, rfl⟩
  | cons pixel rest ih =>
      intro s filled work h
      obtain ⟨t, filled', work', ht, hfilled, hremaining⟩ := handle_fills hpad h
      obtain ⟨u, filled'', work'', hu, hfilled', hremaining'⟩ := ih hfilled
      refine ⟨u, filled'', work'', ?_, hfilled', hremaining'.trans hremaining⟩
      rw [List.foldlM_cons, ht]
      exact hu

/-- The loop ends, with the fill complete. -/
theorem performHysteresis_spec (hpad : Padded buffer labels) (fuel : ℕ) :
    ∀ {s : HysteresisState} {filled : Set ℤ} {work : List ℤ} {x : ℤ},
      Filled buffer labels s filled work x [] → remaining buffer filled work < fuel →
      ∃ t filled' y, performHysteresis buffer fuel s = some t ∧
        Filled buffer labels t filled' [] y [] := by
  induction fuel with
  | zero =>
      intro s filled work x h hlt
      omega
  | succ fuel ih =>
      intro s filled work x h hlt
      obtain rfl | ⟨work, y, rfl⟩ := List.eq_nil_or_concat' work
      · refine ⟨s, filled, x, ?_, h⟩
        rw [performHysteresis, if_pos ((Stack.empty_iff h.stack).mpr rfl)]
      · have hne : work ++ [y] ≠ [] := by simp
        have hempty : ¬ s.strongEdgePixels.empty = true :=
          fun he => hne ((Stack.empty_iff h.stack).mp he)
        have hcapacity : 1 ≤ edgeStackCapacity := (kBlockCapacity_fits (by decide) (by decide)).1
        have hback := Stack.back_eq h.stack hne
        rw [List.getLast?_concat] at hback
        obtain ⟨stack, hpop, hrep, -⟩ := Stack.popBack_represents hcapacity h.stack hne
        rw [List.dropLast_concat] at hrep
        obtain ⟨t, filled', work', ht, hfilled, hremaining⟩ :=
          handleAll_fills hpad _ (s := ⟨stack, s.labels⟩) ⟨hrep, h.painted, h.filling.take⟩
        -- the pixel taken off the stack is one less to handle
        have htaken : remaining buffer filled (work ++ [y]) = remaining buffer filled work + 1 := by
          simp only [remaining, List.length_append, List.length_singleton]
          omega
        obtain ⟨u, filled'', z, hu, hdone⟩ := ih hfilled (by omega)
        refine ⟨u, filled'', z, ?_, hdone⟩
        rw [performHysteresis, if_neg hempty, hback]
        simp only [Option.bind_eq_bind, Option.bind_some, hpop, ht, hu]

/-- **Edge tracking is exact**: from a stack of the strong pixels in any order, the loop ends,
reads only inside the padded buffer, leaves the stack empty and makes strong exactly the pixels
that steps between touching edge pixels connect to a strong one. -/
theorem performHysteresis_exact (hpad : Padded buffer labels) {stack : Stack ℤ} {pixels : List ℤ}
    (hstack : Stack.Represents edgeStackCapacity stack pixels)
    (hpixels : ∀ pixel, pixel ∈ pixels ↔ pixel ∈ strongPixels buffer labels)
    {fuel : ℕ} (hfuel : pixels.length + buffer.width * buffer.height < fuel) :
    ∃ stack', performHysteresis buffer fuel ⟨stack, labels⟩
        = some ⟨stack', hysteresisOf buffer labels⟩ ∧
      stack'.empty = true := by
  have hstart : Filled buffer labels ⟨stack, labels⟩ (strongPixels buffer labels) pixels 0 [] := by
    refine ⟨hstack, ?_, .start hpixels⟩
    funext p
    by_cases hp : p ∈ strongPixels buffer labels
    · obtain ⟨-, -, -, hlabel⟩ := hp
      simp only [painted, hlabel, ite_self]
    · rw [painted, if_neg hp]
  have hlt := lt_of_le_of_lt (remaining_le (strongPixels buffer labels) pixels)
    hfuel
  obtain ⟨t, filled, x, ht, hdone⟩ := performHysteresis_spec hpad fuel hstart hlt
  refine ⟨t.strongEdgePixels, ?_, (Stack.empty_iff hdone.stack).mpr rfl⟩
  have hlabels : t.labels = hysteresisOf buffer labels := by
    rw [hdone.painted]
    funext p
    have hiff : p ∈ filled ↔ ∃ cell, InGrid buffer cell ∧ p = pixelAt buffer cell ∧
        ConnectedToStrong buffer labels cell := by
      rw [hdone.filling.filled_iff]
      constructor
      · intro hreached
        obtain ⟨cell, hcell, rfl, -⟩ := reached_edge hreached
        exact ⟨cell, hcell, rfl, (reached_iff hpad hcell).mp hreached⟩
      · rintro ⟨cell, hcell, rfl, hconnected⟩
        exact (reached_iff hpad hcell).mpr hconnected
    unfold painted hysteresisOf
    by_cases hin : p ∈ filled
    · rw [if_pos hin, if_pos (hiff.mp hin)]
    · rw [if_neg hin, if_neg (fun h => hin (hiff.mpr h))]
  rw [ht, ← hlabels]

/-- Two pixels side by side, a strong one at offset 5 and a weak one that becomes strong. -/
theorem performHysteresis_exact_pair :
    (∃ stack stack', performHysteresis ⟨2, 1⟩ 4
        ⟨stack, fun p => if p = 5 then 0xFF else if p = 6 then 1 else 0⟩
        = some ⟨stack', hysteresisOf ⟨2, 1⟩ fun p => if p = 5 then 0xFF else if p = 6 then 1 else 0⟩ ∧
      stack'.empty = true) ∧
    hysteresisOf ⟨2, 1⟩ (fun p => if p = 5 then 0xFF else if p = 6 then 1 else 0) 6 = 0xFF := by
  have hpad : Padded ⟨2, 1⟩ fun p => if p = 5 then 0xFF else if p = 6 then 1 else 0 := by
    refine ⟨?_, ?_⟩
    · rintro ⟨row, column⟩ ⟨hrow, hcolumn⟩ hout
      simp only at hrow hcolumn
      interval_cases row <;> interval_cases column <;>
        simp_all [Interior, pixelAt, HysteresisBuffer.stride]
    · rintro ⟨row, column⟩ ⟨hrow, hrow', hcolumn, hcolumn'⟩
      simp only at hrow hrow' hcolumn hcolumn'
      interval_cases row
      interval_cases column <;> simp [pixelAt, HysteresisBuffer.stride]
  have hcapacity : 1 ≤ edgeStackCapacity := (kBlockCapacity_fits (by decide) (by decide)).1
  obtain ⟨stack, -, hstack, -⟩ :=
    Stack.pushBack_represents hcapacity (Stack.new_represents (T := ℤ) edgeStackCapacity) 5
  have hstrong : ∀ pixel : ℤ, pixel ∈ [] ++ [5] ↔ pixel ∈ strongPixels ⟨2, 1⟩
      fun p => if p = 5 then 0xFF else if p = 6 then 1 else 0 := by
    intro pixel
    constructor
    · intro hp
      obtain rfl : pixel = 5 := by simpa using hp
      exact ⟨(1, 1), ⟨by decide, by decide⟩, rfl, rfl⟩
    · rintro ⟨-, -, -, hlabel⟩
      simp only at hlabel
      split_ifs at hlabel with h5 h6
      · simp [h5]
      · cases hlabel
  refine ⟨⟨stack, ?_⟩, ?_⟩
  · exact performHysteresis_exact hpad hstack hstrong (by decide)
  · rw [hysteresisOf, if_pos]
    refine ⟨(1, 2), ⟨by decide, by decide⟩, rfl, (1, 1), ⟨by decide, by decide⟩, rfl, ?_⟩
    refine ReflTransGen.single ⟨⟨by decide, by decide⟩, ⟨by decide, by decide⟩, ?_⟩
    simp [pixelAt, HysteresisBuffer.stride]

end Canny

end KleidiCV
