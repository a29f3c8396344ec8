/-
The element of a given rank, and how histograms find it.

`rankElement s r` is entry `r`, counted from 0, of the multiset `s` in sorted
order.  A search through a histogram adds up bins until the sum exceeds `r`;
with two levels of bins, the first search names a block of values and the
second goes on inside it.

* `rankElement_eq` — a value with at most `r` smaller elements and more than
  `r` that are no larger is the element of rank `r`;
* `countP_lt_eq_sum` — the elements below a bound, bin by bin;
* `cumulativeSearch_ends`, `histogramSearch_ends` — where a search stops.
-/
import KleidiCV.Lib.Ends

variable {α : Type*} [LinearOrder α]

/-- The element of rank `r`, counted from 0. -/
def rankElement [Inhabited α] (s : Multiset α) (r : ℕ) : α := s.sort.getD r default

theorem getElem_le_of_lt_countP {l : List α} (hl : l.Pairwise (· ≤ ·)) {v : α} {r : ℕ}
    (hr : r < l.length) (h : r < l.countP (· ≤ v)) : l[r] ≤ v := by
  induction l generalizing r with
  | nil => exact absurd hr (Nat.not_lt_zero r)
  | cons a l ih =>
    obtain ⟨ha, hl⟩ := List.pairwise_cons.mp hl
    rw [List.countP_cons] at h
    cases r with
    | zero =>
      by_contra hav
      rw [List.getElem_cons_zero, not_le] at hav
      -- Everything behind the head is larger still.
      have hnone : l.countP (· ≤ v) = 0 :=
        List.countP_eq_zero.mpr fun b hb => by simpa using hav.trans_le (ha b hb)
      simp [hnone, not_le.mpr hav] at h
    | succ r =>
      rw [List.getElem_cons_succ]
      refine ih hl (Nat.lt_of_succ_lt_succ hr) ?_
      split at h <;> omega

theorem le_getElem_of_countP_le {l : List α} (hl : l.Pairwise (· ≤ ·)) {v : α} {r : ℕ}
    (hr : r < l.length) (h : l.countP (· < v) ≤ r) : v ≤ l[r] := by
  induction l generalizing r with
  | nil => exact absurd hr (Nat.not_lt_zero r)
  | cons a l ih =>
    obtain ⟨ha, hl⟩ := List.pairwise_cons.mp hl
    rw [List.countP_cons] at h
    rcases lt_or_ge a v with hav | hav
    · simp only [hav, decide_true, if_true] at h
      cases r with
      | zero => omega
      | succ r =>
        rw [List.getElem_cons_succ]
        exact ih hl (Nat.lt_of_succ_lt_succ hr) (by omega)
    · cases r with
      | zero => exact hav
      | succ r =>
        rw [List.getElem_cons_succ]
        exact hav.trans (ha _ (List.getElem_mem _))

/-- Counting decides the element of a rank. -/
theorem rankElement_eq [Inhabited α] {s : Multiset α} {r : ℕ} {v : α}
    (hlt : s.countP (· < v) ≤ r) (hle : r < s.countP (· ≤ v)) : rankElement s r = v := by
  have hs : (s.sort : Multiset α) = s := s.sort_eq _
  rw [← hs, Multiset.coe_countP] at hlt hle
  have hlen : r < s.sort.length := hle.trans_le List.countP_le_length
  rw [rankElement, List.getD_eq_getElem?_getD, List.getElem?_eq_getElem hlen, Option.getD_some]
  exact le_antisymm (getElem_le_of_lt_countP (s.pairwise_sort _) hlen hle)
    (le_getElem_of_countP_le (s.pairwise_sort _) hlen hlt)

/-- In a multiset of odd size, the value that is at least `t` exactly where more than half of
the elements are is the median. -/
theorem sort_getElem?_of_thresholds {s : Multiset α} {r : ℕ} {v : α} (hcard : s.card = 2 * r + 1)
    (h : ∀ t, t ≤ v ↔ r < s.countP (t ≤ ·)) : s.sort[r]? = some v := by
  let _ : Inhabited α := ⟨v⟩
  have hsmaller : s.countP (· < v) ≤ r := by
    have hcount := Multiset.card_eq_countP_add_countP (v ≤ ·) s
    simp only [not_le] at hcount
    have := (h v).mp le_rfl
    omega
  have hlarger : r < s.countP (· ≤ v) := by
    by_contra hcon
    have hcount := Multiset.card_eq_countP_add_countP (· ≤ v) s
    simp only [not_le] at hcount
    -- Then more than half of the elements exceed `v`, so the least of these is at most `v`.
    have hpos : 0 < s.countP (v < ·) := by omega
    obtain ⟨a, ha, hva⟩ := Multiset.countP_pos.mp hpos
    have hne : (s.toFinset.filter (v < ·)).Nonempty :=
      ⟨a, Finset.mem_filter.mpr ⟨Multiset.mem_toFinset.mpr ha, hva⟩⟩
    have hmin := Finset.min'_mem _ hne
    rw [Finset.mem_filter] at hmin
    refine absurd ((h _).mpr ?_) (not_le.mpr hmin.2)
    refine lt_of_lt_of_le (show r < s.countP (v < ·) by omega) ?_
    simp only [Multiset.countP_eq_card_filter]
    refine Multiset.card_le_card (Multiset.le_filter.mpr ⟨Multiset.filter_le _ s, fun x hx => ?_⟩)
    obtain ⟨hxs, hvx⟩ := Multiset.mem_filter.mp hx
    exact Finset.min'_le _ _ (Finset.mem_filter.mpr ⟨Multiset.mem_toFinset.mpr hxs, hvx⟩)
  have hrank := rankElement_eq hsmaller hlarger
  have hlen : r < s.sort.length := by
    rw [Multiset.length_sort]
    omega
  rw [rankElement, List.getD_eq_getElem?_getD, List.getElem?_eq_getElem hlen, Option.getD_some]
    at hrank
  rw [List.getElem?_eq_getElem hlen, hrank]

/-- The elements whose key is below `n`, key by key. -/
theorem countP_lt_eq_sum {β : Type*} (s : Multiset β) (key : β → ℕ) (n : ℕ) :
    s.countP (fun x => key x < n) = ∑ i ∈ Finset.range n, s.countP (fun x => key x = i) := by
  induction n with
  | zero => simp
  | succ n ih =>
    rw [Finset.sum_range_succ, ← ih]
    simp only [Multiset.countP_eq_card_filter, ← Multiset.card_add]
    congr 1
    rw [Multiset.filter_add_filter]
    simp only [Nat.lt_succ_iff_lt_or_eq]
    rw [Multiset.filter_eq_nil (p := fun x => key x < n ∧ key x = n) |>.mpr, add_zero]
    rintro x - ⟨h1, h2⟩
    omega

/-- Add up the bins `i`, `i + 1`, ..., at most `n` of them, until the sum
exceeds `target`; the answer is that bin and the sum before it.  It fails if no
bin is left, or if a sum reaches `limit`. -/
def cumulativeSearch (limit : ℕ) (bins : ℕ → ℕ) (target : ℕ) : ℕ → ℕ → ℕ → Option (ℕ × ℕ)
  | 0, _, _ => none
  | n + 1, i, sum =>
    if limit ≤ sum + bins i then none
    else if target < sum + bins i then some (i, sum)
    else cumulativeSearch limit bins target n (i + 1) (sum + bins i)

theorem cumulativeSearch_ends {limit target : ℕ} {bins : ℕ → ℕ} {n i sum : ℕ} (h0 : sum ≤ target)
    (htarget : target < sum + ∑ t ∈ Finset.range n, bins (i + t))
    (hlimit : sum + ∑ t ∈ Finset.range n, bins (i + t) < limit) :
    Ends (cumulativeSearch limit bins target n i sum) fun r =>
      ∃ j < n, r = (i + j, sum + ∑ t ∈ Finset.range j, bins (i + t)) ∧
        sum + ∑ t ∈ Finset.range j, bins (i + t) ≤ target ∧
        target < sum + ∑ t ∈ Finset.range (j + 1), bins (i + t) := by
  induction n generalizing i sum with
  | zero =>
    rw [Finset.range_zero, Finset.sum_empty] at htarget
    omega
  | succ n ih =>
    have hfirst : ∀ n, sum + ∑ t ∈ Finset.range (n + 1), bins (i + t) =
        sum + bins i + ∑ t ∈ Finset.range n, bins (i + 1 + t) := fun n => by
      rw [Finset.sum_range_succ', Nat.add_zero, Nat.add_comm (∑ _ ∈ _, _), ← Nat.add_assoc]
      simp only [Nat.add_assoc, Nat.add_comm 1]
    rw [hfirst] at htarget hlimit
    rw [cumulativeSearch, if_neg (by omega)]
    split
    · rename_i hstop
      refine Ends.some ⟨0, Nat.succ_pos n, by simp, by simpa using h0, ?_⟩
      simpa using hstop
    · rename_i hgo
      refine (ih (by omega) htarget hlimit).mono ?_
      rintro r ⟨j, hj, rfl, hle, hlt⟩
      refine ⟨j + 1, Nat.succ_lt_succ hj, ?_, ?_, ?_⟩
      · rw [hfirst]
        exact Prod.ext (by simp only; omega) rfl
      · rwa [hfirst]
      · rwa [hfirst]

/-- A search through bins that count the elements of `s` by key, from key `a`
on, stops at the key that the element of rank `r` has. -/
theorem histogramSearch_ends {β : Type*} {s : Multiset β} (key : β → ℕ) (bins : ℕ → ℕ)
    (limit : ℕ) {a n i r : ℕ} (hbins : ∀ t < n, bins (i + t) = s.countP fun x => key x = a + t)
    (hle : s.countP (fun x => key x < a) ≤ r) (hlt : r < s.countP fun x => key x < a + n)
    (hlimit : Multiset.card s < limit) :
    Ends (cumulativeSearch limit bins r n i (s.countP fun x => key x < a)) fun q =>
      ∃ j < n, q = (i + j, s.countP fun x => key x < a + j) ∧
        s.countP (fun x => key x < a + j) ≤ r ∧ r < s.countP fun x => key x < a + j + 1 := by
  have hsum : ∀ j ≤ n, s.countP (fun x => key x < a) + ∑ t ∈ Finset.range j, bins (i + t) =
      s.countP fun x => key x < a + j := by
    intro j hj
    rw [countP_lt_eq_sum s key (a + j), Finset.sum_range_add, ← countP_lt_eq_sum]
    exact congrArg _ (Finset.sum_congr rfl fun t ht =>
      hbins t ((Finset.mem_range.mp ht).trans_le hj))
  have hcard := Multiset.countP_le_card (fun x => key x < a + n) s
  refine (cumulativeSearch_ends hle (by rw [hsum n le_rfl]; exact hlt)
    (by rw [hsum n le_rfl]; omega)).mono ?_
  rintro q ⟨j, hj, rfl, h1, h2⟩
  rw [hsum j hj.le] at h1 ⊢
  rw [hsum (j + 1) hj] at h2
  exact ⟨j, hj, rfl, h1, h2⟩
