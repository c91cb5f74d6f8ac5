import KvBench.Hist.Percentile

/-!
# Combining histograms

The program reports two kinds of combined histograms. The summary merges the histograms of the
workers with `kv_hist_merge`, which keeps the exact extreme values (`summaryOf_holds`). An interval
is the `kv_hist_delta` of two cumulative snapshots built with `kv_hist_merge_snapshot`, and both
reconstruct the extreme values from the upper edges of the counters (`intervalOf_spec`). A
percentile is an upper edge in either case. The upper edges are words.
-/

namespace KvBench.Hist

open KvBench.Order

/-! ### `kv_hist_reset`, `kv_hist_copy` and `kv_hist_merge` -/

section Merge

variable {dst src : KvHist} {p : ℕ} {xs ys : List ℕ}

theorem kvHistReset_holds (h : KvHist) (f : ℕ → ℕ) :
    Holds (kvHistReset h) [] ∧ Extremes f (kvHistReset h) [] := by
  refine ⟨⟨by simp, fun i => by simp [kvHistReset, samplesAt], rfl, by simp⟩, ?_⟩
  exact ⟨fun _ => ⟨rfl, rfl⟩, fun h0 => absurd rfl h0, fun h0 => absurd rfl h0⟩

/-- No sample has a counter beyond the array. -/
theorem samplesAt_of_length_le (hl : Covering src.toKvLayout p) (hh : Holds src xs) {i : ℕ}
    (hi : src.countsArrayLength ≤ i) : samplesAt src.toKvLayout xs i = 0 := by
  refine List.countP_eq_zero.2 fun x hx => ?_
  have := indexOf_lt_length hl (hh.mem x hx).2
  simp only [decide_eq_true_eq]
  omega

theorem kvHistCopy_counts (hl : Covering src.toKvLayout p) (hlay : dst.toKvLayout = src.toKvLayout)
    (hh : Holds src xs) (i : ℕ) : (kvHistCopy dst src).counts i = src.counts i := by
  simp only [kvHistCopy, hlay, min_self]
  split
  · rfl
  · rename_i hi
    rw [hh.counts, samplesAt_of_length_le hl hh (not_lt.1 hi)]

theorem kvHistMerge_holds (hl : Covering src.toKvLayout p) (hlay : dst.toKvLayout = src.toKvLayout)
    (hd : Holds dst xs) (hs : Holds src ys) (hsz : xs.length + ys.length < 2 ^ 64) :
    Holds (kvHistMerge dst src) (xs ++ ys) where
  mem x hx := by
    have hhigh : dst.highestTrackable = src.highestTrackable := by rw [hlay]
    rcases List.mem_append.1 hx with hx | hx
    · exact hd.mem x hx
    · exact hhigh ▸ hs.mem x hx
  counts i := by
    have hsum : dst.counts i + src.counts i = samplesAt dst.toKvLayout (xs ++ ys) i := by
      rw [samplesAt_append, hd.counts, hs.counts, hlay]
    have hle := samplesAt_le dst.toKvLayout (xs ++ ys) i
    rw [List.length_append] at hle
    change (if _ ∧ _ then (dst.counts i + src.counts i) % 2 ^ 64 else dst.counts i) =
      samplesAt dst.toKvLayout (xs ++ ys) i
    split
    · rw [hsum, Nat.mod_eq_of_lt (by omega)]
    · rename_i hcond
      have hzero : src.counts i = 0 := by
        by_contra hne
        rw [not_and_or, not_not, hlay, min_self, not_lt] at hcond
        rcases hcond with hi | hi
        · exact hne (by rw [hs.counts, samplesAt_of_length_le hl hs hi])
        · exact hne hi
      rw [← hsum, hzero, Nat.add_zero]
  total := by
    simp only [kvHistMerge, hd.total, hs.total, List.length_append]
    exact Nat.mod_eq_of_lt hsz
  size := by simpa using hsz

theorem kvHistMerge_extremes (hl : Covering src.toKvLayout p)
    (hlay : dst.toKvLayout = src.toKvLayout) (hd : Holds dst xs) (hs : Holds src ys)
    (hed : Extremes id dst xs) (hes : Extremes id src ys) :
    Extremes id (kvHistMerge dst src) (xs ++ ys) := by
  have hb := hl.word
  have hhigh : dst.highestTrackable = src.highestTrackable := by rw [hlay]
  refine hed.append hes (fun x hx => ?_) (fun y hy => ?_) ?_ ?_
  · have := (hd.mem x hx).2
    simp only [id]; omega
  · have := (hs.mem y hy).2
    simp only [id]; omega
  · simp only [kvHistMerge, min_def]
    split_ifs <;> omega
  · simp only [kvHistMerge, max_def]
    split_ifs <;> omega

end Merge

/-! ### Counter by counter: `kv_hist_merge_snapshot` and `kv_hist_delta` -/

section Counters

variable {l : KvLayout} {p : ℕ}

/-- The histogram `h` of layout `l` contains the samples `xs`, and its extreme values are upper
edges. -/
structure EdgeHist (l : KvLayout) (p : ℕ) (h : KvHist) (xs : List ℕ) : Prop where
  layout : h.toKvLayout = l
  holds : Holds h xs
  extremes : Extremes (edgeWord p) h xs

/-- **One counter.** Adding to the counter `i` the number of the samples `ws`, all of which fall
into it, adds these samples; the value taken for the extremes is the upper edge they share. -/
theorem addCounter_spec (hl : Layout1 l p) {d : KvHist} {zs ws : List ℕ} {i : ℕ}
    (hd : EdgeHist l p d zs)
    (hw : ∀ w ∈ ws, (1 ≤ w ∧ w ≤ l.highestTrackable) ∧ indexOf l w = i)
    (hsz : zs.length + ws.length < 2 ^ 64) :
    EdgeHist l p (addCounter d i (d.counts i + ws.length) ws.length) (zs ++ ws) := by
  obtain ⟨rfl, hh, he⟩ := hd
  have hb := hl.word
  unfold addCounter
  split
  · rename_i h0
    rw [List.length_eq_zero_iff.1 h0, List.append_nil]
    exact ⟨rfl, hh, he⟩
  rename_i h0
  have hne : ws ≠ [] := fun h => h0 (by rw [h]; rfl)
  have hedge : ∀ w ∈ ws, edgeWord p w = valueAtIndex d.toKvLayout i := fun w hwm => by
    rw [← (hw w hwm).2, valueAtIndex_indexOf hl (by have := (hw w hwm).1.2; omega)]
  refine ⟨rfl, ⟨fun x hx => ?_, fun j => ?_, ?_, by simpa using hsz⟩, ?_⟩
  · rcases List.mem_append.1 hx with hx | hx
    · exact hh.mem x hx
    · exact (hw x hx).1
  · simp only [samplesAt_append, ← hh.counts]
    by_cases hj : i = j
    · subst hj
      have hall : samplesAt d.toKvLayout ws i = ws.length :=
        List.countP_eq_length.2 fun w hwm => by simpa using (hw w hwm).2
      rw [Function.update_self, hall]
    · have hnone : samplesAt d.toKvLayout ws j = 0 :=
        List.countP_eq_zero.2 fun w hwm => by simpa [(hw w hwm).2] using hj
      rw [Function.update_of_ne (Ne.symm hj), hnone, Nat.add_zero]
  · simp only [hh.total, List.length_append]
    exact Nat.mod_eq_of_lt hsz
  · set v := valueAtIndex d.toKvLayout i with hv
    have hset : {y | ∃ x ∈ ws, edgeWord p x = y} = {v} := by
      obtain ⟨w₀, hw₀⟩ := List.exists_mem_of_ne_nil ws hne
      ext y
      simp only [Set.mem_ofPred_eq, Set.mem_singleton_iff]
      constructor
      · rintro ⟨w, hwm, rfl⟩; exact hedge w hwm
      · rintro rfl; exact ⟨w₀, hw₀, hedge w₀ hw₀⟩
    have hone : Extremes (edgeWord p) { d with minValue := v, maxValue := v } ws :=
      ⟨fun h => absurd h hne, fun _ => hset ▸ isLeast_singleton, fun _ => hset ▸ isGreatest_singleton⟩
    have hword : ∀ x, edgeWord p x < 2 ^ 64 := fun x => Nat.mod_lt _ (by norm_num)
    refine he.append hone (fun x _ => hword x) (fun x _ => hword x) ?_ ?_
    · simp only [min_def]
      split_ifs <;> omega
    · simp only [max_def]
      split_ifs <;> omega

theorem filter_indexOf_succ_perm (l : KvLayout) (ys : List ℕ) (n : ℕ) :
    (ys.filter (fun y => decide (indexOf l y < n)) ++
      ys.filter (fun y => decide (indexOf l y = n))).Perm
      (ys.filter (fun y => decide (indexOf l y < n + 1))) := by
  have h := List.filter_append_perm (fun y => decide (indexOf l y < n))
    (ys.filter (fun y => decide (indexOf l y < n + 1)))
  rw [List.filter_filter, List.filter_filter] at h
  have hlow : ∀ y ∈ ys, decide (indexOf l y < n) =
      (decide (indexOf l y < n) && decide (indexOf l y < n + 1)) := fun y _ => by
    rw [← Bool.decide_and, decide_eq_decide]; omega
  have hhigh : ∀ y ∈ ys, decide (indexOf l y = n) =
      ((!decide (indexOf l y < n)) && decide (indexOf l y < n + 1)) := fun y _ => by
    rw [← decide_not, ← Bool.decide_and, decide_eq_decide]; omega
  rwa [List.filter_congr hlow, List.filter_congr hhigh]

/-- **A loop over the counters** that adds to each counter the samples of `ys` it has room for adds
all of `ys`. The loop body is only asked to behave so on the histograms the loop meets: those that
contain `xs` and the samples of the counters already visited. -/
theorem foldl_addCounter (hl : Layout1 l p) {d : KvHist} {xs ys : List ℕ}
    (hd : EdgeHist l p d xs) (hy : ∀ y ∈ ys, 1 ≤ y ∧ y ≤ l.highestTrackable)
    (hsz : xs.length + ys.length < 2 ^ 64) (step : KvHist → ℕ → KvHist)
    (hstep : ∀ n e, EdgeHist l p e (xs ++ ys.filter (fun y => decide (indexOf l y < n))) →
      step e n = addCounter e n (e.counts n + samplesAt l ys n) (samplesAt l ys n)) :
    EdgeHist l p ((List.range l.countsArrayLength).foldl step d) (xs ++ ys) := by
  have hloop : ∀ n, EdgeHist l p ((List.range n).foldl step d)
      (xs ++ ys.filter (fun y => decide (indexOf l y < n))) := by
    intro n
    induction n with
    | zero => simpa using hd
    | succ n ih =>
      have hlen : samplesAt l ys n = (ys.filter (fun y => decide (indexOf l y = n))).length :=
        List.countP_eq_length_filter
      rw [List.range_succ, List.foldl_append, List.foldl_cons, List.foldl_nil, hstep n _ ih, hlen]
      have hperm := (filter_indexOf_succ_perm l ys n).append_left xs
      have hle := List.length_filter_le (fun y => decide (indexOf l y < n + 1)) ys
      have hlenp := hperm.length_eq
      have hmem : ∀ w ∈ ys.filter (fun y => decide (indexOf l y = n)),
          (1 ≤ w ∧ w ≤ l.highestTrackable) ∧ indexOf l w = n := fun w hw => by
        obtain ⟨hm, hi⟩ := List.mem_filter.1 hw
        exact ⟨hy w hm, by simpa using hi⟩
      have hstep' := addCounter_spec hl ih hmem
        (by simp only [List.length_append] at hlenp ⊢; omega)
      rw [List.append_assoc] at hstep'
      exact ⟨hstep'.layout, hstep'.holds.perm hperm, hstep'.extremes.perm hperm⟩
  have hall : ys.filter (fun y => decide (indexOf l y < l.countsArrayLength)) = ys :=
    List.filter_eq_self.2 fun y hym => by simpa using indexOf_lt_length hl.covering (hy y hym).2
  simpa only [hall] using hloop l.countsArrayLength

theorem kvHistMergeSnapshot_spec (hl : Layout1 l p) {dst src : KvHist}
    {xs ys : List ℕ} (hd : EdgeHist l p dst xs) (hlay : src.toKvLayout = l) (hs : Holds src ys)
    (hsz : xs.length + ys.length < 2 ^ 64) :
    EdgeHist l p (kvHistMergeSnapshot dst src) (xs ++ ys) := by
  unfold kvHistMergeSnapshot
  rw [hlay, hd.layout, min_self]
  refine foldl_addCounter hl hd (fun y hy => hlay ▸ hs.mem y hy) hsz _ fun n e he => ?_
  unfold mergeCounter
  have hc : src.counts n = samplesAt l ys n := hlay ▸ hs.counts n
  have hle : e.counts n + samplesAt l ys n < 2 ^ 64 := by
    have h1 := samplesAt_le l xs n
    have h2 := samplesAt_le l ys n
    have h3 : samplesAt l (ys.filter (fun y => decide (indexOf l y < n))) n = 0 :=
      List.countP_eq_zero.2 fun y hy => by
        have := (List.mem_filter.1 hy).2
        simp only [decide_eq_true_eq] at this ⊢
        omega
    rw [he.holds.counts, he.layout, samplesAt_append, h3]
    omega
  rw [hc, Nat.mod_eq_of_lt hle]

/-- The delta of two cumulative histograms, the later of which contains the samples `ys` more. -/
theorem kvHistDelta_spec (hl : Layout1 l p) {dst current previous : KvHist}
    {xs ys : List ℕ} (hdst : dst.toKvLayout = l) (hcur : EdgeHist l p current (xs ++ ys))
    (hprev : previous.toKvLayout = l) (hc : ∀ i, previous.counts i = samplesAt l xs i) :
    EdgeHist l p (kvHistDelta dst current previous) ys := by
  have hsz := hcur.holds.size
  rw [List.length_append] at hsz
  unfold kvHistDelta
  rw [hcur.layout, hprev, hdst, min_self, min_self]
  have hreset : EdgeHist l p (kvHistReset dst) [] :=
    ⟨hdst, (kvHistReset_holds dst id).1, (kvHistReset_holds dst _).2⟩
  have hmem : ∀ y ∈ ys, 1 ≤ y ∧ y ≤ l.highestTrackable := fun y hy =>
    hcur.layout ▸ hcur.holds.mem y (List.mem_append_right _ hy)
  refine foldl_addCounter hl hreset hmem (by rw [List.length_nil]; omega) _ fun n e he => ?_
  have hadd : added (current.counts n) (previous.counts n) = samplesAt l ys n := by
    have hcn : current.counts n = samplesAt l xs n + samplesAt l ys n := by
      rw [hcur.holds.counts, hcur.layout, samplesAt_append]
    rw [hcn, hc]
    unfold added
    rw [if_pos (Nat.le_add_right _ _), Nat.add_sub_cancel_left]
  have hzero : e.counts n = 0 := by
    rw [he.holds.counts, he.layout, List.nil_append]
    exact List.countP_eq_zero.2 fun y hy => by
      have := (List.mem_filter.1 hy).2
      simp only [decide_eq_true_eq] at this ⊢
      omega
  rw [hadd, hzero, Nat.zero_add]

end Counters

end KvBench.Hist
