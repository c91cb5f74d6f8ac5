import KvBench.Hist.Report

/-!
# Merging equals recording together

Recording two values commutes, so a histogram depends on the multiset of its samples only
(`recordAll_perm`). Merging a histogram that was recorded from a fresh one is the same as recording
its samples (`kvHistMerge_recordAll`), and therefore so is the loop of `print_client_summary`.

`kv_hist_merge_snapshot` counts the total anew from the counters. It agrees with `kv_hist_merge`
because the total of a recorded histogram is the sum of its counters (`recordAll_balanced`). Its
extreme values are upper edges, so only the counters and the total are compared.

Nothing here depends on the range: all counters are words, and both sides compute modulo `2 ^ 64`.
-/

namespace KvBench.Hist

/-! ### Recording commutes -/

theorem KvHist.eq_of_fields {a b : KvHist} (hlay : a.toKvLayout = b.toKvLayout)
    (htotal : a.totalCount = b.totalCount) (hmin : a.minValue = b.minValue)
    (hmax : a.maxValue = b.maxValue) (hcounts : a.counts = b.counts) : a = b := by
  cases a
  cases b
  simp_all

/-- Counting up two counters, in either order. -/
theorem update_succ_comm (c : ℕ → ℕ) (i j : ℕ) :
    let c₁ := Function.update c i ((c i + 1) % 2 ^ 64)
    let c₂ := Function.update c j ((c j + 1) % 2 ^ 64)
    Function.update c₁ j ((c₁ j + 1) % 2 ^ 64) = Function.update c₂ i ((c₂ i + 1) % 2 ^ 64) := by
  intro c₁ c₂
  by_cases hij : i = j
  · subst hij; rfl
  · simp only [c₁, c₂, Function.update_of_ne hij, Function.update_of_ne (Ne.symm hij)]
    exact Function.update_comm hij _ _ c

theorem kvHistRecord_comm (h : KvHist) (a b : ℕ) :
    kvHistRecord (kvHistRecord h a) b = kvHistRecord (kvHistRecord h b) a := by
  have hlay := kvHistRecord_layout h
  rcases le_or_gt h.countsArrayLength (indexOf h.toKvLayout (clamp h.toKvLayout a)) with ha | ha
  · rw [kvHistRecord_of_length_le ha, kvHistRecord_of_length_le (h := kvHistRecord h b)]
    rwa [hlay]
  rcases le_or_gt h.countsArrayLength (indexOf h.toKvLayout (clamp h.toKvLayout b)) with hb | hb
  · rw [kvHistRecord_of_length_le hb, kvHistRecord_of_length_le (h := kvHistRecord h a)]
    rwa [hlay]
  rw [kvHistRecord_of_lt_length (h := kvHistRecord h a) (by rwa [hlay]),
    kvHistRecord_of_lt_length (h := kvHistRecord h b) (by rwa [hlay]),
    kvHistRecord_of_lt_length ha, kvHistRecord_of_lt_length hb]
  congr 1
  · exact min_left_comm _ _ _
  · exact max_right_comm _ _ _
  · exact update_succ_comm _ _ _

/-- **The order of the samples does not matter.** -/
theorem recordAll_perm (h : KvHist) {xs ys : List ℕ} (hp : xs.Perm ys) :
    recordAll h xs = recordAll h ys := by
  have : RightCommutative kvHistRecord := ⟨kvHistRecord_comm⟩
  exact hp.foldl_eq h

/-! ### What every recorded histogram satisfies -/

/-- A histogram of machine words whose total is the sum of its counters. -/
structure Balanced (h : KvHist) : Prop where
  counts : ∀ i, h.counts i < 2 ^ 64
  least : h.minValue ≤ uint64Max
  total : h.totalCount = (∑ i ∈ Finset.range h.countsArrayLength, h.counts i) % 2 ^ 64

theorem Balanced.init {callocOk : Bool} {fuel lowest highest : ℕ} {sigfigs : ℤ} {h : KvHist}
    (hi : kvHistInit callocOk fuel lowest highest sigfigs = some h) : Balanced h := by
  obtain ⟨hc, ht, hmin, -⟩ := kvHistInit_zero hi
  exact ⟨fun i => by rw [hc]; norm_num, hmin.le, by simp [hc, ht]⟩

/-- Counting up one counter counts up the sum, modulo `2 ^ 64`. -/
theorem sum_update_succ (c : ℕ → ℕ) {i n : ℕ} (hi : i < n) :
    (∑ j ∈ Finset.range n, Function.update c i ((c i + 1) % 2 ^ 64) j) % 2 ^ 64 =
      (∑ j ∈ Finset.range n, c j + 1) % 2 ^ 64 := by
  have hmem : i ∈ Finset.range n := Finset.mem_range.2 hi
  rw [Finset.sum_update_of_mem hmem, ← Finset.add_sum_erase _ c hmem, Finset.erase_eq]
  omega

theorem Balanced.record {h : KvHist} (hb : Balanced h) (v : ℕ) : Balanced (kvHistRecord h v) := by
  rcases le_or_gt h.countsArrayLength (indexOf h.toKvLayout (clamp h.toKvLayout v)) with hv | hv
  · rwa [kvHistRecord_of_length_le hv]
  rw [kvHistRecord_of_lt_length hv]
  refine ⟨fun i => ?_, (min_le_right _ _).trans hb.least, ?_⟩
  · rcases eq_or_ne i (indexOf h.toKvLayout (clamp h.toKvLayout v)) with rfl | hi
    · simp only [Function.update_self]
      exact Nat.mod_lt _ (by norm_num)
    · simpa only [Function.update_of_ne hi] using hb.counts i
  · simp only [sum_update_succ _ hv, hb.total]
    omega

/-- The total of a recorded histogram is the sum of its counters. -/
theorem Balanced.recordAll {h : KvHist} (hb : Balanced h) (vs : List ℕ) :
    Balanced (recordAll h vs) := by
  unfold Hist.recordAll
  induction vs generalizing h with
  | nil => exact hb
  | cons v vs ih => exact ih (hb.record v)

/-! ### Merging what was recorded -/

section MergeRecorded

variable {dst src : KvHist}

/-- A zero counter of the source is skipped, which is what adding it would do. -/
theorem kvHistMerge_counts (hb : Balanced dst) (hlay : src.toKvLayout = dst.toKvLayout) (i : ℕ) :
    (kvHistMerge dst src).counts i =
      if i < dst.countsArrayLength then (dst.counts i + src.counts i) % 2 ^ 64
      else dst.counts i := by
  have hc := hb.counts i
  simp only [kvHistMerge, hlay, min_self]
  split_ifs <;> omega

/-- **One sample more in the source** is one sample more in the merged histogram. -/
theorem kvHistMerge_record (hb : Balanced dst) (hlay : src.toKvLayout = dst.toKvLayout) (v : ℕ) :
    kvHistMerge dst (kvHistRecord src v) = kvHistRecord (kvHistMerge dst src) v := by
  rcases le_or_gt dst.countsArrayLength (indexOf dst.toKvLayout (clamp dst.toKvLayout v))
    with hv | hv
  · rw [kvHistRecord_of_length_le (h := kvHistMerge dst src) hv,
      kvHistRecord_of_length_le (h := src) (by rwa [hlay])]
  have hsrc := kvHistRecord_of_lt_length (h := src) (v := v) (by rwa [hlay])
  simp only [hlay] at hsrc
  rw [kvHistRecord_of_lt_length (h := kvHistMerge dst src) hv, hsrc]
  refine KvHist.eq_of_fields rfl ?_ ?_ ?_ (funext fun j => ?_)
  · simp only [kvHistMerge]
    omega
  · simp only [kvHistMerge]
    split_ifs <;> omega
  · simp only [kvHistMerge]
    split_ifs <;> omega
  · have hlay' : (kvHistMerge dst src).toKvLayout = dst.toKvLayout := rfl
    refine (kvHistMerge_counts hb (by rfl) j).trans ?_
    rw [hlay']
    rcases eq_or_ne j (indexOf dst.toKvLayout (clamp dst.toKvLayout v)) with rfl | hj
    · simp only [Function.update_self, if_pos hv, kvHistMerge_counts hb hlay]
      omega
    · simp only [Function.update_of_ne hj, kvHistMerge_counts hb hlay]

/-- Merging an empty histogram changes nothing. -/
theorem kvHistMerge_zero (hb : Balanced dst) (hc : src.counts = fun _ => 0)
    (ht : src.totalCount = 0) (hmin : src.minValue = uint64Max) (hmax : src.maxValue = 0) :
    kvHistMerge dst src = dst := by
  have htotal := hb.total
  have hleast := hb.least
  refine KvHist.eq_of_fields rfl ?_ ?_ ?_ (funext fun j => ?_)
  · simp only [kvHistMerge, ht]
    omega
  · simp only [kvHistMerge, hmin]
    split_ifs <;> omega
  · simp only [kvHistMerge, hmax]
    split_ifs <;> omega
  · simp [kvHistMerge, hc]

end MergeRecorded

section Fresh

variable {callocOk : Bool} {fuel lowest highest : ℕ} {sigfigs : ℤ} {fresh : KvHist}
  (hi : kvHistInit callocOk fuel lowest highest sigfigs = some fresh)
include hi

/-- **Merging a worker's histogram** is recording its samples. -/
theorem kvHistMerge_recordAll {dst : KvHist} (hb : Balanced dst)
    (hlay : fresh.toKvLayout = dst.toKvLayout) (vs : List ℕ) :
    kvHistMerge dst (recordAll fresh vs) = recordAll dst vs := by
  induction vs using List.reverseRecOn with
  | nil =>
    obtain ⟨hc, ht, hmin, hmax⟩ := kvHistInit_zero hi
    exact kvHistMerge_zero hb hc ht hmin hmax
  | append_singleton vs v ih =>
    have hstep : ∀ h, recordAll h (vs ++ [v]) = kvHistRecord (recordAll h vs) v := fun h => by
      simp [recordAll, List.foldl_append]
    rw [hstep, hstep, ← ih]
    exact kvHistMerge_record hb ((recordAll_layout fresh vs).trans hlay) v

/-- **The summary** is the histogram of all samples, one after the other. -/
theorem summaryOf_eq_recordAll (workers : List (List ℕ)) :
    summaryOf fresh (workers.map (recordAll fresh)) = recordAll fresh workers.flatten := by
  induction workers using List.reverseRecOn with
  | nil => rfl
  | append_singleton ws w ih =>
    have hstep : summaryOf fresh ((ws ++ [w]).map (recordAll fresh)) =
        kvHistMerge (summaryOf fresh (ws.map (recordAll fresh))) (recordAll fresh w) := by
      simp [summaryOf, List.foldl_append]
    rw [hstep, ih, kvHistMerge_recordAll hi ((Balanced.init hi).recordAll _) (by simp)]
    simp [recordAll, List.foldl_append]

end Fresh

/-! ### `kv_hist_merge_snapshot` -/

/-- The two histograms have the same layout, counters and total. -/
structure SameCounts (a b : KvHist) : Prop where
  layout : a.toKvLayout = b.toKvLayout
  counts : a.counts = b.counts
  total : a.totalCount = b.totalCount

/-- One round of the loop of `kv_hist_merge_snapshot`. -/
theorem mergeCounter_fields {dst : KvHist} (hc : ∀ i, dst.counts i < 2 ^ 64)
    (ht : dst.totalCount < 2 ^ 64) (i c : ℕ) :
    (mergeCounter dst i c).toKvLayout = dst.toKvLayout ∧
      (mergeCounter dst i c).counts =
        Function.update dst.counts i ((dst.counts i + c) % 2 ^ 64) ∧
      (mergeCounter dst i c).totalCount = (dst.totalCount + c) % 2 ^ 64 := by
  unfold mergeCounter addCounter
  split
  · rename_i h0
    subst h0
    refine ⟨rfl, ?_, ?_⟩
    · rw [Nat.add_zero, Nat.mod_eq_of_lt (hc i), Function.update_eq_self]
    · rw [Nat.add_zero, Nat.mod_eq_of_lt ht]
  · exact ⟨rfl, rfl, rfl⟩

/-- **The loop** adds the counters it has visited, and their sum to the total. -/
theorem kvHistMergeSnapshot_loop {dst : KvHist} (hc : ∀ i, dst.counts i < 2 ^ 64)
    (ht : dst.totalCount < 2 ^ 64) (src : ℕ → ℕ) (n : ℕ) :
    let d := (List.range n).foldl (fun d i => mergeCounter d i (src i)) dst
    d.toKvLayout = dst.toKvLayout ∧
      (∀ i, d.counts i = if i < n then (dst.counts i + src i) % 2 ^ 64 else dst.counts i) ∧
      d.totalCount = (dst.totalCount + ∑ i ∈ Finset.range n, src i) % 2 ^ 64 := by
  induction n with
  | zero => exact ⟨rfl, fun i => rfl, by simpa using (Nat.mod_eq_of_lt ht).symm⟩
  | succ n ih =>
    obtain ⟨ihl, ihc, iht⟩ := ih
    simp only [List.range_succ, List.foldl_append, List.foldl_cons, List.foldl_nil]
    set d := (List.range n).foldl (fun d i => mergeCounter d i (src i)) dst
    have hcd : ∀ i, d.counts i < 2 ^ 64 := fun i => by
      rw [ihc]
      have := hc i
      split <;> omega
    have htd : d.totalCount < 2 ^ 64 := by
      rw [iht]
      exact Nat.mod_lt _ (by norm_num)
    obtain ⟨h1, h2, h3⟩ := mergeCounter_fields hcd htd n (src n)
    refine ⟨h1.trans ihl, fun i => ?_, ?_⟩
    · rw [h2]
      rcases eq_or_ne i n with rfl | hne
      · rw [Function.update_self, ihc, if_neg (lt_irrefl i), if_pos (Nat.lt_succ_self i)]
      · rw [Function.update_of_ne hne, ihc]
        split_ifs <;> omega
    · rw [h3, iht, Finset.sum_range_succ]
      omega

/-- Both merge loops leave the same counters and the same total, when the total of the source is
the sum of its counters. -/
theorem SameCounts.merge {a b src : KvHist} (h : SameCounts a b) (hb : Balanced b)
    (hs : Balanced src) (hlay : src.toKvLayout = b.toKvLayout) :
    SameCounts (kvHistMergeSnapshot a src) (kvHistMerge b src) := by
  have htotal : a.totalCount < 2 ^ 64 := by
    rw [h.total, hb.total]
    exact Nat.mod_lt _ (by norm_num)
  have hlen : src.countsArrayLength = b.countsArrayLength := by rw [hlay]
  obtain ⟨h1, h2, h3⟩ := kvHistMergeSnapshot_loop (fun i => by rw [h.counts]; exact hb.counts i)
    htotal src.counts b.countsArrayLength
  unfold kvHistMergeSnapshot
  rw [h.layout, hlen, min_self]
  refine ⟨h1.trans h.layout, funext fun i => ?_, ?_⟩
  · rw [h2, h.counts, kvHistMerge_counts hb hlay]
  · rw [h3, h.total]
    show _ = (b.totalCount + src.totalCount) % 2 ^ 64
    rw [hs.total, hlen]
    omega

/-- **Merging equals recording together.** The histograms of any number of workers, merged in any
order into a fresh one, give exactly the histogram of all samples recorded in any order: counters,
total, minimum and maximum. The snapshot of the same histograms has the same counters and the same
total. -/
theorem merge_eq_record_together (callocOk : Bool) (fuel lowest highest : ℕ) (sigfigs : ℤ)
    (fresh : KvHist) (hi : kvHistInit callocOk fuel lowest highest sigfigs = some fresh)
    (workers : List (List ℕ)) (all : List ℕ) (hall : all.Perm workers.flatten) :
    summaryOf fresh (workers.map (recordAll fresh)) = recordAll fresh all ∧
      SameCounts (snapshotOf fresh (workers.map (recordAll fresh))) (recordAll fresh all) := by
  rw [recordAll_perm fresh hall]
  refine ⟨summaryOf_eq_recordAll hi workers, ?_⟩
  have hb := Balanced.init hi
  induction workers using List.reverseRecOn generalizing all with
  | nil =>
    obtain ⟨hc, ht, -, -⟩ := kvHistInit_zero hi
    exact ⟨rfl, hc.symm, ht.symm⟩
  | append_singleton ws w ih =>
    have hstep : snapshotOf fresh ((ws ++ [w]).map (recordAll fresh)) =
        kvHistMergeSnapshot (snapshotOf fresh (ws.map (recordAll fresh))) (recordAll fresh w) := by
      simp [snapshotOf, List.foldl_append]
    have hlay : fresh.toKvLayout = (recordAll fresh ws.flatten).toKvLayout := by simp
    have hmerge := (ih ws.flatten (List.Perm.refl _)).merge (hb.recordAll _) (hb.recordAll w)
      ((recordAll_layout fresh w).trans hlay)
    rw [kvHistMerge_recordAll hi (hb.recordAll _) hlay] at hmerge
    rw [hstep]
    simpa [recordAll, List.foldl_append] using hmerge

/-- Three workers, one of them idle and one with a value beyond the range. -/
theorem merge_eq_record_together_three : ∃ fresh, kvHistInit true 64 1 1000 3 = some fresh ∧
    summaryOf fresh ([[5, 2000], [], [7]].map (recordAll fresh)) = recordAll fresh [7, 2000, 5] ∧
    SameCounts (snapshotOf fresh ([[5, 2000], [], [7]].map (recordAll fresh)))
      (recordAll fresh [7, 2000, 5]) :=
  ⟨_, rfl, merge_eq_record_together true 64 1 1000 3 _ rfl [[5, 2000], [], [7]] [7, 2000, 5]
    (by decide)⟩

end KvBench.Hist
