import KvBench.Hist.Report

/-!
# The interval sampler

`latency_window_sample` reads the counters of the workers one by one while the workers go on
recording, so a snapshot is not a state any histogram was ever in. What carries over from round to
round is that each counter only grows: the interval of a round consists, counter by counter, of the
samples recorded between two reads of that counter.

A `Schedule` fixes an interleaving: it gives the increments that land just before the `k`-th
counter read of the sampler. The sampler threads the number of reads it has made.
-/

namespace KvBench.Hist

/-! ### The interleaving -/

/-- The four histograms of a worker. -/
inductive HistField where
  | hist | histReq | histWr | histPost
  deriving DecidableEq

/-- `LatencyKind`. -/
inductive LatencyKind where
  | request | wr | post

/-- The histogram `latency_window_sample` reads for a kind; `mixed` is `op == OP_MIXED`. -/
def sourceField (mixed : Bool) : LatencyKind → HistField
  | .wr => .histWr
  | .post => .histPost
  | .request => if mixed then .hist else .histReq

/-- One recorded sample: the atomic increment of a counter of one histogram of one worker. -/
structure Increment where
  worker : ℕ
  field : HistField
  index : ℕ
  deriving DecidableEq

/-- The increments that land just before each counter read of the sampler. -/
abbrev Schedule := ℕ → List Increment

/-- All increments that have landed when the sampler makes its read number `k`. -/
def landed (sched : Schedule) (k : ℕ) : List Increment := (List.range (k + 1)).flatMap sched

/-- The value of a counter at the read number `k`. -/
def counterAt (sched : Schedule) (k w : ℕ) (f : HistField) (i : ℕ) : ℕ :=
  (landed sched k).count ⟨w, f, i⟩ % 2 ^ 64

/-- The number of samples recorded into the histogram `f` of the workers by the read number `k`;
`n` is the length of the arrays. -/
def recorded (sched : Schedule) (workers n : ℕ) (f : HistField) (k : ℕ) : ℕ :=
  (landed sched k).countP (fun x => decide (x.worker < workers ∧ x.field = f ∧ x.index < n))

/-! ### The sampler -/

/-- `latency_window_t`. -/
structure LatencyWindow where
  current : KvHist
  previous : KvHist
  interval : KvHist
  ready : Bool

/-- `latency_window_init`, from the results of its three calls of `kv_hist_init`. -/
def latencyWindowInit (zero : KvHist) (current previous interval : Option KvHist) : LatencyWindow :=
  match current, previous, interval with
  | some c, some p, some i => ⟨c, p, i, true⟩
  | _, _, _ => ⟨current.getD zero, previous.getD zero, interval.getD zero, false⟩

/-- `kv_hist_merge_snapshot` of the histogram `f` of the worker `w`, which is being recorded into;
`n` is the length of its array and `t` the number of reads made so far. -/
def mergeSnapshotLive (sched : Schedule) (f : HistField) (n w : ℕ) (dt : KvHist × ℕ) :
    KvHist × ℕ :=
  (List.range (min n dt.1.countsArrayLength)).foldl
    (fun dt i => (mergeCounter dt.1 i (counterAt sched dt.2 w f i), dt.2 + 1)) dt

/-- `latency_window_sample` over the workers `0, …, workers - 1`, whose histograms have `n`
counters. -/
def latencyWindowSample (sched : Schedule) (workers n : ℕ) (f : HistField)
    (wt : LatencyWindow × ℕ) : LatencyWindow × ℕ :=
  if wt.1.ready then
    let ct := (List.range workers).foldl (fun dt w => mergeSnapshotLive sched f n w dt)
      (kvHistReset wt.1.current, wt.2)
    let interval := kvHistDelta wt.1.interval ct.1 wt.1.previous
    (⟨ct.1, kvHistCopy wt.1.previous ct.1, interval, wt.1.ready⟩, ct.2)
  else wt

/-- The window and the number of reads after `r` rounds. -/
def windowAfter (sched : Schedule) (workers n : ℕ) (f : HistField) (win : LatencyWindow) :
    ℕ → LatencyWindow × ℕ
  | 0 => (win, 0)
  | r + 1 => latencyWindowSample sched workers n f (windowAfter sched workers n f win r)

/-- The interval that the round number `r` reports. -/
def intervalAt (sched : Schedule) (workers n : ℕ) (f : HistField) (win : LatencyWindow) (r : ℕ) :
    KvHist :=
  (windowAfter sched workers n f win (r + 1)).1.interval

/-! ### Loops over the counters -/

section Loops

theorem addCounter_layout (d : KvHist) (i count c : ℕ) :
    (addCounter d i count c).toKvLayout = d.toKvLayout := by
  unfold addCounter
  split <;> rfl

theorem addCounter_totalCount {d : KvHist} (i count c : ℕ) (h : d.totalCount + c < 2 ^ 64) :
    (addCounter d i count c).totalCount = d.totalCount + c := by
  unfold addCounter
  split
  · omega
  · exact Nat.mod_eq_of_lt h

/-- What a loop of `addCounter` over the first `n` counters leaves in the counters, when the new
value of a counter depends on its old value only. -/
theorem foldl_addCounter_counts (g : ℕ → ℕ → ℕ) (c : ℕ → ℕ) (d : KvHist) (n j : ℕ) :
    ((List.range n).foldl (fun e i => addCounter e i (g (e.counts i) i) (c i)) d).counts j =
      if j < n ∧ c j ≠ 0 then g (d.counts j) j else d.counts j := by
  induction n with
  | zero => simp
  | succ n ih =>
    rw [List.range_succ, List.foldl_append, List.foldl_cons, List.foldl_nil]
    set e := (List.range n).foldl (fun e i => addCounter e i (g (e.counts i) i) (c i)) d with he
    unfold addCounter
    by_cases hj : j = n
    · subst hj
      have hold : e.counts j = d.counts j := by rw [ih, if_neg (by omega)]
      by_cases hc : c j = 0 <;> simp [hc, hold]
    · have hlt : j < n + 1 ↔ j < n := by omega
      by_cases hc : c n = 0
      · simp only [if_pos hc, ih, hlt]
      · rw [if_neg hc]
        simp only [Function.update_of_ne hj, ih, hlt]

theorem foldl_addCounter_total (g : ℕ → ℕ → ℕ) (c : ℕ → ℕ) (d : KvHist) (n : ℕ)
    (hd : d.totalCount + ∑ i ∈ Finset.range n, c i < 2 ^ 64) :
    ((List.range n).foldl (fun e i => addCounter e i (g (e.counts i) i) (c i)) d).totalCount =
      d.totalCount + ∑ i ∈ Finset.range n, c i := by
  induction n with
  | zero => simp
  | succ n ih =>
    rw [Finset.sum_range_succ] at hd ⊢
    rw [List.range_succ, List.foldl_append, List.foldl_cons, List.foldl_nil]
    have ih' := ih (by omega)
    rw [addCounter_totalCount _ _ _ (by omega), ih']
    omega

theorem foldl_addCounter_layout (g : ℕ → ℕ → ℕ) (c : ℕ → ℕ) (d : KvHist) (n : ℕ) :
    ((List.range n).foldl (fun e i => addCounter e i (g (e.counts i) i) (c i)) d).toKvLayout =
      d.toKvLayout := by
  induction n with
  | zero => rfl
  | succ n ih =>
    rw [List.range_succ, List.foldl_append, List.foldl_cons, List.foldl_nil, addCounter_layout, ih]

/-- The reads of one live snapshot happen one after the other. -/
theorem mergeSnapshotLive_eq (sched : Schedule) (f : HistField) (w : ℕ) (d : KvHist) (t n : ℕ)
    (hn : d.countsArrayLength = n) :
    mergeSnapshotLive sched f n w (d, t) =
      ((List.range n).foldl (fun e i => addCounter e i ((e.counts i + counterAt sched (t + i) w f i)
        % 2 ^ 64) (counterAt sched (t + i) w f i)) d, t + n) := by
  unfold mergeSnapshotLive
  simp only [hn, min_self]
  clear hn
  induction n with
  | zero => rfl
  | succ n ih =>
    rw [List.range_succ, List.foldl_append, List.foldl_append, ih]
    rfl

end Loops

/-! ### Counting increments -/

section Counting

variable (sched : Schedule) (f : HistField)

theorem landed_mono {k k' : ℕ} (h : k ≤ k') (x : Increment) :
    (landed sched k).count x ≤ (landed sched k').count x := by
  unfold landed
  exact ((List.range_sublist.2 (by omega)).flatMap sched).count_le x

/-- The increments of one histogram, counted worker by worker and counter by counter. -/
theorem sum_count_eq (l : List Increment) (workers n : ℕ) :
    ∑ w ∈ Finset.range workers, ∑ i ∈ Finset.range n, l.count ⟨w, f, i⟩ =
      l.countP (fun x => decide (x.worker < workers ∧ x.field = f ∧ x.index < n)) := by
  induction l with
  | nil => simp
  | cons x l ih =>
    obtain ⟨xw, xf, xi⟩ := x
    simp only [List.count_cons, List.countP_cons, Finset.sum_add_distrib, ih, beq_iff_eq,
      Increment.mk.injEq, decide_eq_true_eq]
    congr 1
    by_cases h : xw < workers ∧ xf = f ∧ xi < n
    · obtain ⟨hw, rfl, hi⟩ := h
      rw [if_pos ⟨hw, rfl, hi⟩, Finset.sum_eq_single_of_mem xw (by simpa using hw),
        Finset.sum_eq_single_of_mem xi (by simpa using hi)]
      · simp
      · intro j _ hj; simp [Ne.symm hj]
      · intro v _ hv; simp [Ne.symm hv]
    · rw [if_neg h]
      refine Finset.sum_eq_zero fun w hw => Finset.sum_eq_zero fun i hi => if_neg ?_
      rintro ⟨rfl, rfl, rfl⟩
      exact h ⟨by simpa using hw, rfl, by simpa using hi⟩

theorem count_le_recorded {workers n w i : ℕ} (k : ℕ) (hw : w < workers) (hi : i < n) :
    (landed sched k).count ⟨w, f, i⟩ ≤ recorded sched workers n f k := by
  refine List.countP_mono_left fun x _ hx => ?_
  obtain rfl := eq_of_beq hx
  simpa using ⟨hw, hi⟩

theorem counterAt_eq {workers n w i k K : ℕ} (hK : recorded sched workers n f K < 2 ^ 64)
    (hk : k ≤ K) (hw : w < workers) (hi : i < n) :
    counterAt sched k w f i = (landed sched k).count ⟨w, f, i⟩ := by
  have h1 := landed_mono sched hk ⟨w, f, i⟩
  have h2 := count_le_recorded sched f K hw hi
  exact Nat.mod_eq_of_lt (by omega)

/-- Whatever the moments of the reads, what they read does not exceed what has been recorded by the
end. -/
theorem sum_counterAt_le {workers n K : ℕ} (hK : recorded sched workers n f K < 2 ^ 64)
    (k : ℕ → ℕ → ℕ) {m : ℕ} (hm : m ≤ workers) (hk : ∀ w < m, ∀ i < n, k w i ≤ K) :
    ∑ w ∈ Finset.range m, ∑ i ∈ Finset.range n, counterAt sched (k w i) w f i ≤
      recorded sched workers n f K := by
  have hcount : ∑ w ∈ Finset.range m, ∑ i ∈ Finset.range n, counterAt sched (k w i) w f i ≤
      ∑ w ∈ Finset.range m, ∑ i ∈ Finset.range n, (landed sched K).count ⟨w, f, i⟩ := by
    refine Finset.sum_le_sum fun w hw => Finset.sum_le_sum fun i hi => ?_
    have hw' := Finset.mem_range.1 hw
    have hi' := Finset.mem_range.1 hi
    rw [counterAt_eq sched f hK (hk w hw' i hi') (by omega) hi']
    exact landed_mono sched (hk w hw' i hi') _
  refine hcount.trans (le_trans (Finset.sum_le_sum_of_subset ?_)
    (sum_count_eq f (landed sched K) workers n).le)
  exact Finset.range_subset_range.2 hm

theorem sum_counterAt_le_of_lt {workers n K : ℕ} (hK : recorded sched workers n f K < 2 ^ 64)
    (k : ℕ → ℕ → ℕ) {m : ℕ} (hm : m ≤ workers) (hk : ∀ w < m, ∀ i < n, k w i ≤ K) {i : ℕ}
    (hi : i < n) :
    ∑ w ∈ Finset.range m, counterAt sched (k w i) w f i ≤ recorded sched workers n f K := by
  refine le_trans (Finset.sum_le_sum fun w _ => ?_) (sum_counterAt_le sched f hK k hm hk)
  exact Finset.single_le_sum (f := fun i => counterAt sched (k w i) w f i)
    (fun _ _ => Nat.zero_le _) (Finset.mem_range.2 hi)

end Counting

/-! ### One round -/

section Round

variable {sched : Schedule} {f : HistField} {workers n K : ℕ}

/-- The value of the counter `i` of the worker `w` that the sampler read in its round number
`r - 1`; nothing before the first round. -/
def seen (sched : Schedule) (workers n : ℕ) (f : HistField) : ℕ → ℕ → ℕ → ℕ
  | 0, _, _ => 0
  | r + 1, w, i => counterAt sched (r * (workers * n) + w * n + i) w f i

theorem readTime_lt {r w i : ℕ} (hw : w < workers) (hi : i < n) :
    r * (workers * n) + w * n + i < (r + 1) * (workers * n) := by
  have h1 : (w + 1) * n ≤ workers * n := Nat.mul_le_mul_right n hw
  rw [Nat.succ_mul] at h1 ⊢
  omega

/-- Building `current`: after the snapshots of the first `m` workers, each counter is the sum of
what was read for it. -/
theorem snapshots_spec (hK : recorded sched workers n f K < 2 ^ 64) {d : KvHist} {t : ℕ}
    (hd : d.countsArrayLength = n) (hz : ∀ i, d.counts i = 0) (m : ℕ) (hm : m ≤ workers)
    (ht : t + m * n ≤ K + 1) :
    ∃ d', (List.range m).foldl (fun dt w => mergeSnapshotLive sched f n w dt) (d, t) =
        (d', t + m * n) ∧ d'.toKvLayout = d.toKvLayout ∧
      ∀ i < n, d'.counts i = ∑ w ∈ Finset.range m, counterAt sched (t + w * n + i) w f i := by
  induction m with
  | zero => exact ⟨d, by simp, rfl, fun i _ => by simp [hz]⟩
  | succ m ih =>
    rw [Nat.succ_mul] at ht
    obtain ⟨d', hfold, hlay, hcounts⟩ := ih (by omega) (by omega)
    have hlive := mergeSnapshotLive_eq sched f m d' (t + m * n) n (by rw [hlay, hd])
    set c : ℕ → ℕ := fun i => counterAt sched (t + m * n + i) m f i with hc
    set g : ℕ → ℕ → ℕ := fun old i => (old + c i) % 2 ^ 64 with hg
    refine ⟨(List.range n).foldl (fun e i => addCounter e i (g (e.counts i) i) (c i)) d', ?_,
      (foldl_addCounter_layout g c d' n).trans hlay, fun i hi => ?_⟩
    · rw [List.range_succ, List.foldl_append, hfold, List.foldl_cons, List.foldl_nil, hlive,
        Nat.succ_mul, Nat.add_assoc]
    · have hle := sum_counterAt_le_of_lt sched f hK (fun w i => t + w * n + i) hm
        (fun w hw i hi => by
          have : (w + 1) * n ≤ (m + 1) * n := Nat.mul_le_mul_right n hw
          rw [Nat.succ_mul, Nat.succ_mul] at this
          omega) hi
      rw [Finset.sum_range_succ] at hle ⊢
      change _ + c i ≤ _ at hle
      rw [foldl_addCounter_counts g c, hcounts i hi]
      split
      · exact Nat.mod_eq_of_lt (by omega)
      · rename_i hcond
        have hzero : c i = 0 := by
          by_contra hne
          exact hcond ⟨hi, hne⟩
        exact (Nat.add_zero _).symm.trans (congrArg _ hzero.symm)

/-- The state of the window after `r` rounds. -/
structure AfterRounds (sched : Schedule) (workers n : ℕ) (f : HistField) (r : ℕ)
    (wt : LatencyWindow × ℕ) : Prop where
  ready : wt.1.ready = true
  time : wt.2 = r * (workers * n)
  lenCurrent : wt.1.current.countsArrayLength = n
  lenPrevious : wt.1.previous.countsArrayLength = n
  lenInterval : wt.1.interval.countsArrayLength = n
  current : ∀ i < n, wt.1.current.counts i = ∑ w ∈ Finset.range workers, seen sched workers n f r w i
  previous : ∀ i < n,
    wt.1.previous.counts i = ∑ w ∈ Finset.range workers, seen sched workers n f r w i

theorem seen_mono (hK : recorded sched workers n f K < 2 ^ 64) {r w i : ℕ} (hw : w < workers)
    (hi : i < n) (hr : (r + 1) * (workers * n) ≤ K + 1) :
    seen sched workers n f r w i ≤ seen sched workers n f (r + 1) w i := by
  have h1 := readTime_lt (r := r) hw hi
  cases r with
  | zero => exact Nat.zero_le _
  | succ r =>
    have h0 := readTime_lt (r := r) hw hi
    have hle : r * (workers * n) + w * n + i ≤ (r + 1) * (workers * n) + w * n + i := by
      rw [Nat.succ_mul]; omega
    simp only [seen]
    rw [counterAt_eq sched f hK (by omega) hw hi, counterAt_eq sched f hK (by omega) hw hi]
    exact landed_mono sched hle _

/-- **One round**: the window moves on, and the interval holds what each counter has grown by since
its previous read. -/
theorem latencyWindowSample_spec (hK : recorded sched workers n f K < 2 ^ 64) {r : ℕ}
    (hr : (r + 1) * (workers * n) ≤ K + 1) {wt : LatencyWindow × ℕ}
    (hwt : AfterRounds sched workers n f r wt) :
    AfterRounds sched workers n f (r + 1) (latencyWindowSample sched workers n f wt) ∧
      (∀ i < n, (latencyWindowSample sched workers n f wt).1.interval.counts i =
        ∑ w ∈ Finset.range workers,
          (seen sched workers n f (r + 1) w i - seen sched workers n f r w i)) ∧
      (latencyWindowSample sched workers n f wt).1.interval.totalCount =
        ∑ i ∈ Finset.range n, (latencyWindowSample sched workers n f wt).1.interval.counts i := by
  have hsum : r * (workers * n) + workers * n = (r + 1) * (workers * n) := (Nat.succ_mul _ _).symm
  obtain ⟨d, hfold, hlay, hcounts⟩ := snapshots_spec (f := f) hK
    (d := kvHistReset wt.1.current) (t := r * (workers * n)) hwt.lenCurrent (fun _ => rfl) workers
    le_rfl (by omega)
  have hlen : d.countsArrayLength = n := by rw [hlay]; exact hwt.lenCurrent
  have hcur : ∀ i < n, d.counts i = ∑ w ∈ Finset.range workers, seen sched workers n f (r + 1) w i :=
    hcounts
  have hadd : ∀ i < n, added (d.counts i) (wt.1.previous.counts i) =
      ∑ w ∈ Finset.range workers,
        (seen sched workers n f (r + 1) w i - seen sched workers n f r w i) := by
    intro i hi
    have hmono : ∀ w ∈ Finset.range workers,
        seen sched workers n f r w i ≤ seen sched workers n f (r + 1) w i :=
      fun w hw => seen_mono hK (Finset.mem_range.1 hw) hi hr
    rw [hcur i hi, hwt.previous i hi, Finset.sum_tsub_distrib _ hmono]
    exact if_pos (Finset.sum_le_sum hmono)
  have hsample : latencyWindowSample sched workers n f wt =
      (⟨d, kvHistCopy wt.1.previous d, kvHistDelta wt.1.interval d wt.1.previous, true⟩,
        (r + 1) * (workers * n)) := by
    unfold latencyWindowSample
    rw [if_pos hwt.ready, hwt.time, hfold, hwt.ready, hsum]
  have hdelta : kvHistDelta wt.1.interval d wt.1.previous = (List.range n).foldl
      (fun e i => addCounter e i (added (d.counts i) (wt.1.previous.counts i))
        (added (d.counts i) (wt.1.previous.counts i))) (kvHistReset wt.1.interval) := by
    unfold kvHistDelta
    rw [hlen, hwt.lenPrevious, hwt.lenInterval, min_self, min_self]
  have hint : ∀ i < n, (kvHistDelta wt.1.interval d wt.1.previous).counts i =
      added (d.counts i) (wt.1.previous.counts i) := by
    intro i hi
    rw [hdelta, foldl_addCounter_counts (fun _ i => added (d.counts i) (wt.1.previous.counts i))
      (fun i => added (d.counts i) (wt.1.previous.counts i))]
    split
    · rfl
    · rename_i hc
      have : added (d.counts i) (wt.1.previous.counts i) = 0 := by
        by_contra hne; exact hc ⟨hi, hne⟩
      rw [this]; rfl
  have htotal : (kvHistDelta wt.1.interval d wt.1.previous).totalCount =
      ∑ i ∈ Finset.range n, added (d.counts i) (wt.1.previous.counts i) := by
    have hle : ∑ i ∈ Finset.range n, added (d.counts i) (wt.1.previous.counts i) ≤
        recorded sched workers n f K := by
      refine le_trans (Finset.sum_le_sum fun i hi => ?_)
        (le_trans (Finset.sum_comm).le (sum_counterAt_le sched f hK
          (fun w i => r * (workers * n) + w * n + i) le_rfl
          (fun w hw i hi => by have := readTime_lt (r := r) hw hi; omega)))
      rw [← hcounts i (Finset.mem_range.1 hi)]
      unfold added
      split <;> omega
    rw [hdelta, foldl_addCounter_total (fun _ i => added (d.counts i) (wt.1.previous.counts i))
      (fun i => added (d.counts i) (wt.1.previous.counts i))]
    · exact Nat.zero_add _
    · change 0 + _ < _
      omega
  rw [hsample]
  refine ⟨⟨rfl, rfl, hlen, hwt.lenPrevious, ?_, hcur, fun i hi => ?_⟩, fun i hi => ?_, ?_⟩
  · rw [hdelta, foldl_addCounter_layout (fun _ i => added (d.counts i) (wt.1.previous.counts i))]
    exact hwt.lenInterval
  · simp only [kvHistCopy, hlen, hwt.lenPrevious, min_self, if_pos hi]
    exact hcur i hi
  · rw [hint i hi, hadd i hi]
  · rw [htotal]
    exact Finset.sum_congr rfl fun i hi => (hint i (Finset.mem_range.1 hi)).symm

end Round

/-! ### All rounds -/

section Rounds

variable {sched : Schedule} {f : HistField} {workers n K : ℕ} {win : LatencyWindow}

/-- The samples of the counter `i` that the interval of the round `r` contains: `⟨w, m⟩` is the
`m`-th sample that the worker `w` recorded into that counter, and the round is the first one to
have read it. -/
def intervalSamples (sched : Schedule) (workers n : ℕ) (f : HistField) (r i : ℕ) :
    Finset (Σ _ : ℕ, ℕ) :=
  (Finset.range workers).sigma fun w =>
    Finset.Ioc (seen sched workers n f r w i) (seen sched workers n f (r + 1) w i)

theorem windowAfter_spec (hK : recorded sched workers n f K < 2 ^ 64)
    (h0 : AfterRounds sched workers n f 0 (win, 0)) (r : ℕ) (hr : r * (workers * n) ≤ K + 1) :
    AfterRounds sched workers n f r (windowAfter sched workers n f win r) := by
  induction r with
  | zero => exact h0
  | succ r ih =>
    refine (latencyWindowSample_spec hK hr (ih ?_)).1
    rw [Nat.succ_mul] at hr
    omega

theorem seen_le (hK : recorded sched workers n f K < 2 ^ 64) {r r' w i : ℕ} (hrr : r ≤ r')
    (hw : w < workers) (hi : i < n) (hr : r' * (workers * n) ≤ K + 1) :
    seen sched workers n f r w i ≤ seen sched workers n f r' w i := by
  induction r', hrr using Nat.le_induction with
  | base => exact le_rfl
  | succ r' _ ih =>
    refine (ih ?_).trans (seen_mono hK hw hi hr)
    rw [Nat.succ_mul] at hr
    omega

theorem intervalSamples_disjoint (hK : recorded sched workers n f K < 2 ^ 64) {r r' i : ℕ} (hi : i < n)
    (hrr : r < r') (hr : (r' + 1) * (workers * n) ≤ K + 1) :
    Disjoint (intervalSamples sched workers n f r i) (intervalSamples sched workers n f r' i) := by
  rw [Finset.disjoint_left]
  rintro ⟨w, m⟩ h1 h2
  simp only [intervalSamples, Finset.mem_sigma, Finset.mem_range, Finset.mem_Ioc] at h1 h2
  have hle : seen sched workers n f (r + 1) w i ≤ seen sched workers n f r' w i :=
    seen_le hK hrr h1.1 hi (by rw [Nat.succ_mul] at hr; omega)
  omega

theorem intervalAt_counts (hK : recorded sched workers n f K < 2 ^ 64)
    (h0 : AfterRounds sched workers n f 0 (win, 0)) {r i : ℕ} (hi : i < n)
    (hr : (r + 1) * (workers * n) ≤ K + 1) :
    (intervalAt sched workers n f win r).counts i =
      (intervalSamples sched workers n f r i).card := by
  have hr' : r * (workers * n) ≤ K + 1 := by rw [Nat.succ_mul] at hr; omega
  have h := (latencyWindowSample_spec hK hr (windowAfter_spec hK h0 r hr')).2.1 i hi
  rw [intervalSamples, Finset.card_sigma]
  simp only [Nat.card_Ioc]
  exact h

/-- The intervals of the first `R` rounds add up, counter by counter, to what the last round read. -/
theorem sum_intervalAt_counts (hK : recorded sched workers n f K < 2 ^ 64)
    (h0 : AfterRounds sched workers n f 0 (win, 0)) {i : ℕ} (hi : i < n) (R : ℕ)
    (hR : R * (workers * n) ≤ K + 1) :
    ∑ r ∈ Finset.range R, (intervalAt sched workers n f win r).counts i =
      ∑ w ∈ Finset.range workers, seen sched workers n f R w i := by
  induction R with
  | zero => simp [seen]
  | succ R ih =>
    have hR' : R * (workers * n) ≤ K + 1 := by rw [Nat.succ_mul] at hR; omega
    rw [Finset.sum_range_succ, ih hR', intervalAt_counts hK h0 hi hR, intervalSamples,
      Finset.card_sigma]
    simp only [Nat.card_Ioc]
    rw [← Finset.sum_add_distrib]
    refine Finset.sum_congr rfl fun w hw => ?_
    exact Nat.add_sub_cancel' (seen_mono hK (Finset.mem_range.1 hw) hi hR)

theorem intervalAt_total (hK : recorded sched workers n f K < 2 ^ 64)
    (h0 : AfterRounds sched workers n f 0 (win, 0)) {r : ℕ}
    (hr : (r + 1) * (workers * n) ≤ K + 1) :
    (intervalAt sched workers n f win r).totalCount =
      ∑ i ∈ Finset.range n, (intervalAt sched workers n f win r).counts i := by
  have hr' : r * (workers * n) ≤ K + 1 := by rw [Nat.succ_mul] at hr; omega
  exact (latencyWindowSample_spec hK hr (windowAfter_spec hK h0 r hr')).2.2

/-- Reads made while nothing lands see the counters as they were at the first of them. -/
theorem landed_eq_of_quiet {k k' : ℕ} (h : k ≤ k') (hq : ∀ j, k < j → j ≤ k' → sched j = []) :
    landed sched k' = landed sched k := by
  induction k', h using Nat.le_induction with
  | base => rfl
  | succ k' hk ih =>
    have hstep : landed sched (k' + 1) = landed sched k' ++ sched (k' + 1) := by
      rw [landed, List.range_succ, List.flatMap_append, List.flatMap_singleton]; rfl
    rw [hstep, hq (k' + 1) (by omega) le_rfl, List.append_nil]
    exact ih fun j h1 h2 => hq j h1 (by omega)

/-- Once the workers have stopped, a further round brings the intervals to the total. -/
theorem sum_intervalAt_total_of_quiet (hK : recorded sched workers n f K < 2 ^ 64)
    (h0 : AfterRounds sched workers n f 0 (win, 0)) {r : ℕ} (hr : (r + 1) * (workers * n) ≤ K + 1)
    (hq : ∀ k, r * (workers * n) < k → k < (r + 1) * (workers * n) → sched k = []) :
    ∑ q ∈ Finset.range (r + 1), (intervalAt sched workers n f win q).totalCount =
      recorded sched workers n f (r * (workers * n)) := by
  have hround : ∀ q ∈ Finset.range (r + 1), (q + 1) * (workers * n) ≤ K + 1 := fun q hqr =>
    le_trans (Nat.mul_le_mul_right _ (by have := Finset.mem_range.1 hqr; omega)) hr
  rw [Finset.sum_congr rfl fun q hqr => intervalAt_total hK h0 (hround q hqr), Finset.sum_comm,
    Finset.sum_congr rfl fun i hi => sum_intervalAt_counts hK h0 (Finset.mem_range.1 hi) (r + 1) hr,
    Finset.sum_comm, recorded, ← sum_count_eq]
  refine Finset.sum_congr rfl fun w hw => Finset.sum_congr rfl fun i hi => ?_
  have hlt := readTime_lt (r := r) (Finset.mem_range.1 hw) (Finset.mem_range.1 hi)
  simp only [seen]
  rw [counterAt_eq sched f hK (by omega) (Finset.mem_range.1 hw) (Finset.mem_range.1 hi),
    landed_eq_of_quiet (k := r * (workers * n)) (by omega) fun j h1 h2 => hq j h1 (by omega)]

end Rounds

/-- **Intervals partition the samples.** For every interleaving, the intervals of the first `R`
rounds add up to the last snapshot; each interval's total is the sum of its counters; a counter of
an interval is the number of the samples the interval contains, and no sample is in two intervals;
and a round during which nothing is recorded any more brings the sum of the intervals to the number
of recorded samples. -/
theorem intervals_partition (callocOk : Bool) (fuel lowest highest : ℕ) (sigfigs : ℤ)
    (fresh : KvHist) (hi : kvHistInit callocOk fuel lowest highest sigfigs = some fresh)
    (sched : Schedule) (workers : ℕ) (mixed : Bool) (kind : LatencyKind) (R : ℕ)
    (hR : recorded sched workers fresh.countsArrayLength (sourceField mixed kind)
      (R * (workers * fresh.countsArrayLength)) < 2 ^ 64) :
    let n := fresh.countsArrayLength
    let f := sourceField mixed kind
    let win := latencyWindowInit fresh (some fresh) (some fresh) (some fresh)
    (∀ i < n, ∑ r ∈ Finset.range R, (intervalAt sched workers n f win r).counts i =
      (windowAfter sched workers n f win R).1.current.counts i) ∧
    (∀ r < R, (intervalAt sched workers n f win r).totalCount =
      ∑ i ∈ Finset.range n, (intervalAt sched workers n f win r).counts i) ∧
    (∀ r < R, ∀ i < n, (intervalAt sched workers n f win r).counts i =
      (intervalSamples sched workers n f r i).card) ∧
    (∀ r < R, ∀ r' < R, ∀ i < n, r ≠ r' →
      Disjoint (intervalSamples sched workers n f r i) (intervalSamples sched workers n f r' i)) ∧
    ∀ r < R, (∀ k, r * (workers * n) < k → k < (r + 1) * (workers * n) → sched k = []) →
      ∑ q ∈ Finset.range (r + 1), (intervalAt sched workers n f win q).totalCount =
        recorded sched workers n f (r * (workers * n)) := by
  intro n f win
  have hz := (kvHistInit_zero hi).1
  have h0 : AfterRounds sched workers n f 0 (win, 0) :=
    ⟨rfl, by simp, rfl, rfl, rfl, fun i _ => by simp [win, latencyWindowInit, hz, seen],
      fun i _ => by simp [win, latencyWindowInit, hz, seen]⟩
  have hround : ∀ r < R, (r + 1) * (workers * n) ≤ R * (workers * n) + 1 := fun r hr =>
    (Nat.mul_le_mul_right (workers * n) hr).trans (Nat.le_succ _)
  refine ⟨fun i hin => ?_, fun r hr => intervalAt_total hR h0 (hround r hr),
    fun r hr i hin => intervalAt_counts hR h0 hin (hround r hr), fun r hr r' hr' i hin hne => ?_,
    fun r hr hq => sum_intervalAt_total_of_quiet hR h0 (hround r hr) hq⟩
  · rw [sum_intervalAt_counts hR h0 hin R (Nat.le_succ _)]
    exact ((windowAfter_spec hR h0 R (Nat.le_succ _)).current i hin).symm
  · rcases lt_or_gt_of_ne hne with hlt | hgt
    · exact intervalSamples_disjoint hR hin hlt (hround r' hr')
    · exact (intervalSamples_disjoint hR hin hgt (hround r hr)).symm

/-- One worker records one sample before the first read of the second of two rounds. -/
theorem intervals_partition_two_rounds : ∃ fresh, kvHistInit true 1 1 20 1 = some fresh ∧
    ∑ q ∈ Finset.range 2, (intervalAt (fun k => if k = 32 then [⟨0, .histReq, 5⟩] else []) 1 32
        .histReq (latencyWindowInit fresh (some fresh) (some fresh) (some fresh)) q).totalCount = 1 :=
  ⟨_, rfl, (intervals_partition true 1 1 20 1 _ rfl
    (fun k => if k = 32 then [⟨0, .histReq, 5⟩] else []) 1 false .request 2 (by decide)).2.2.2.2 1
    (by decide) (fun k hk _ => if_neg (Nat.ne_of_gt hk))⟩

end KvBench.Hist
