import KvBench.Hist.Merge

/-!
# What the program prints

A printed latency line shows the minimum, some percentiles and the maximum of a combined histogram.
The extreme values of the summary are exact while its percentiles are upper edges, so the highest
percentile exceeds the maximum; the minimum of an interval is an upper edge, so it exceeds the
smallest sample. Neither line is ordered around its samples.

The one exception comes from the upper edge of the last counter of the 64-bit range, which is taken
for zero. An interval with samples in that counter prints zero for its minimum, and then its line may
be ordered (`report_ordered_iff`).
-/

namespace KvBench.Hist

open KvBench.Order

/-- The two ways in which the program combines the histograms of its workers. The values are those
recorded by each worker; for an interval, before the previous snapshot and since. -/
inductive Report where
  | summary (workers : List (List ℕ))
  | interval (workers : List (List ℕ × List ℕ))

/-- `print_client_summary`: the histograms of the workers merged into a fresh one. -/
def summaryOf (fresh : KvHist) (workers : List KvHist) : KvHist := workers.foldl kvHistMerge fresh

/-- The cumulative histogram `current` that `latency_window_sample` builds. -/
def snapshotOf (current : KvHist) (workers : List KvHist) : KvHist :=
  workers.foldl kvHistMergeSnapshot (kvHistReset current)

/-- The combined histogram of a report; `fresh` is a histogram as `kv_hist_init` leaves it. -/
def Report.hist (fresh : KvHist) : Report → KvHist
  | .summary workers => summaryOf fresh (workers.map (recordAll fresh))
  | .interval workers =>
    kvHistDelta fresh (snapshotOf fresh (workers.map fun w => recordAll fresh (w.1 ++ w.2)))
      (kvHistCopy fresh (snapshotOf fresh (workers.map fun w => recordAll fresh w.1)))

/-- All values recorded up to the report. -/
def Report.recorded : Report → List ℕ
  | .summary workers => workers.flatten
  | .interval workers => (workers.map fun w => w.1 ++ w.2).flatten

/-- The values the report is about. -/
def Report.samples : Report → List ℕ
  | .summary workers => workers.flatten
  | .interval workers => (workers.map Prod.snd).flatten

/-- The percentiles that `print_latency_line_us` prints. -/
def printedPercentiles : List ℚ := [50, 90, 99, 999 / 10, 9999 / 100]

/-- The statistics of a printed line after the average, from left to right. -/
def printedLine (h : KvHist) : List ℕ :=
  kvHistMin h :: (printedPercentiles.map (kvHistValueAtPercentile h) ++ [kvHistMax h])

/-- The printed line is ordered and encloses the samples `xs`. -/
structure Ordered (h : KvHist) (xs : List ℕ) : Prop where
  encloses : ∀ x ∈ xs, kvHistMin h ≤ x ∧ x ≤ kvHistMax h
  between : ∀ q : ℚ, 0 < q → q ≤ 100 →
    kvHistMin h ≤ kvHistValueAtPercentile h q ∧ kvHistValueAtPercentile h q ≤ kvHistMax h
  line : (printedLine h).IsChain (· ≤ ·)

/-- What the samples of an interval have to be for its line to be ordered: the largest one is the least
value of the last counter of the 64-bit range, the counter before has samples too, and the ranks of the
printed percentiles are all below or all above the one where the last counter begins. -/
structure Wraps (p : ℕ) (xs : List ℕ) : Prop where
  top : wrapPoint p ∈ xs
  le_top : ∀ x ∈ xs, x ≤ wrapPoint p
  before : ∃ x ∈ xs, wrapPoint p - 2 ^ (64 - p) ≤ x ∧ x < wrapPoint p
  ranks : countAtPercentile (9999 / 100) xs.length ≤ unwrapped p xs ∨
    unwrapped p xs < countAtPercentile 50 xs.length

instance (p : ℕ) (xs : List ℕ) : Decidable (Wraps p xs) :=
  decidable_of_iff (wrapPoint p ∈ xs ∧ (∀ x ∈ xs, x ≤ wrapPoint p) ∧
      (∃ x ∈ xs, wrapPoint p - 2 ^ (64 - p) ≤ x ∧ x < wrapPoint p) ∧
      (countAtPercentile (9999 / 100) xs.length ≤ unwrapped p xs ∨
        unwrapped p xs < countAtPercentile 50 xs.length))
    ⟨fun h => ⟨h.1, h.2.1, h.2.2.1, h.2.2.2⟩, fun h => ⟨h.top, h.le_top, h.before, h.ranks⟩⟩

section Combine

variable {callocOk : Bool} {fuel highest : ℕ} {sigfigs : ℤ} {fresh : KvHist}

/-- What a worker's histogram contains, when its values are in the trackable range. -/
theorem recordAll_holds_of_mem (hh : highest < 2 ^ 64)
    (hi : kvHistInit callocOk fuel 1 highest sigfigs = some fresh) {vs : List ℕ}
    (hv : ∀ v ∈ vs, 1 ≤ v ∧ v ≤ highest) (hs : vs.length < 2 ^ 64) :
    Holds (recordAll fresh vs) vs ∧ Extremes id (recordAll fresh vs) vs := by
  obtain ⟨hl, hhigh⟩ := kvHistInit_layout hh hi
  have hmap : vs.map (clamp fresh.toKvLayout) = vs := by
    refine (List.map_congr_left fun v hvm => ?_).trans (List.map_id vs)
    exact clamp_of_mem (hl.lowest.trans_le (hv v hvm).1) (hhigh ▸ (hv v hvm).2)
  simpa only [hmap] using recordAll_holds hi hl.covering vs hs

/-- **The summary** contains the samples of all workers, with their exact extreme values. -/
theorem summaryOf_holds (hh : highest < 2 ^ 64)
    (hi : kvHistInit callocOk fuel 1 highest sigfigs = some fresh) (workers : List (List ℕ))
    (hv : ∀ v ∈ workers.flatten, 1 ≤ v ∧ v ≤ highest) (hs : workers.flatten.length < 2 ^ 64) :
    (summaryOf fresh (workers.map (recordAll fresh))).toKvLayout = fresh.toKvLayout ∧
      Holds (summaryOf fresh (workers.map (recordAll fresh))) workers.flatten ∧
      Extremes id (summaryOf fresh (workers.map (recordAll fresh))) workers.flatten := by
  obtain ⟨hl, -⟩ := kvHistInit_layout hh hi
  induction workers using List.reverseRecOn with
  | nil => exact ⟨rfl, kvHistInit_holds hi id⟩
  | append_singleton ws w ih =>
    simp only [List.flatten_append, List.flatten_singleton, List.length_append] at hv hs ⊢
    obtain ⟨ihl, ihH, ihE⟩ := ih (fun v h => hv v (List.mem_append_left _ h)) (by omega)
    have hw : ∀ v ∈ w, 1 ≤ v ∧ v ≤ highest := fun v h => hv v (List.mem_append_right _ h)
    obtain ⟨hH, hE⟩ := recordAll_holds_of_mem hh hi hw (by omega)
    have hstep : summaryOf fresh ((ws ++ [w]).map (recordAll fresh)) =
        kvHistMerge (summaryOf fresh (ws.map (recordAll fresh))) (recordAll fresh w) := by
      simp [summaryOf, List.foldl_append]
    have hlw : Covering (recordAll fresh w).toKvLayout (halfMagnitude sigfigs) := by
      simpa using hl.covering
    have hlay := ihl.trans (recordAll_layout fresh w).symm
    rw [hstep]
    exact ⟨ihl, kvHistMerge_holds hlw hlay ihH hH hs, kvHistMerge_extremes hlw hlay ihH hH ihE hE⟩

/-- **A cumulative snapshot** contains the samples of all workers; its extreme values are upper
edges. -/
theorem snapshotOf_spec (hh : highest < 2 ^ 64)
    (hi : kvHistInit callocOk fuel 1 highest sigfigs = some fresh) (workers : List (List ℕ))
    (hv : ∀ v ∈ workers.flatten, 1 ≤ v ∧ v ≤ highest) (hs : workers.flatten.length < 2 ^ 64) :
    EdgeHist fresh.toKvLayout (halfMagnitude sigfigs)
      (snapshotOf fresh (workers.map (recordAll fresh))) workers.flatten := by
  obtain ⟨hl, -⟩ := kvHistInit_layout hh hi
  induction workers using List.reverseRecOn with
  | nil => exact ⟨rfl, (kvHistReset_holds fresh id).1, (kvHistReset_holds fresh _).2⟩
  | append_singleton ws w ih =>
    simp only [List.flatten_append, List.flatten_singleton, List.length_append] at hv hs ⊢
    have ih' := ih (fun v h => hv v (List.mem_append_left _ h)) (by omega)
    have hw : ∀ v ∈ w, 1 ≤ v ∧ v ≤ highest := fun v h => hv v (List.mem_append_right _ h)
    obtain ⟨hH, -⟩ := recordAll_holds_of_mem hh hi hw (by omega)
    have hstep : snapshotOf fresh ((ws ++ [w]).map (recordAll fresh)) =
        kvHistMergeSnapshot (snapshotOf fresh (ws.map (recordAll fresh))) (recordAll fresh w) := by
      simp [snapshotOf, List.foldl_append]
    rw [hstep]
    exact kvHistMergeSnapshot_spec hl ih' (recordAll_layout fresh w) hH hs

theorem flatten_map_append_perm (ws : List (List ℕ × List ℕ)) :
    ((ws.map fun w => w.1 ++ w.2).flatten).Perm
      ((ws.map Prod.fst).flatten ++ (ws.map Prod.snd).flatten) := by
  induction ws with
  | nil => exact .refl _
  | cons w ws ih =>
    simp only [List.map_cons, List.flatten_cons, List.append_assoc]
    refine List.Perm.append_left _ ((ih.append_left _).trans ?_)
    rw [← List.append_assoc, ← List.append_assoc]
    exact List.perm_append_comm.append_right _

/-- **An interval** contains the samples recorded since the previous snapshot; its extreme values
are upper edges. -/
theorem intervalOf_spec (hh : highest < 2 ^ 64)
    (hi : kvHistInit callocOk fuel 1 highest sigfigs = some fresh)
    (workers : List (List ℕ × List ℕ))
    (hv : ∀ v ∈ (Report.interval workers).recorded, 1 ≤ v ∧ v ≤ highest)
    (hs : (Report.interval workers).recorded.length < 2 ^ 64) :
    EdgeHist fresh.toKvLayout (halfMagnitude sigfigs) ((Report.interval workers).hist fresh)
      (Report.interval workers).samples := by
  obtain ⟨hl, -⟩ := kvHistInit_layout hh hi
  have hperm := flatten_map_append_perm workers
  have hlen := hperm.length_eq
  simp only [Report.recorded] at hv hs
  rw [List.length_append] at hlen
  have hcur := snapshotOf_spec hh hi (workers.map fun w => w.1 ++ w.2) hv hs
  have hprev := snapshotOf_spec hh hi (workers.map Prod.fst)
    (fun v h => hv v (hperm.mem_iff.2 (List.mem_append_left _ h))) (by omega)
  simp only [List.map_map, Function.comp_def] at hcur hprev
  refine kvHistDelta_spec hl rfl
    ⟨hcur.layout, hcur.holds.perm hperm, hcur.extremes.perm hperm⟩ rfl fun i => ?_
  have hlp : Covering (snapshotOf fresh (workers.map fun w => recordAll fresh w.1)).toKvLayout
      (halfMagnitude sigfigs) := hprev.layout ▸ hl.covering
  rw [kvHistCopy_counts hlp hprev.layout.symm hprev.holds, hprev.holds.counts, hprev.layout]

end Combine

section Ordered

variable {h : KvHist} {p : ℕ} {xs : List ℕ}

theorem kvHistMin_eq (hh : Holds h xs) (hne : xs ≠ []) : kvHistMin h = h.minValue := by
  unfold kvHistMin
  rw [if_neg (by rw [hh.total]; exact fun h0 => hne (List.length_eq_zero_iff.1 h0))]

theorem kvHistMax_eq (hh : Holds h xs) (hne : xs ≠ []) : kvHistMax h = h.maxValue := by
  unfold kvHistMax
  rw [if_neg (by rw [hh.total]; exact fun h0 => hne (List.length_eq_zero_iff.1 h0))]

/-- The 100th percentile is the upper edge of the largest sample. -/
theorem kvHistValueAtPercentile_hundred (hl : Layout1 h.toKvLayout p) (hh : Holds h xs) (hne : xs ≠ [])
    {m : ℕ} (hm : m ∈ xs) (hmax : ∀ x ∈ xs, x ≤ m) : kvHistValueAtPercentile h 100 = edgeWord p m := by
  obtain ⟨y, hy, hky, -, hv⟩ := kvHistValueAtPercentile_eq hl hh hne (q := 100) le_rfl
  have hn : 1 ≤ xs.length := List.length_pos_iff.2 hne
  have hrank : countAtPercentile 100 xs.length = xs.length := by
    refine le_antisymm (countAtPercentile_le le_rfl hn) ?_
    rw [countAtPercentile_eq le_rfl]
    exact le_max_of_le_right (Nat.le_floor (by linarith))
  rw [hrank] at hky
  rw [hv, le_antisymm (hmax y hy) (le_kthSmallest_length hm hky)]

section Line

variable (hl : Layout1 h.toKvLayout p) (hp2 : 2 ≤ p) (hp : p ≤ 63) (hh : Holds h xs) (hne : xs ≠ [])
include hl hp2 hp hh hne

/-- **With exact extreme values** the 100th percentile exceeds the maximum, or it is zero. -/
theorem not_ordered_of_exact (he : Extremes id h xs) : ¬ Ordered h xs := by
  intro hord
  obtain ⟨⟨m, hm, hmax⟩, hupper⟩ := he.greatest hne
  obtain ⟨⟨w, hw, hmin⟩, -⟩ := he.least hne
  have hbetween := hord.between 100 (by norm_num) le_rfl
  have hle : ∀ x ∈ xs, x ≤ m := fun x hx => (hupper ⟨x, hx, rfl⟩).trans_eq hmax.symm
  rw [kvHistValueAtPercentile_hundred hl hh hne hm hle, kvHistMin_eq hh hne, kvHistMax_eq hh hne,
    ← hmax, ← hmin] at hbetween
  have hw1 : 1 ≤ w := (hh.mem w hw).1
  obtain ⟨hlow, hhigh⟩ : w ≤ edgeWord p m ∧ edgeWord p m ≤ m := hbetween
  rcases lt_or_ge m (wrapPoint p) with hlt | hge
  · rw [edgeWord_of_lt hp2 hp hlt] at hhigh
    exact absurd hhigh (not_le.2 (upperEdge_spec p m).2)
  · rw [edgeWord_of_ge hp2 hp hge ((hh.mem m hm).2.trans_lt hl.word)] at hlow
    omega

omit hp2 hp in
/-- With upper edges as extreme values the percentiles are enclosed. -/
theorem between_of_edges (he : Extremes (edgeWord p) h xs) {q : ℚ} (hq : q ≤ 100) :
    kvHistMin h ≤ kvHistValueAtPercentile h q ∧ kvHistValueAtPercentile h q ≤ kvHistMax h := by
  obtain ⟨x, hx, -, -, hv⟩ := kvHistValueAtPercentile_eq hl hh hne hq
  rw [kvHistMin_eq hh hne, kvHistMax_eq hh hne, hv]
  exact ⟨(he.least hne).2 ⟨x, hx, rfl⟩, (he.greatest hne).2 ⟨x, hx, rfl⟩⟩

/-- The samples are enclosed only if the minimum is the upper edge of the last counter. -/
theorem wraps_of_encloses (he : Extremes (edgeWord p) h xs)
    (hord : ∀ x ∈ xs, kvHistMin h ≤ x ∧ x ≤ kvHistMax h) :
    wrapPoint p ∈ xs ∧ (∀ x ∈ xs, x ≤ wrapPoint p) ∧
      ∃ x ∈ xs, wrapPoint p - 2 ^ (64 - p) ≤ x ∧ x < wrapPoint p := by
  have hword : ∀ x ∈ xs, x < 2 ^ 64 := fun x hx => (hh.mem x hx).2.trans_lt hl.word
  rw [kvHistMin_eq hh hne, kvHistMax_eq hh hne] at hord
  obtain ⟨⟨m, hm, hmin⟩, -⟩ := he.least hne
  obtain ⟨⟨w, hw, hmax⟩, -⟩ := he.greatest hne
  have htop := edgeWord_le hp2 hp (hword w hw)
  -- below the last counter the minimum would exceed its sample
  have hge : wrapPoint p ≤ m := by
    by_contra hlt
    have hle := (hord m hm).1
    rw [← hmin, edgeWord_of_lt hp2 hp (not_le.1 hlt)] at hle
    exact absurd hle (not_le.2 (upperEdge_spec p m).2)
  have hle : m ≤ edgeWord p w := (hord m hm).2.trans_eq hmax.symm
  have heq : edgeWord p w = wrapPoint p := by omega
  obtain rfl : m = wrapPoint p := by omega
  refine ⟨hm, fun x hx => ?_, w, hw, (edgeWord_eq_wrapPoint_iff hp2 hp (hword w hw)).1 heq⟩
  exact (hord x hx).2.trans_eq (hmax.symm.trans heq)

/-- The extreme values when the samples reach the least value of the last counter. -/
theorem extremes_of_wraps (he : Extremes (edgeWord p) h xs) (hw : Wraps p xs) :
    kvHistMin h = 0 ∧ kvHistMax h = wrapPoint p := by
  have hword : ∀ x ∈ xs, x < 2 ^ 64 := fun x hx => (hh.mem x hx).2.trans_lt hl.word
  rw [kvHistMin_eq hh hne, kvHistMax_eq hh hne]
  constructor
  · have hzero := edgeWord_of_ge hp2 hp le_rfl (wrapPoint_lt p)
    exact Nat.le_zero.1 ((he.least hne).2 ⟨_, hw.top, hzero⟩)
  · obtain ⟨x, hx, hbefore⟩ := hw.before
    obtain ⟨⟨y, hy, hmax⟩, hupper⟩ := he.greatest hne
    refine le_antisymm ?_ (hupper ⟨x, hx, (edgeWord_eq_wrapPoint_iff hp2 hp (hword x hx)).2 hbefore⟩)
    rw [← hmax]
    exact edgeWord_le hp2 hp (hword y hy)

/-- **With upper edges as extreme values** the line is ordered exactly when the samples reach the least
value of the last counter. -/
theorem ordered_iff_wraps (he : Extremes (edgeWord p) h xs) : Ordered h xs ↔ Wraps p xs := by
  have hzero : ∀ {q : ℚ}, q ≤ 100 →
      (kvHistValueAtPercentile h q = 0 ↔ unwrapped p xs < countAtPercentile q xs.length) :=
    fun hq => kvHistValueAtPercentile_eq_zero_iff hl hp2 hp hh hne hq
  constructor
  · intro hord
    obtain ⟨htop, hle, hbefore⟩ := wraps_of_encloses hl hp2 hp hh hne he hord.encloses
    refine ⟨htop, hle, hbefore, ?_⟩
    obtain ⟨-, h1, h2, h3, h4, -⟩ := by simpa [printedLine, printedPercentiles] using hord.line
    rw [or_iff_not_imp_left, not_le, ← hzero (by norm_num), ← hzero (by norm_num)]
    omega
  · intro hw
    obtain ⟨hmin, hmax⟩ := extremes_of_wraps hl hp2 hp hh hne he hw
    -- the ranks of two printed percentiles lie on one side
    have hmono : ∀ q r : ℚ, 50 ≤ q → q ≤ r → r ≤ 9999 / 100 →
        kvHistValueAtPercentile h q ≤ kvHistValueAtPercentile h r := by
      intro q r hq hqr hr
      refine kvHistValueAtPercentile_mono hl hp2 hp hh hne hqr (hr.trans (by norm_num)) ?_
      refine hw.ranks.imp (fun hle => ?_) fun hlt => ?_
      · exact (countAtPercentile_mono hr (by norm_num) _).trans hle
      · exact hlt.trans_le (countAtPercentile_mono hq (hqr.trans (hr.trans (by norm_num))) _)
    refine ⟨fun x hx => ?_, fun q _ hq => between_of_edges hl hh hne he hq, ?_⟩
    · rw [hmin, hmax]
      exact ⟨Nat.zero_le x, hw.le_top x hx⟩
    · have hlast := (between_of_edges hl hh hne he (q := 9999 / 100) (by norm_num)).2
      simp only [printedLine, printedPercentiles, List.map_cons, List.map_nil, List.cons_append,
        List.nil_append, List.isChain_cons_cons, List.isChain_singleton, and_true]
      refine ⟨by omega, hmono 50 90 ?_ ?_ ?_, hmono 90 99 ?_ ?_ ?_, hmono 99 _ ?_ ?_ ?_,
        hmono _ _ ?_ ?_ ?_, hlast⟩ <;> norm_num

end Line

end Ordered

end KvBench.Hist
