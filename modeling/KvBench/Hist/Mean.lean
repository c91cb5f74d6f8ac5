import KvBench.Floats.Round
import KvBench.Hist.Report

/-!
# The mean

`kv_hist_mean` adds up the upper edges of the counters in `double`, one rounding after each operation.
Without the roundings, the result is the mean of the upper edges of the samples, which lie above the
samples, by one unit at least and by one unit and two parts in the half count at most. The roundings are
as many as there are counters, and a few more.
-/

namespace KvBench.Hist

open KvBench.Floats

/-! ### The functions of the source -/

/-- The number of bits of a `double`. -/
def doubleBits : ℕ := 53

/-- The nearest `double`. What is computed here lies between `2⁻⁶⁵` and `2¹⁹³`, so that the range of the
exponent does not matter. -/
def toDouble (x : ℚ) : ℚ := roundTo doubleBits x

/-- The body of the loop of `kv_hist_mean`. -/
def meanStep (h : KvHist) (sum : ℚ) (i : ℕ) : ℚ :=
  if h.counts i ≠ 0 then
    toDouble (sum + toDouble (toDouble (valueAtIndex h.toKvLayout i) * toDouble (h.counts i)))
  else sum

/-- `kv_hist_mean`. -/
def kvHistMean (h : KvHist) : ℚ :=
  if h.totalCount = 0 then 0
  else toDouble ((List.range h.countsArrayLength).foldl (meanStep h) 0 / toDouble h.totalCount)

/-- `avg` of `print_latency_line_us`. -/
def averageNs (h : KvHist) : ℕ := ⌊kvHistMean h⌋₊

/-! ### The roundings -/

/-- The factor of a rounding. -/
def doubleStretch : ℚ := stretch doubleBits

theorem one_le_doubleStretch : 1 ≤ doubleStretch := one_le_stretch (by decide)

theorem near_toDouble {x : ℚ} (hx : 0 ≤ x) : Near doubleStretch 1 (toDouble x) x :=
  near_roundTo (by decide) hx

theorem toDouble_nonneg {x : ℚ} (hx : 0 ≤ x) : 0 ≤ toDouble x := roundTo_nonneg hx

theorem toDouble_pos {x : ℚ} (hx : 0 < x) : 0 < toDouble x := roundTo_pos (by decide) hx

section Loop

variable (h : KvHist)

/-- The sum that the loop is for. -/
def edgeSum (n : ℕ) : ℚ :=
  ∑ i ∈ Finset.range n, (valueAtIndex h.toKvLayout i : ℚ) * (h.counts i : ℚ)

theorem edgeSum_nonneg (n : ℕ) : 0 ≤ edgeSum h n :=
  Finset.sum_nonneg fun _ _ => mul_nonneg (Nat.cast_nonneg _) (Nat.cast_nonneg _)

theorem edgeSum_succ (n : ℕ) :
    edgeSum h (n + 1) = edgeSum h n + (valueAtIndex h.toKvLayout n : ℚ) * (h.counts n : ℚ) :=
  Finset.sum_range_succ _ _

/-- A term costs three roundings. -/
theorem near_term (v c : ℕ) :
    Near doubleStretch 3 (toDouble (toDouble v * toDouble c)) ((v : ℚ) * (c : ℚ)) := by
  have hv : (0 : ℚ) ≤ v := Nat.cast_nonneg v
  have hc : (0 : ℚ) ≤ c := Nat.cast_nonneg c
  have hv' := toDouble_nonneg hv
  have hc' := toDouble_nonneg hc
  have hmul := (near_toDouble hv).mul one_le_doubleStretch hv' hv hc' hc (near_toDouble hc)
  have hround := (near_toDouble (mul_nonneg hv' hc')).trans one_le_doubleStretch hmul
  rwa [show 1 + (1 + 1) = 3 by omega] at hround

/-- **The loop** costs one rounding for every counter, besides the three of a term. -/
theorem foldl_meanStep (n : ℕ) :
    0 ≤ (List.range n).foldl (meanStep h) 0 ∧
      Near doubleStretch (n + 3) ((List.range n).foldl (meanStep h) 0) (edgeSum h n) := by
  induction n with
  | zero =>
    have hzero : Near doubleStretch 0 0 (edgeSum h 0) := by
      unfold edgeSum
      rw [Finset.range_zero, Finset.sum_empty]
      exact Near.refl _ _
    exact ⟨le_rfl, hzero.mono one_le_doubleStretch le_rfl (edgeSum_nonneg h 0) (by omega)⟩
  | succ n ih =>
    obtain ⟨hnonneg, hnear⟩ := ih
    rw [List.range_succ, List.foldl_append, List.foldl_cons, List.foldl_nil, edgeSum_succ]
    unfold meanStep
    by_cases hc : h.counts n = 0
    · rw [if_neg (not_not.2 hc), hc, Nat.cast_zero, mul_zero, add_zero]
      exact ⟨hnonneg, hnear.mono one_le_doubleStretch hnonneg (edgeSum_nonneg h n) (by omega)⟩
    · rw [if_pos hc]
      have hterm := near_term (valueAtIndex h.toKvLayout n) (h.counts n)
      have hexact : (0 : ℚ) ≤ (valueAtIndex h.toKvLayout n : ℚ) * (h.counts n : ℚ) :=
        mul_nonneg (Nat.cast_nonneg _) (Nat.cast_nonneg _)
      have hterm0 : 0 ≤ toDouble (toDouble (valueAtIndex h.toKvLayout n) * toDouble (h.counts n)) :=
        toDouble_nonneg (mul_nonneg (toDouble_nonneg (Nat.cast_nonneg _))
          (toDouble_nonneg (Nat.cast_nonneg _)))
      have hsum := hnear.add (hterm.mono one_le_doubleStretch hterm0 hexact (by omega : 3 ≤ n + 3))
      have hround := (near_toDouble (add_nonneg hnonneg hterm0)).trans one_le_doubleStretch hsum
      rw [show 1 + (n + 3) = n + 1 + 3 by omega] at hround
      exact ⟨toDouble_nonneg (add_nonneg hnonneg hterm0), hround⟩

theorem near_kvHistMean (hcount : h.totalCount ≠ 0) :
    Near doubleStretch (h.countsArrayLength + 5) (kvHistMean h)
      (edgeSum h h.countsArrayLength / h.totalCount) := by
  obtain ⟨hnonneg, hnear⟩ := foldl_meanStep h h.countsArrayLength
  have htotal : (0 : ℚ) < h.totalCount := Nat.cast_pos.2 (Nat.pos_of_ne_zero hcount)
  have hdiv := hnear.div one_le_doubleStretch hnonneg (edgeSum_nonneg h _) (toDouble_pos htotal) htotal
    (near_toDouble htotal.le)
  have hround := (near_toDouble (div_nonneg hnonneg (toDouble_pos htotal).le)).trans
    one_le_doubleStretch hdiv
  unfold kvHistMean
  rw [if_neg hcount]
  rwa [show 1 + (h.countsArrayLength + 3 + 1) = h.countsArrayLength + 5 by omega] at hround

end Loop

/-! ### The mean of the upper edges -/

theorem sum_mul_countP (v f : ℕ → ℕ) {n : ℕ} {xs : List ℕ} (hxs : ∀ x ∈ xs, f x < n) :
    ∑ i ∈ Finset.range n, v i * xs.countP (fun x => decide (f x = i)) = (xs.map (v ∘ f)).sum := by
  induction xs with
  | nil => simp
  | cons x xs ih =>
    have hone : ∑ i ∈ Finset.range n, v i * (if f x = i then 1 else 0) = v (f x) := by
      simp [hxs x List.mem_cons_self]
    rw [List.map_cons, List.sum_cons, ← ih fun y hy => hxs y (List.mem_cons_of_mem _ hy),
      Function.comp_apply, ← hone, ← Finset.sum_add_distrib]
    refine Finset.sum_congr rfl fun i _ => ?_
    simp only [List.countP_cons, decide_eq_true_eq]
    ring

section Edges

variable {h : KvHist} {p : ℕ} {xs : List ℕ}

theorem edgeSum_eq (hl : Layout1 h.toKvLayout p) (hp2 : 2 ≤ p) (hp : p ≤ 63) (hh : Holds h xs)
    (hbelow : ∀ x ∈ xs, x < wrapPoint p) :
    edgeSum h h.countsArrayLength = ((xs.map (upperEdge p)).sum : ℕ) := by
  have hindex : ∀ x ∈ xs, indexOf h.toKvLayout x < h.countsArrayLength := fun x hx =>
    indexOf_lt_length hl.covering (hh.mem x hx).2
  have hedge : xs.map (valueAtIndex h.toKvLayout ∘ indexOf h.toKvLayout) = xs.map (upperEdge p) := by
    refine List.map_congr_left fun x hx => ?_
    rw [← edgeWord_of_lt hp2 hp (hbelow x hx)]
    exact valueAtIndex_indexOf hl ((hh.mem x hx).2.trans_lt hl.word)
  rw [← hedge, ← sum_mul_countP _ _ hindex]
  unfold edgeSum
  push_cast
  refine Finset.sum_congr rfl fun i _ => ?_
  rw [hh.counts]
  rfl

/-- An upper edge is above the value by one, and by two parts in the half count at most. -/
theorem upperEdge_close (p v : ℕ) :
    v + 1 ≤ upperEdge p v ∧ upperEdge p v * 2 ^ p ≤ v * 2 ^ p + 2 ^ p + 2 * v := by
  obtain ⟨hle, hlt⟩ := upperEdge_spec p v
  refine ⟨hlt, ?_⟩
  have hwidth : 2 ^ bucketOf p v * 2 ^ p ≤ 2 ^ p + 2 * v := by
    by_cases hsize : v.size ≤ p
    · have hzero : bucketOf p v = 0 := Nat.sub_eq_zero_of_le hsize
      rw [hzero, pow_zero, one_mul]
      omega
    · have hv : 2 ^ (v.size - 1) ≤ v := Nat.lt_size.1 (by omega)
      have hpow : 2 ^ bucketOf p v * 2 ^ p = 2 * 2 ^ (v.size - 1) := by
        rw [← pow_add, ← pow_succ']
        congr 1
        unfold bucketOf
        omega
      rw [hpow]
      exact (Nat.mul_le_mul_left 2 hv).trans (Nat.le_add_left _ _)
  calc upperEdge p v * 2 ^ p ≤ (v + 2 ^ bucketOf p v) * 2 ^ p := Nat.mul_le_mul_right _ hle
    _ = v * 2 ^ p + 2 ^ bucketOf p v * 2 ^ p := Nat.add_mul _ _ _
    _ ≤ v * 2 ^ p + 2 ^ p + 2 * v := by omega

theorem sum_upperEdge_close (p : ℕ) (xs : List ℕ) :
    xs.sum + xs.length ≤ (xs.map (upperEdge p)).sum ∧
      (xs.map (upperEdge p)).sum * 2 ^ p ≤ xs.sum * 2 ^ p + xs.length * 2 ^ p + 2 * xs.sum := by
  induction xs with
  | nil => simp
  | cons x xs ih =>
    obtain ⟨hlow, hhigh⟩ := upperEdge_close p x
    obtain ⟨ihlow, ihhigh⟩ := ih
    simp only [List.sum_cons, List.map_cons, List.length_cons, Nat.add_mul, one_mul]
    omega

/-- The mean of the upper edges, against the mean of the samples. -/
theorem edgeMean_close (hne : xs ≠ []) :
    (xs.sum : ℚ) / xs.length + 1 ≤ ((xs.map (upperEdge p)).sum : ℕ) / (xs.length : ℚ) ∧
      ((xs.map (upperEdge p)).sum : ℕ) / (xs.length : ℚ) ≤
        (1 + 2 / 2 ^ p) * ((xs.sum : ℚ) / xs.length) + 1 := by
  have hlen : (0 : ℚ) < xs.length := Nat.cast_pos.2 (List.length_pos_iff.2 hne)
  have hpow : (0 : ℚ) < 2 ^ p := by positivity
  obtain ⟨hlow, hhigh⟩ := sum_upperEdge_close p xs
  have hlow' : (xs.sum : ℚ) + xs.length ≤ ((xs.map (upperEdge p)).sum : ℕ) := by exact_mod_cast hlow
  have hhigh' : ((xs.map (upperEdge p)).sum : ℕ) * (2 : ℚ) ^ p ≤
      xs.sum * 2 ^ p + xs.length * 2 ^ p + 2 * xs.sum := by exact_mod_cast hhigh
  constructor
  · rw [div_add_one hlen.ne', div_le_div_iff_of_pos_right hlen]
    exact hlow'
  · rw [div_le_iff₀ hlen]
    have heq : ((1 + 2 / 2 ^ p) * ((xs.sum : ℚ) / xs.length) + 1) * xs.length =
        (xs.sum * 2 ^ p + xs.length * 2 ^ p + 2 * xs.sum) / 2 ^ p := by
      field_simp
      ring
    rw [heq, le_div_iff₀ hpow]
    exact hhigh'

end Edges

/-! ### The average of a report -/

/-- The histogram of a report contains its samples. -/
theorem Report.holds {callocOk : Bool} {fuel highest : ℕ} {sigfigs : ℤ} {fresh : KvHist}
    (hi : kvHistInit callocOk fuel 1 highest sigfigs = some fresh) (hh : highest < 2 ^ 64)
    (r : Report) (hv : ∀ v ∈ r.recorded, 1 ≤ v ∧ v ≤ highest) (hs : r.recorded.length < 2 ^ 64) :
    (r.hist fresh).toKvLayout = fresh.toKvLayout ∧ Holds (r.hist fresh) r.samples := by
  cases r with
  | summary workers =>
    obtain ⟨hlay, hholds, -⟩ := summaryOf_holds hh hi workers hv hs
    exact ⟨hlay, hholds⟩
  | interval workers =>
    have hspec := intervalOf_spec hh hi workers hv hs
    exact ⟨hspec.layout, hspec.holds⟩

/-- **The average that is printed**, in a summary or for an interval: it is at least the mean of the
samples, and above it by less than two parts in the half count and one nanosecond; both up to the
roundings, one for every counter and five more. -/
theorem report_average (callocOk : Bool) (fuel highest : ℕ) (sigfigs : ℤ) (fresh : KvHist)
    (hi : kvHistInit callocOk fuel 1 highest sigfigs = some fresh) (hh : highest < 2 ^ 63)
    (r : Report) (hv : ∀ v ∈ r.recorded, 1 ≤ v ∧ v ≤ highest) (hs : r.recorded.length < 2 ^ 64)
    (hne : r.samples ≠ []) :
    (r.samples.sum : ℚ) / r.samples.length + 1 <
        doubleStretch ^ (fresh.countsArrayLength + 5) * (averageNs (r.hist fresh) + 1) ∧
      averageNs (r.hist fresh) ≤ doubleStretch ^ (fresh.countsArrayLength + 5) *
        ((1 + 2 / fresh.subBucketHalfCount) * ((r.samples.sum : ℚ) / r.samples.length) + 1) := by
  have hword : highest < 2 ^ 64 := by omega
  obtain ⟨hl, hhigh⟩ := kvHistInit_layout hword hi
  have hp2 := two_le_halfMagnitude sigfigs
  have hp : halfMagnitude sigfigs ≤ 63 := (halfMagnitude_le sigfigs).trans (by norm_num)
  obtain ⟨hlay, hholds⟩ := r.holds hi hword hv hs
  have hbelow : ∀ x ∈ r.samples, x < wrapPoint (halfMagnitude sigfigs) := by
    intro x hx
    have hle := (hholds.mem x hx).2
    have htop := (two_pow_le_wrapPoint hp2).1
    rw [hlay] at hle
    omega
  have hl' : Layout1 (r.hist fresh).toKvLayout (halfMagnitude sigfigs) := hlay ▸ hl
  have hlen : (0 : ℚ) < r.samples.length := Nat.cast_pos.2 (List.length_pos_iff.2 hne)
  have hcount : (r.hist fresh).totalCount ≠ 0 := by
    rw [hholds.total]
    exact fun h0 => hne (List.length_eq_zero_iff.1 h0)
  have hnear := near_kvHistMean (r.hist fresh) hcount
  rw [edgeSum_eq hl' hp2 hp hholds hbelow, hholds.total, hlay] at hnear
  obtain ⟨hlow, hhigh⟩ := edgeMean_close (p := halfMagnitude sigfigs) hne
  have hhalf : (fresh.subBucketHalfCount : ℚ) = 2 ^ halfMagnitude sigfigs := by
    rw [hl.half]
    push_cast
    rfl
  have hpos : 0 < doubleStretch ^ (fresh.countsArrayLength + 5) :=
    pow_pos (one_pos.trans_le one_le_doubleStretch) _
  have hmean0 : 0 ≤ kvHistMean (r.hist fresh) := by
    have hmean : (0 : ℚ) ≤ (r.samples.sum : ℚ) / r.samples.length :=
      div_nonneg (Nat.cast_nonneg _) hlen.le
    refine le_of_mul_le_mul_left ?_ hpos
    rw [mul_zero]
    exact le_trans (by linarith) hnear.2
  constructor
  · calc (r.samples.sum : ℚ) / r.samples.length + 1 ≤ _ := hlow
      _ ≤ doubleStretch ^ (fresh.countsArrayLength + 5) * kvHistMean (r.hist fresh) := hnear.2
      _ < _ := mul_lt_mul_of_pos_left (Nat.lt_floor_add_one _) hpos
  · calc (averageNs (r.hist fresh) : ℚ) ≤ kvHistMean (r.hist fresh) := Nat.floor_le hmean0
      _ ≤ _ := hnear.1
      _ ≤ _ := by
        rw [hhalf]
        exact mul_le_mul_of_nonneg_left hhigh hpos.le

/-- The histograms of the program, with one request of 1500 ns. -/
theorem report_average_1500 : ∃ fresh, kvHistInit true 64 1 60000000000 3 = some fresh ∧
    fresh.countsArrayLength = 27648 ∧ fresh.subBucketHalfCount = 1024 ∧
      (averageNs ((Report.summary [[1500]]).hist fresh) : ℚ) ≤
        doubleStretch ^ (fresh.countsArrayLength + 5) *
          ((1 + 2 / fresh.subBucketHalfCount) * (1500 / 1) + 1) := by
  refine ⟨_, rfl, by decide +kernel, by decide +kernel, ?_⟩
  have h := (report_average true 64 60000000000 3 _ rfl (by norm_num) (.summary [[1500]])
    (by simp [Report.recorded]) (by simp [Report.recorded]) (by simp [Report.samples])).2
  have hsum : (((Report.summary [[1500]]).samples.sum : ℕ) : ℚ) = 1500 := by norm_num [Report.samples]
  have hlen : (((Report.summary [[1500]]).samples.length : ℕ) : ℚ) = 1 := by norm_num [Report.samples]
  rwa [hsum, hlen] at h

end KvBench.Hist
