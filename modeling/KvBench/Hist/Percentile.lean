import KvBench.Hist.Record

/-!
# Percentiles

The scan of `kv_hist_value_at_percentile` stops at the counter of the order statistic it is asked
for: the running totals count the samples below each counter, and the index is monotone in the
value. So the result is the upper edge of the counter of the `k`-th smallest sample.
-/

namespace KvBench.Hist

open KvBench.Order

/-! ### The scan -/

/-- The scan from `i` on, when the running total is still below `rank` and reaches it within the
next `n` counters. -/
theorem percentileScan_spec (counts : ℕ → ℕ) (rank : ℕ) :
    ∀ (n i acc : ℕ), acc = ∑ j ∈ Finset.range i, counts j → acc < rank →
      rank ≤ ∑ j ∈ Finset.range (i + n), counts j →
      ∑ j ∈ Finset.range (i + n), counts j < 2 ^ 64 →
      ∃ k, percentileScan counts rank n i acc = some k ∧ k < i + n ∧
        ∑ j ∈ Finset.range k, counts j < rank ∧ rank ≤ ∑ j ∈ Finset.range (k + 1), counts j := by
  intro n
  induction n with
  | zero => intro i acc hacc hlt hle _; rw [Nat.add_zero, ← hacc] at hle; omega
  | succ n ih =>
    intro i acc hacc hlt hle hsz
    have hsum : acc + counts i = ∑ j ∈ Finset.range (i + 1), counts j := by
      rw [Finset.sum_range_succ, hacc]
    have hmono : ∑ j ∈ Finset.range (i + 1), counts j ≤ ∑ j ∈ Finset.range (i + (n + 1)), counts j :=
      Finset.sum_le_sum_of_subset (Finset.range_subset_range.2 (by omega))
    have hmod : (acc + counts i) % 2 ^ 64 = ∑ j ∈ Finset.range (i + 1), counts j := by
      rw [hsum, Nat.mod_eq_of_lt (by omega)]
    simp only [percentileScan, hmod]
    split
    · rename_i hr
      exact ⟨i, rfl, by omega, hacc ▸ hlt, hr⟩
    · rename_i hr
      rw [show i + (n + 1) = i + 1 + n by omega] at hle hsz ⊢
      exact ih (i + 1) _ rfl (by omega) hle hsz

section Scan

variable {h : KvHist} {p : ℕ} {xs : List ℕ}

theorem sum_counts_eq (hh : Holds h xs) (i : ℕ) :
    ∑ j ∈ Finset.range i, h.counts j = xs.countP (fun x => decide (indexOf h.toKvLayout x < i)) := by
  rw [← sum_countP_eq]
  exact Finset.sum_congr rfl fun j _ => hh.counts j

/-- All samples lie in the counters of the array. -/
theorem sum_counts_length (hl : Covering h.toKvLayout p) (hh : Holds h xs) :
    ∑ j ∈ Finset.range h.countsArrayLength, h.counts j = xs.length := by
  rw [sum_counts_eq hh, List.countP_eq_length]
  intro x hx
  simpa using indexOf_lt_length hl (hh.mem x hx).2

/-- **The scan finds the counter of the order statistic.** -/
theorem percentileScan_kth (hl : Covering h.toKvLayout p) (hh : Holds h xs) {k : ℕ} (hk1 : 1 ≤ k)
    (hk : k ≤ xs.length) :
    ∃ x ∈ xs, kthSmallest xs k = some x ∧
      percentileScan h.counts k h.countsArrayLength 0 0 = some (indexOf h.toKvLayout x) := by
  have hlen := sum_counts_length hl hh
  have hsz := hh.size
  obtain ⟨i, hscan, -, hlt, hle⟩ := percentileScan_spec h.counts k h.countsArrayLength 0 0
    (by simp) hk1 (by rw [Nat.zero_add, hlen]; exact hk) (by rw [Nat.zero_add, hlen]; exact hsz)
  rw [sum_counts_eq hh] at hlt hle
  obtain ⟨x, hx, hkx, hi⟩ := key_kthSmallest (f := indexOf h.toKvLayout)
    (fun a _ b hb hab => indexOf_mono hl.toGeometry hab ((hh.mem b hb).2.trans_lt hl.word))
    hk1 hlt hle
  exact ⟨x, hx, hkx, by rw [hscan, hi]⟩

end Scan

/-! ### The rank -/

theorem countAtPercentile_eq {q : ℚ} (hq : q ≤ 100) (n : ℕ) :
    countAtPercentile q n = max 1 ⌊q * n / 100 + 1 / 2⌋₊ := by
  simp only [countAtPercentile, if_neg (not_lt.2 hq), div_mul_eq_mul_div]
  split_ifs <;> omega

theorem one_le_countAtPercentile {q : ℚ} (hq : q ≤ 100) (n : ℕ) : 1 ≤ countAtPercentile q n := by
  rw [countAtPercentile_eq hq]
  exact le_max_left _ _

theorem countAtPercentile_le {q : ℚ} (hq : q ≤ 100) {n : ℕ} (hn : 1 ≤ n) :
    countAtPercentile q n ≤ n := by
  rw [countAtPercentile_eq hq]
  refine max_le hn (Nat.lt_succ_iff.1 (Nat.floor_lt' (Nat.succ_ne_zero n) |>.2 ?_))
  have hn0 : (0 : ℚ) ≤ n := Nat.cast_nonneg n
  have hle : q * n / 100 ≤ n := by
    rw [div_le_iff₀ (by norm_num)]
    nlinarith
  push_cast
  linarith

theorem countAtPercentile_mono {q r : ℚ} (hqr : q ≤ r) (hr : r ≤ 100) (n : ℕ) :
    countAtPercentile q n ≤ countAtPercentile r n := by
  rw [countAtPercentile_eq (hqr.trans hr), countAtPercentile_eq hr]
  have hn0 : (0 : ℚ) ≤ n := Nat.cast_nonneg n
  refine max_le_max le_rfl (Nat.floor_le_floor ?_)
  have : q * n ≤ r * n := mul_le_mul_of_nonneg_right hqr hn0
  linarith

/-! ### The value at a percentile -/

section Value

variable {h : KvHist} {p : ℕ} {xs : List ℕ}

/-- The value at a percentile is the upper edge of the counter of the order statistic, as a word, and it
is returned from inside the scan. -/
theorem kvHistValueAtPercentile_eq (hl : Layout1 h.toKvLayout p) (hh : Holds h xs) (hne : xs ≠ [])
    {q : ℚ} (hq : q ≤ 100) :
    ∃ x ∈ xs, kthSmallest xs (countAtPercentile q xs.length) = some x ∧
      percentileIndex h q = some (indexOf h.toKvLayout x) ∧
      kvHistValueAtPercentile h q = edgeWord p x := by
  have hn : 1 ≤ xs.length := List.length_pos_iff.2 hne
  obtain ⟨x, hx, hkx, hscan⟩ := percentileScan_kth hl.covering hh (one_le_countAtPercentile hq _)
    (countAtPercentile_le hq hn)
  have hidx : percentileIndex h q = some (indexOf h.toKvLayout x) := by
    unfold percentileIndex
    rw [hh.total]
    exact hscan
  refine ⟨x, hx, hkx, hidx, ?_⟩
  unfold kvHistValueAtPercentile
  rw [if_neg (by rw [hh.total]; omega), hidx]
  exact valueAtIndex_indexOf hl ((hh.mem x hx).2.trans_lt hl.word)

/-- The number of samples that lie below the last counter of the 64-bit range. -/
def unwrapped (p : ℕ) (xs : List ℕ) : ℕ := xs.countP (fun x => decide (x < wrapPoint p))

theorem unwrapped_of_lt (hxs : ∀ x ∈ xs, x < wrapPoint p) : unwrapped p xs = xs.length :=
  List.countP_eq_length.2 fun x hx => by simpa using hxs x hx

section Wrap

variable (hl : Layout1 h.toKvLayout p) (hp2 : 2 ≤ p) (hp : p ≤ 63) (hh : Holds h xs) (hne : xs ≠ [])
include hl hp2 hp hh hne

/-- **A percentile is zero** exactly when its rank lies among the samples of the last counter. -/
theorem kvHistValueAtPercentile_eq_zero_iff {q : ℚ} (hq : q ≤ 100) :
    kvHistValueAtPercentile h q = 0 ↔ unwrapped p xs < countAtPercentile q xs.length := by
  obtain ⟨x, hx, hkx, -, hv⟩ := kvHistValueAtPercentile_eq hl hh hne hq
  rw [hv, edgeWord_eq_zero_iff hp2 hp ((hh.mem x hx).2.trans_lt hl.word), ← not_lt,
    kthSmallest_lt_iff (one_le_countAtPercentile hq _) hkx, not_le]
  rfl

/-- Two percentiles are in order unless the last counter comes between them. -/
theorem kvHistValueAtPercentile_mono {q r : ℚ} (hqr : q ≤ r) (hr : r ≤ 100)
    (hwrap : countAtPercentile r xs.length ≤ unwrapped p xs ∨
      unwrapped p xs < countAtPercentile q xs.length) :
    kvHistValueAtPercentile h q ≤ kvHistValueAtPercentile h r := by
  have hq : q ≤ 100 := hqr.trans hr
  have hrank := countAtPercentile_mono hqr hr xs.length
  rcases hwrap with hbelow | hwrapped
  · obtain ⟨x, -, hkx, -, hvx⟩ := kvHistValueAtPercentile_eq hl hh hne hq
    obtain ⟨y, -, hky, -, hvy⟩ := kvHistValueAtPercentile_eq hl hh hne hr
    have hx := (kthSmallest_lt_iff (one_le_countAtPercentile hq _) hkx (wrapPoint p)).2
      (hrank.trans hbelow)
    have hy := (kthSmallest_lt_iff (one_le_countAtPercentile hr _) hky (wrapPoint p)).2 hbelow
    rw [hvx, hvy, edgeWord_of_lt hp2 hp hx, edgeWord_of_lt hp2 hp hy]
    exact upperEdge_mono p (kthSmallest_mono hrank hkx hky)
  · rw [(kvHistValueAtPercentile_eq_zero_iff hl hp2 hp hh hne hq).2 hwrapped]
    exact Nat.zero_le _

end Wrap

end Value

/-- **Percentiles bracket the true order statistic.** Whatever was recorded, the result for a
percentile `q` is returned from inside the scan and exceeds the `k`-th smallest (clamped) sample
`x`, by at most the width of its bucket; and it is non-decreasing in `q`. -/
theorem percentile_brackets (callocOk : Bool) (fuel highest : ℕ) (sigfigs : ℤ) (h : KvHist)
    (hi : kvHistInit callocOk fuel 1 highest sigfigs = some h) (hh : highest < 2 ^ 63)
    (vs : List ℕ) (hne : vs ≠ []) (hs : vs.length < 2 ^ 64) :
    (∀ q : ℚ, 0 ≤ q → q ≤ 100 →
      ∃ x, kthSmallest (vs.map (clamp h.toKvLayout)) (max 1 ⌊q * vs.length / 100 + 1 / 2⌋₊) =
          some x ∧
        (percentileIndex (recordAll h vs) q).isSome ∧
        kvHistValueAtPercentile (recordAll h vs) q ≤ x + 2 ^ kvHistGetBucketIndex h.toKvLayout x ∧
        x < kvHistValueAtPercentile (recordAll h vs) q) ∧
    ∀ q r : ℚ, 0 ≤ q → q ≤ r → r ≤ 100 →
      kvHistValueAtPercentile (recordAll h vs) q ≤ kvHistValueAtPercentile (recordAll h vs) r := by
  obtain ⟨hl, hhigh⟩ := kvHistInit_layout (by omega) hi
  obtain ⟨hH, -⟩ := recordAll_holds hi hl.covering vs hs
  have hp2 := two_le_halfMagnitude sigfigs
  have hp : halfMagnitude sigfigs ≤ 63 := (halfMagnitude_le sigfigs).trans (by norm_num)
  have hl' : Layout1 (recordAll h vs).toKvLayout (halfMagnitude sigfigs) := by simpa using hl
  have hne' : vs.map (clamp h.toKvLayout) ≠ [] := by simpa using hne
  have hbelow : ∀ x ∈ vs.map (clamp h.toKvLayout), x < 2 ^ 63 := fun x hx => by
    have hle := (hH.mem x hx).2
    rw [recordAll_layout] at hle
    omega
  have htop := (two_pow_le_wrapPoint hp2).1
  refine ⟨fun q _ hq => ?_, fun q r _ hqr hr => ?_⟩
  · obtain ⟨x, hx, hkx, hidx, hv⟩ := kvHistValueAtPercentile_eq hl' hH hne' hq
    have hx63 := hbelow x hx
    rw [edgeWord_of_lt hp2 hp (by omega)] at hv
    obtain ⟨hb1, hb2⟩ := upperEdge_spec (halfMagnitude sigfigs) x
    refine ⟨x, ?_, by rw [hidx]; rfl, ?_, by rw [hv]; exact hb2⟩
    · rw [← countAtPercentile_eq hq]
      simpa using hkx
    · rw [hv, kvHistGetBucketIndex_eq hl.covering.toGeometry (by omega)]
      exact hb1
  · refine kvHistValueAtPercentile_mono hl' hp2 hp hH hne' hqr hr (.inl ?_)
    rw [unwrapped_of_lt fun x hx => (hbelow x hx).trans htop]
    exact countAtPercentile_le hr (List.length_pos_iff.2 hne')

/-- Two samples of the same bucket, 100 and 200 ns, in a histogram up to 1 ms: the median is above 100 by
one, and the percentiles are in order. -/
theorem percentile_brackets_two : ∃ h, kvHistInit true 11 1 1000000 3 = some h ∧
    kvHistValueAtPercentile (recordAll h [100, 200]) 50 = 101 ∧
    ∀ q r : ℚ, 0 ≤ q → q ≤ r → r ≤ 100 →
      kvHistValueAtPercentile (recordAll h [100, 200]) q ≤
        kvHistValueAtPercentile (recordAll h [100, 200]) r := by
  have hrank : max 1 ⌊(50 : ℚ) * ([100, 200] : List ℕ).length / 100 + 1 / 2⌋₊ = 1 := by
    have hfloor : ⌊(50 : ℚ) * (2 : ℕ) / 100 + 1 / 2⌋₊ = 1 := by
      rw [Nat.floor_eq_iff (by norm_num)]
      norm_num
    exact (congrArg (max 1) hfloor).trans (max_self 1)
  refine ⟨_, rfl, ?_⟩
  obtain ⟨hbracket, hmono⟩ := percentile_brackets true 11 1000000 3 _ rfl (by norm_num) [100, 200]
    (by simp) (by simp)
  refine ⟨?_, hmono⟩
  obtain ⟨x, hx, -, hle, hlt⟩ := hbracket 50 (by norm_num) (by norm_num)
  rw [hrank] at hx
  obtain rfl : x = 100 := by
    have hlt : x < 101 := (kthSmallest_lt_iff le_rfl hx 101).2 (by decide)
    obtain ⟨y, hy, hxy⟩ := exists_kthSmallest (l := [100, 200].map (clamp _)) le_rfl (by simp)
    obtain rfl : y = x := Option.some.inj (hxy.symm.trans hx)
    have hmem : y = 100 ∨ y = 200 := by simpa [clamp] using hy
    omega
  exact le_antisymm hle hlt

end KvBench.Hist
