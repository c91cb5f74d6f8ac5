import KvBench.Hist.Init

/-!
# Which values have a counter, and which share one

`kv_hist_init` counts the buckets in steps of the unit magnitude of `lowest`, while
`kv_hist_get_bucket_index` counts them from one. For `lowest = 1` the two agree and no sample is
dropped; for a larger unit the array ends before the range does, unless the range ends in the first
two buckets (`noneDropped_iff`).

`kv_hist_get_bucket_index` opens a new bucket as soon as the value reaches the half count, so the
first bucket has half the sub-buckets that `sigfigs` asks for. The digits are kept only by a range
that ends there (`keepsDigits_iff`).
-/

namespace KvBench.Hist

/-! ### Dropped samples -/

/-- Every record finds its counter and counts exactly one sample, so that after any number of
records the total and the sum of the counters are that number. -/
structure NoneDropped (h : KvHist) : Prop where
  index : ∀ v < 2 ^ 64, counterOf h.toKvLayout v < h.countsArrayLength
  record : ∀ vs : List ℕ, ∀ v < 2 ^ 64,
    (kvHistRecord (recordAll h vs) v).counts =
        Function.update (recordAll h vs).counts (counterOf h.toKvLayout v)
          (((recordAll h vs).counts (counterOf h.toKvLayout v) + 1) % 2 ^ 64) ∧
      (kvHistRecord (recordAll h vs) v).totalCount = ((recordAll h vs).totalCount + 1) % 2 ^ 64
  total : ∀ vs : List ℕ, vs.length < 2 ^ 64 →
    (recordAll h vs).totalCount = vs.length ∧
      ∑ i ∈ Finset.range h.countsArrayLength, (recordAll h vs).counts i = vs.length

section Dropped

variable {callocOk : Bool} {fuel lowest highest : ℕ} {sigfigs : ℤ} {h : KvHist} {p : ℕ}

theorem Covering.noneDropped (hl : Covering h.toKvLayout p)
    (hi : kvHistInit callocOk fuel lowest highest sigfigs = some h) : NoneDropped h where
  index v _ := indexOf_clamp_lt_length hl v
  record vs v _ := by
    have hl' : Covering (recordAll h vs).toKvLayout p := by simpa using hl
    rw [kvHistRecord_of_lt_length (indexOf_clamp_lt_length hl' v), recordAll_layout]
    exact ⟨rfl, rfl⟩
  total vs hs := by
    obtain ⟨hh, -⟩ := recordAll_holds hi hl vs hs
    have hl' : Covering (recordAll h vs).toKvLayout p := by simpa using hl
    have hsum := sum_counts_length hl' hh
    rw [recordAll_layout] at hsum
    exact ⟨by simpa using hh.total, by simpa using hsum⟩

/-- The highest value has a counter only if the buckets cover it. -/
theorem NoneDropped.covers (hg : Geometry h.toKvLayout p) (hd : NoneDropped h) :
    h.highestTrackable < 2 ^ (p + h.bucketCount) := by
  have hindex := hd.index _ hg.word
  rw [counterOf, clamp_of_mem hg.range.le le_rfl] at hindex
  exact (indexOf_lt_length_iff hg hg.word).1 hindex

/-- When the buckets cover the range, no shift of `kv_hist_get_sub_bucket_index` is by 64 or more. -/
theorem shift_lt (hword : highest < 2 ^ 64)
    (hi : kvHistInit callocOk fuel lowest highest sigfigs = some h)
    (hcond : lowest = 1 ∨ highest < 2 ^ (halfMagnitude sigfigs + 1) ∨ lowest < 4) (v : ℕ) :
    kvHistGetBucketIndex h.toKvLayout (clamp h.toKvLayout v) + h.unitMagnitude < 64 := by
  obtain ⟨hg, hunit, hlow, hhigh, -⟩ := kvHistInit_geometry hword hi
  have hrange := hg.range
  have hp2 := two_le_halfMagnitude sigfigs
  have hp := halfMagnitude_le sigfigs
  have hclamp := clamp_le hg v
  rw [hlow, hhigh] at hrange
  rw [hhigh] at hclamp
  have hlog := kvHistFloorLog2_eq (hrange.trans hword)
  rw [kvHistGetBucketIndex_eq hg (clamp_lt hg v), hunit, hlog]
  have hsize : (clamp h.toKvLayout v).size ≤ 64 := Nat.size_le.2 (clamp_lt hg v)
  unfold bucketOf
  by_cases hsmall : lowest < 4
  · have hlt : lowest.size ≤ 2 := Nat.size_le.2 hsmall
    omega
  · have hhighest : highest < 2 ^ (halfMagnitude sigfigs + 1) := by
      rcases hcond with rfl | hlt | hlt
      · omega
      · exact hlt
      · exact absurd hlt hsmall
    have h1 : (clamp h.toKvLayout v).size ≤ halfMagnitude sigfigs + 1 :=
      Nat.size_le.2 (hclamp.trans_lt hhighest)
    have h2 : lowest.size ≤ halfMagnitude sigfigs + 1 := Nat.size_le.2 (hrange.trans hhighest)
    omega

end Dropped

/-- **No sample is dropped** exactly when the buckets that `kv_hist_init` counts cover the range
also without the unit magnitude. For `lowest = 1` they always do; otherwise only when the range ends in
the first two buckets, and for `lowest` two or three when it ends close to a power of two. Then no shift is
by 64 or more, which C leaves undefined. -/
theorem noneDropped_iff (callocOk : Bool) (fuel lowest highest : ℕ) (sigfigs : ℤ) (h : KvHist)
    (hi : kvHistInit callocOk fuel lowest highest sigfigs = some h) (hh : highest < 2 ^ 64) :
    (NoneDropped h ↔ highest < h.subBucketHalfCount * 2 ^ h.bucketCount) ∧
      (NoneDropped h ↔ lowest = 1 ∨ highest < 2 ^ (halfMagnitude sigfigs + 1) ∨
        lowest < 4 ∧ (2 ^ (halfMagnitude sigfigs + 1) - 1) *
          2 ^ (highest.size - (halfMagnitude sigfigs + 1)) < highest) ∧
      (lowest = 1 → NoneDropped h) ∧
      (NoneDropped h → ∀ v,
        kvHistGetBucketIndex h.toKvLayout (clamp h.toKvLayout v) + h.unitMagnitude < 64) := by
  obtain ⟨hg, -, -, hhigh, -⟩ := kvHistInit_geometry hh hi
  have hiff : NoneDropped h ↔ highest < 2 ^ (halfMagnitude sigfigs + h.bucketCount) := by
    rw [← hhigh]
    exact ⟨fun hd => hd.covers hg, fun hc => Covering.noneDropped ⟨hg, hc⟩ hi⟩
  have hargs := hiff.trans (kvHistInit_covers_iff hh hi)
  refine ⟨by rwa [hg.half, ← pow_add], hargs, fun h1 => hargs.2 (.inl h1), fun hd v => ?_⟩
  exact shift_lt hh hi ((hargs.1 hd).imp_right fun h => h.imp_right And.left) v

/-- The range of the program's histograms in units of 1024, and a range from two to just below a power of
two. -/
theorem noneDropped_iff_1024 :
    (∃ h, kvHistInit true 64 1024 60000000000 3 = some h ∧ ¬ NoneDropped h) ∧
      ∃ h, kvHistInit true 64 2 1048575 3 = some h ∧ NoneDropped h := by
  refine ⟨⟨_, rfl, fun hd => ?_⟩, _, rfl, ?_⟩
  · have hcond := (noneDropped_iff true 64 1024 60000000000 3 _ rfl (by norm_num)).2.1.1 hd
    revert hcond
    decide +kernel
  · exact (noneDropped_iff true 64 2 1048575 3 _ rfl (by norm_num)).2.1.2 (by decide +kernel)

/-- With `lowest = 1024` the highest value of the range is dropped: its counter would have the
index 26624, and the array has 17408 counters. -/
theorem sample_dropped_1024 : ∃ h, kvHistInit true 64 1024 60000000000 3 = some h ∧
    counterOf h.toKvLayout 60000000000 = 26624 ∧ h.countsArrayLength = 17408 ∧
      (kvHistRecord h 60000000000).totalCount = 0 ∧ ¬ NoneDropped h := by
  refine ⟨_, rfl, by decide +kernel, by decide +kernel, by decide +kernel, fun hd => ?_⟩
  exact absurd (hd.index 60000000000 (by norm_num)) (by decide +kernel)

/-! ### Significant digits -/

/-- The histogram keeps `d` significant decimal digits: values up to `2 * 10 ^ d` have counters of
their own, and the values of one counter differ by at most one part in `10 ^ d`. -/
structure KeepsDigits (h : KvHist) (d : ℕ) : Prop where
  unit : ∀ v w, 1 ≤ v → v ≤ h.highestTrackable → 1 ≤ w → w ≤ h.highestTrackable → v ≠ w →
    v ≤ 2 * 10 ^ d → w ≤ 2 * 10 ^ d → counterOf h.toKvLayout v ≠ counterOf h.toKvLayout w
  digits : ∀ v w, 1 ≤ v → v < w → w ≤ h.highestTrackable →
    counterOf h.toKvLayout v = counterOf h.toKvLayout w → (w - v) * 10 ^ d ≤ v

section Digits

variable {l : KvLayout} {p v : ℕ}

theorem bucketOf_of_lt (hv : v < 2 ^ p) : bucketOf p v = 0 := by
  have : v.size ≤ p := Nat.size_le.2 hv
  unfold bucketOf
  omega

/-- The half count opens the second bucket. -/
theorem bucketOf_of_ge (h1 : 2 ^ p ≤ v) (h2 : v < 2 ^ (p + 1)) : bucketOf p v = 1 := by
  have hgt : p < v.size := Nat.lt_size.2 h1
  have hle : v.size ≤ p + 1 := Nat.size_le.2 h2
  unfold bucketOf
  omega

theorem indexOf_of_lt (hg : Geometry l p) (hu : l.unitMagnitude = 0) (hp : p ≤ 63)
    (hv : v < 2 ^ p) : indexOf l v = v := by
  have hv64 : v < 2 ^ 64 := hv.trans (Nat.pow_lt_pow_right (by norm_num) (by omega))
  rw [indexOf_split hg hv64, bucketOf_of_lt hv, hu]
  simp

/-- Above the half count two neighbours share a counter. -/
theorem indexOf_of_ge (hg : Geometry l p) (hu : l.unitMagnitude = 0) (hp : p ≤ 63)
    (h1 : 2 ^ p ≤ v) (h2 : v < 2 ^ (p + 1)) : indexOf l v = 2 ^ p + v / 2 := by
  have hv64 : v < 2 ^ 64 := h2.trans_le (Nat.pow_le_pow_right (by norm_num) (by omega))
  rw [indexOf_split hg hv64, bucketOf_of_ge h1 h2, hu]
  simp

/-- Up to the half count every value has a counter of its own. -/
theorem indexOf_inj_of_le_half (hg : Geometry l p) (hu : l.unitMagnitude = 0) (hp : p ≤ 63)
    {w : ℕ} (hv : v ≤ 2 ^ p) (hw : w ≤ 2 ^ p) (heq : indexOf l v = indexOf l w) : v = w := by
  have hpow : 2 ^ p < 2 ^ (p + 1) := Nat.pow_lt_pow_right (by norm_num) (by omega)
  have htop : indexOf l (2 ^ p) = 2 ^ p + 2 ^ p / 2 := indexOf_of_ge hg hu hp le_rfl hpow
  rcases hv.lt_or_eq with hv | rfl <;> rcases hw.lt_or_eq with hw | rfl
  · rwa [indexOf_of_lt hg hu hp hv, indexOf_of_lt hg hu hp hw] at heq
  · rw [indexOf_of_lt hg hu hp hv, htop] at heq
    omega
  · rw [indexOf_of_lt hg hu hp hw, htop] at heq
    omega
  · rfl

end Digits

theorem halfMagnitude_digits {d : ℕ} (h1 : 1 ≤ d) (h5 : d ≤ 5) :
    1 ≤ halfMagnitude d ∧ 2 ^ halfMagnitude d + 1 ≤ 2 * 10 ^ d := by
  interval_cases d <;> decide

/-- **Significant digits** are kept exactly when the range ends at the half count. -/
theorem keepsDigits_iff (callocOk : Bool) (fuel highest d : ℕ) (h1 : 1 ≤ d) (h5 : d ≤ 5)
    (h : KvHist) (hi : kvHistInit callocOk fuel 1 highest d = some h) (hh : highest < 2 ^ 64) :
    KeepsDigits h d ↔ highest ≤ h.subBucketHalfCount := by
  obtain ⟨hg, hunit, hlow, hhigh, -⟩ := kvHistInit_geometry hh hi
  have hu : h.unitMagnitude = 0 := hunit.trans (by decide)
  obtain ⟨hp1, hp2⟩ := halfMagnitude_digits h1 h5
  have hp : halfMagnitude d ≤ 63 := (halfMagnitude_le d).trans (by norm_num)
  have hcounter : ∀ v, 1 ≤ v → v ≤ h.highestTrackable →
      counterOf h.toKvLayout v = indexOf h.toKvLayout v := fun v hv hvh => by
    rw [counterOf, clamp_of_mem (by rwa [hlow]) hvh]
  rw [hg.half]
  set p := halfMagnitude d
  have hpos : 1 ≤ 2 ^ p := Nat.one_le_two_pow
  constructor
  · -- the half count and its successor share a counter
    intro hk
    by_contra hlt
    have hsucc : 2 ^ p + 1 < 2 ^ (p + 1) := by
      have : 2 ^ 1 ≤ 2 ^ p := Nat.pow_le_pow_right (by norm_num) hp1
      rw [pow_succ]
      omega
    refine hk.unit (2 ^ p) (2 ^ p + 1) hpos (by omega) (by omega) (by omega) (by omega) (by omega)
      hp2 ?_
    rw [hcounter _ hpos (by omega), hcounter _ (by omega) (by omega),
      indexOf_of_ge hg hu hp le_rfl (by omega), indexOf_of_ge hg hu hp (by omega) hsucc]
    obtain ⟨q, hq⟩ : ∃ q, p = q + 1 := ⟨p - 1, by omega⟩
    rw [hq, pow_succ]
    omega
  · intro hle
    have hinj : ∀ v w, 1 ≤ v → v ≤ h.highestTrackable → 1 ≤ w → w ≤ h.highestTrackable →
        counterOf h.toKvLayout v = counterOf h.toKvLayout w → v = w := by
      intro v w hv hvh hw hwh heq
      rw [hcounter v hv hvh, hcounter w hw hwh] at heq
      exact indexOf_inj_of_le_half hg hu hp (by omega) (by omega) heq
    refine ⟨fun v w hv hvh hw hwh hne _ _ heq => hne (hinj v w hv hvh hw hwh heq),
      fun v w hv hvw hwh heq => ?_⟩
    have := hinj v w hv (by omega) (by omega) hwh heq
    omega

/-- Three digits are kept up to 1000, and not up to 1025. -/
theorem keepsDigits_iff_1000 :
    (∃ h, kvHistInit true 64 1 1000 3 = some h ∧ KeepsDigits h 3) ∧
      ∃ h, kvHistInit true 64 1 1025 3 = some h ∧ ¬ KeepsDigits h 3 := by
  refine ⟨⟨_, rfl, ?_⟩, _, rfl, fun hk => ?_⟩
  · exact (keepsDigits_iff true 64 1000 3 (by decide) (by decide) _ rfl (by norm_num)).2
      (by decide +kernel)
  · have hle := (keepsDigits_iff true 64 1025 3 (by decide) (by decide) _ rfl (by norm_num)).1 hk
    revert hle
    decide +kernel

/-- In the histogram of the program 1024 and 1025 share a counter although three digits tell them
apart, and so do 2048 and 2051, which differ by more than one part in a thousand. -/
theorem digits_lost_1024 : ∃ h, kvHistInit true 64 1 60000000000 3 = some h ∧
    counterOf h.toKvLayout 1024 = counterOf h.toKvLayout 1025 ∧ 1025 ≤ 2 * 10 ^ 3 ∧
      counterOf h.toKvLayout 2048 = counterOf h.toKvLayout 2051 ∧ 2048 < (2051 - 2048) * 10 ^ 3 ∧
      ¬ KeepsDigits h 3 := by
  refine ⟨_, rfl, by decide +kernel, by norm_num, by decide +kernel, by norm_num, fun hk => ?_⟩
  exact hk.unit 1024 1025 (by norm_num) (by decide +kernel) (by norm_num) (by decide +kernel)
    (by norm_num) (by norm_num) (by norm_num) (by decide +kernel)

end KvBench.Hist
