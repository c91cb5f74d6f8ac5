import KvBench.Hist.Percentile

/-!
# When `kv_hist_init` returns

The bucket loop doubles a 64-bit word. After `k` rounds the word is the remainder modulo `2 ^ 64`
of `a * 2 ^ k`, where `a` is the range of the first bucket. The remainders of
`(2 ^ m - 1) * 2 ^ e` grow as long as nothing is shifted out, are `2 ^ 64 - 2 ^ e` from `e = 64 - m`
on, and end at zero. So a `highest` above the largest of them is never reached
(`kvHistInit_returns_iff`).

A range that starts at one and ends below `2 ^ 63` is always reached, and there the index of a
value determines its bucket and its sub-bucket (`index_roundTrip`).
-/

namespace KvBench.Hist

/-! ### The bucket loop -/

section Loop

variable {highest : ℕ}

theorem shiftLeft_one_mod (a : ℕ) : ((a % 2 ^ 64) <<< 1) % 2 ^ 64 = a * 2 % 2 ^ 64 := by
  rw [Nat.shiftLeft_eq, pow_one, Nat.mod_mul_mod]

/-- What is known when the loop has been left: the word it was left with. -/
theorem bucketLoop_some : ∀ {fuel a b n : ℕ}, bucketLoop highest fuel (a % 2 ^ 64) b = some n →
    ∃ k, n = b + k ∧ highest ≤ a * 2 ^ k % 2 ^ 64 := by
  intro fuel
  induction fuel with
  | zero => intro a b n h; simp [bucketLoop] at h
  | succ fuel ih =>
    intro a b n h
    unfold bucketLoop at h
    split at h
    · rw [shiftLeft_one_mod] at h
      obtain ⟨k, rfl, hk⟩ := ih h
      exact ⟨k + 1, by omega, by rwa [pow_succ', ← mul_assoc]⟩
    · rename_i hge
      exact ⟨0, by simpa using h.symm, by simpa using hge⟩

/-- The loop is left after `k` rounds at the latest if `highest` is reached there. -/
theorem bucketLoop_of_reached : ∀ {k fuel a : ℕ} (b : ℕ), highest ≤ a * 2 ^ k % 2 ^ 64 →
    k < fuel → ∃ n, bucketLoop highest fuel (a % 2 ^ 64) b = some n := by
  intro k
  induction k with
  | zero =>
    intro fuel a b hk hfuel
    obtain ⟨fuel, rfl⟩ := Nat.exists_eq_succ_of_ne_zero hfuel.ne'
    rw [pow_zero, mul_one] at hk
    exact ⟨b, if_neg (not_lt.2 hk)⟩
  | succ k ih =>
    intro fuel a b hk hfuel
    obtain ⟨fuel, rfl⟩ := Nat.exists_eq_succ_of_ne_zero (Nat.ne_of_gt (Nat.zero_lt_of_lt hfuel))
    unfold bucketLoop
    split
    · rw [shiftLeft_one_mod]
      exact ih (b + 1) (by rwa [mul_assoc, ← pow_succ']) (by omega)
    · exact ⟨b, rfl⟩

/-- The loop is left as soon as `highest` is reached. -/
theorem bucketLoop_le_of_reached : ∀ {fuel a b n k : ℕ},
    bucketLoop highest fuel (a % 2 ^ 64) b = some n → highest ≤ a * 2 ^ k % 2 ^ 64 → n ≤ b + k := by
  intro fuel
  induction fuel with
  | zero => intro a b n k h; simp [bucketLoop] at h
  | succ fuel ih =>
    intro a b n k h hk
    unfold bucketLoop at h
    split at h
    · rename_i hlt
      cases k with
      | zero => simp at hk; omega
      | succ k =>
        rw [shiftLeft_one_mod] at h
        rw [pow_succ', ← mul_assoc] at hk
        have hle := ih h hk
        omega
    · have heq : b = n := Option.some.inj h
      omega

/-- More fuel does not change a result. -/
theorem bucketLoop_mono : ∀ {fuel fuel' t b n : ℕ}, bucketLoop highest fuel t b = some n →
    fuel ≤ fuel' → bucketLoop highest fuel' t b = some n := by
  intro fuel
  induction fuel with
  | zero => intro fuel' t b n h; simp [bucketLoop] at h
  | succ fuel ih =>
    intro fuel' t b n h hle
    obtain ⟨fuel', rfl⟩ := Nat.exists_eq_succ_of_ne_zero (Nat.ne_of_gt (Nat.zero_lt_of_lt hle))
    unfold bucketLoop at h ⊢
    split
    · rename_i hlt
      rw [if_pos hlt] at h
      exact ih h (by omega)
    · rename_i hge
      rwa [if_neg hge] at h

end Loop

/-! ### The largest word of the loop -/

section Words

variable {m e : ℕ}

theorem ones_mul (m e : ℕ) : (2 ^ m - 1) * 2 ^ e = 2 ^ (m + e) - 2 ^ e := by
  rw [Nat.sub_mul, one_mul, pow_add]

theorem ones_mul_lt {w : ℕ} (h : m + e ≤ w) : (2 ^ m - 1) * 2 ^ e < 2 ^ w := by
  rw [ones_mul]
  exact (Nat.sub_lt (by positivity) (by positivity)).trans_le (Nat.pow_le_pow_right (by norm_num) h)

/-- Once the upper digits are shifted out, the lower end of the ones counts down from `2 ^ 64`. -/
theorem ones_mul_mod (hm : 64 ≤ m + e) (he : e ≤ 63) :
    (2 ^ m - 1) * 2 ^ e % 2 ^ 64 = 2 ^ 64 - 2 ^ e := by
  have hpow : (2 : ℕ) ^ (m + e) = 2 ^ 64 * 2 ^ (m + e - 64) := by
    rw [← pow_add]
    congr 1
    omega
  have hlt : (2 : ℕ) ^ e < 2 ^ 64 := Nat.pow_lt_pow_right (by norm_num) (by omega)
  have hpos : 0 < 2 ^ (m + e - 64) := by positivity
  have hsplit : (2 ^ m - 1) * 2 ^ e = 2 ^ 64 - 2 ^ e + 2 ^ 64 * (2 ^ (m + e - 64) - 1) := by
    rw [ones_mul, hpow]
    omega
  rw [hsplit, Nat.add_mul_mod_self_left]
  exact Nat.mod_eq_of_lt (Nat.sub_lt (by norm_num) (by positivity))

/-- No word of the loop exceeds the one at which its upper digits begin to be shifted out. -/
theorem ones_mul_mod_le (m : ℕ) {u : ℕ} (hu : u ≤ e) :
    (2 ^ m - 1) * 2 ^ e % 2 ^ 64 ≤ 2 ^ 64 - 2 ^ max u (64 - m) := by
  by_cases hm : m + e < 64
  · -- nothing is shifted out
    have hpow : (2 : ℕ) ^ max u (64 - m) ≤ 2 ^ (64 - m) :=
      Nat.pow_le_pow_right (by norm_num) (by omega)
    have hword : (2 ^ m - 1) * 2 ^ (64 - m) = 2 ^ 64 - 2 ^ (64 - m) := by
      rw [ones_mul, Nat.add_sub_cancel' (by omega)]
    have hmono : (2 ^ m - 1) * 2 ^ e ≤ (2 ^ m - 1) * 2 ^ (64 - m) :=
      Nat.mul_le_mul_left _ (Nat.pow_le_pow_right (by norm_num) (by omega))
    exact (Nat.mod_le _ _).trans (by omega)
  · by_cases he : e ≤ 63
    · rw [ones_mul_mod (by omega) he]
      exact Nat.sub_le_sub_left (Nat.pow_le_pow_right (by norm_num) (by omega)) _
    · -- everything is shifted out
      have hdvd : 2 ^ 64 ∣ (2 ^ m - 1) * 2 ^ e :=
        Dvd.dvd.mul_left (pow_dvd_pow 2 (by omega)) _
      rw [Nat.mod_eq_zero_of_dvd hdvd]
      exact Nat.zero_le _

end Words

/-! ### Termination -/

section Init

variable {fuel lowest highest : ℕ} {sigfigs : ℤ}

/-- The initialisation returns a histogram exactly when its loop is left. -/
theorem kvHistInit_some_iff (hl : 1 ≤ lowest) (hh : lowest < highest) {n : ℕ} :
    (∃ h, kvHistInit true fuel lowest highest sigfigs = some h ∧
        h.subBucketCount = 2 ^ kvHistCeilLog2 (largestSingleUnit sigfigs) ∧
        h.unitMagnitude = kvHistFloorLog2 lowest ∧ h.bucketCount = n) ↔
      bucketLoop highest fuel
        ((2 ^ kvHistCeilLog2 (largestSingleUnit sigfigs) - 1) * 2 ^ kvHistFloorLog2 lowest
          % 2 ^ 64) 1 = some n := by
  unfold kvHistInit
  rw [if_neg (by omega)]
  simp only [Nat.shiftLeft_eq, one_mul, if_true]
  constructor
  · rintro ⟨h, hsome, -, -, rfl⟩
    obtain ⟨n, hn, hfresh⟩ := Option.bind_eq_some_iff.1 hsome
    obtain rfl := Option.some.inj hfresh
    exact hn
  · intro hn
    rw [hn]
    exact ⟨_, rfl, rfl, rfl, rfl⟩

theorem kvHistFloorLog2_le (hl : lowest < 2 ^ 64) : kvHistFloorLog2 lowest ≤ 63 := by
  have hsize : lowest.size ≤ 64 := Nat.size_le.2 hl
  rw [kvHistFloorLog2_eq hl]
  omega

theorem kvHistInit_isSome_of_le (hl : 1 ≤ lowest) (hh : lowest < highest)
    (hword : highest < 2 ^ 64) (hfuel : 64 ≤ fuel)
    (hle : highest ≤ 2 ^ 64 - 2 ^ max (kvHistFloorLog2 lowest)
      (64 - kvHistCeilLog2 (largestSingleUnit sigfigs))) :
    ∃ h, kvHistInit true fuel lowest highest sigfigs = some h := by
  have hunit := kvHistFloorLog2_le (hh.trans hword)
  have hmag := kvHistCeilLog2_largestSingleUnit sigfigs
  set u := kvHistFloorLog2 lowest
  set m := kvHistCeilLog2 (largestSingleUnit sigfigs)
  -- the round in which the upper digits begin to be shifted out
  obtain ⟨k, hk⟩ : ∃ k, max u (64 - m) = u + k := ⟨max u (64 - m) - u, by omega⟩
  have hreach : highest ≤ (2 ^ m - 1) * 2 ^ u * 2 ^ k % 2 ^ 64 := by
    rw [mul_assoc, ← pow_add, ← hk, ones_mul_mod (by omega) (by omega)]
    exact hle
  obtain ⟨n, hn⟩ := bucketLoop_of_reached 1 hreach (show k < fuel by omega)
  obtain ⟨h, hsome, -⟩ := (kvHistInit_some_iff hl hh).2 hn
  exact ⟨h, hsome⟩

theorem kvHistInit_mono {fuel' : ℕ} {h : KvHist}
    (hi : kvHistInit true fuel lowest highest sigfigs = some h) (hle : fuel ≤ fuel') :
    kvHistInit true fuel' lowest highest sigfigs = some h := by
  unfold kvHistInit at hi ⊢
  split
  · rename_i hbad
    rw [if_pos hbad] at hi
    exact hi
  · rename_i hgood
    rw [if_neg hgood] at hi
    obtain ⟨n, hn, hfresh⟩ := Option.bind_eq_some_iff.1 hi
    exact Option.bind_eq_some_iff.2 ⟨n, bucketLoop_mono hn hle, hfresh⟩

/-- **The number of buckets**: the first round in which the word has reached `highest`. -/
theorem kvHistInit_rounds {callocOk : Bool} {h : KvHist} (hword : highest < 2 ^ 64)
    (hi : kvHistInit callocOk fuel lowest highest sigfigs = some h) :
    ∃ k, h.bucketCount = 1 + k ∧
      highest ≤ (2 ^ (halfMagnitude sigfigs + 1) - 1) * 2 ^ (kvHistFloorLog2 lowest + k) % 2 ^ 64 ∧
      ∀ j, highest ≤ (2 ^ (halfMagnitude sigfigs + 1) - 1) * 2 ^ (kvHistFloorLog2 lowest + j) % 2 ^ 64 →
        k ≤ j := by
  obtain ⟨-, -, -, -, hloop⟩ := kvHistInit_geometry hword hi
  obtain ⟨k, hcount, hreached⟩ := bucketLoop_some hloop
  rw [mul_assoc, ← pow_add] at hreached
  refine ⟨k, hcount, hreached, fun j hj => ?_⟩
  rw [pow_add 2 (kvHistFloorLog2 lowest), ← mul_assoc] at hj
  have hle := bucketLoop_le_of_reached hloop hj
  omega

/-- No round goes beyond the one in which the upper digits begin to be shifted out. -/
theorem kvHistInit_rounds_le {callocOk : Bool} {h : KvHist} (hword : highest < 2 ^ 64)
    (hi : kvHistInit callocOk fuel lowest highest sigfigs = some h) :
    kvHistFloorLog2 lowest + h.bucketCount ≤
      max (kvHistFloorLog2 lowest) (63 - halfMagnitude sigfigs) + 1 := by
  obtain ⟨hg, -, hlow, hhigh, -⟩ := kvHistInit_geometry hword hi
  obtain ⟨k, hcount, hreached, hfirst⟩ := kvHistInit_rounds hword hi
  have hrange := hg.range
  rw [hlow, hhigh] at hrange
  have hunit := kvHistFloorLog2_le (hrange.trans hword)
  set u := kvHistFloorLog2 lowest
  set p := halfMagnitude sigfigs
  have hmax : max u (64 - (p + 1)) = max u (63 - p) := by omega
  have hle := hreached.trans (ones_mul_mod_le (p + 1) (Nat.le_add_right u k))
  have hword' := ones_mul_mod (m := p + 1) (e := max u (63 - p)) (by omega) (by omega)
  rw [hmax, ← hword'] at hle
  have hk := hfirst (max u (63 - p) - u) (by rwa [Nat.add_sub_cancel' (le_max_left _ _)])
  omega

/-- **The buckets cover the range**, in terms of the arguments: for `lowest = 1`; for a range that ends in
the first two buckets; and for `lowest` two or three, when the range ends so close to a power of two that
the loop makes one more round. -/
theorem kvHistInit_covers_iff {callocOk : Bool} {h : KvHist} (hword : highest < 2 ^ 64)
    (hi : kvHistInit callocOk fuel lowest highest sigfigs = some h) :
    highest < 2 ^ (halfMagnitude sigfigs + h.bucketCount) ↔
      lowest = 1 ∨ highest < 2 ^ (halfMagnitude sigfigs + 1) ∨
        lowest < 4 ∧ (2 ^ (halfMagnitude sigfigs + 1) - 1) *
          2 ^ (highest.size - (halfMagnitude sigfigs + 1)) < highest := by
  obtain ⟨hg, -, hlow, hhigh, -⟩ := kvHistInit_geometry hword hi
  obtain ⟨k, hcount, hreached, hfirst⟩ := kvHistInit_rounds hword hi
  have hrange := hg.range
  have hlow1 := hg.lowest
  rw [hlow, hhigh] at hrange
  rw [hlow] at hlow1
  have hlog := kvHistFloorLog2_eq (hrange.trans hword)
  set p := halfMagnitude sigfigs
  constructor
  · intro hcover
    rw [or_iff_not_imp_left, or_iff_not_imp_left]
    intro hone hhalf
    have hsize : highest.size ≤ p + h.bucketCount := Nat.size_le.2 hcover
    have hsize' : p + 1 < highest.size := Nat.lt_size.2 (not_lt.1 hhalf)
    have hunit : 1 < lowest.size := Nat.lt_size.2 (by omega)
    have hrounds := kvHistInit_rounds_le hword hi
    -- the round before the range is covered has not reached `highest`
    obtain ⟨j, hj⟩ : ∃ j, highest.size = p + 2 + j := ⟨highest.size - (p + 2), by omega⟩
    have hbefore : (2 ^ (p + 1) - 1) * 2 ^ (kvHistFloorLog2 lowest + j) % 2 ^ 64 < highest := by
      by_contra hle
      have hk := hfirst j (not_lt.1 hle)
      omega
    rw [Nat.mod_eq_of_lt (ones_mul_lt (by omega))] at hbefore
    have hlog1 : kvHistFloorLog2 lowest = 1 := by
      by_contra hne
      have hlarge : 2 ^ highest.size ≤ (2 ^ (p + 1) - 1) * 2 ^ (kvHistFloorLog2 lowest + j) := by
        calc 2 ^ highest.size = 2 ^ p * 2 ^ (j + 2) := by rw [hj, ← pow_add]; congr 1; omega
          _ ≤ (2 ^ (p + 1) - 1) * 2 ^ (kvHistFloorLog2 lowest + j) := by
            refine Nat.mul_le_mul ?_ (Nat.pow_le_pow_right (by norm_num) (by omega))
            have hpos : 0 < 2 ^ p := by positivity
            rw [pow_succ]
            omega
      exact absurd (hlarge.trans_lt hbefore) (not_lt.2 (Nat.lt_size_self highest).le)
    refine ⟨Nat.size_le (n := 2).1 (by omega), ?_⟩
    rwa [hlog1, show 1 + j = highest.size - (p + 1) by omega] at hbefore
  · rintro (rfl | hlt | ⟨hlt, hclose⟩)
    · have hcov := (kvHistInit_covering hword hi).covers
      rwa [hhigh] at hcov
    · exact hlt.trans_le (Nat.pow_le_pow_right (by norm_num) (by omega))
    · have hsize : lowest.size ≤ 2 := Nat.size_le.2 hlt
      have hmul := (hclose.trans_le hreached).trans_le (Nat.mod_le _ _)
      have hexp := (Nat.pow_lt_pow_iff_right (by norm_num)).1 (Nat.lt_of_mul_lt_mul_left hmul)
      refine (Nat.lt_size_self highest).trans_le (Nat.pow_le_pow_right (by norm_num) ?_)
      omega

/-- What is known on exit: the word has reached `highest`. -/
theorem kvHistInit_exit {h : KvHist} (hword : highest < 2 ^ 64)
    (hi : kvHistInit true fuel lowest highest sigfigs = some h) :
    ∃ k, h.subBucketCount = 2 ^ kvHistCeilLog2 (largestSingleUnit sigfigs) ∧
      h.unitMagnitude + h.bucketCount - 1 = kvHistFloorLog2 lowest + k ∧
      highest ≤ (2 ^ kvHistCeilLog2 (largestSingleUnit sigfigs) - 1) *
        2 ^ (kvHistFloorLog2 lowest + k) % 2 ^ 64 := by
  obtain ⟨hg, hunit, hlow, hhigh, hloop⟩ := kvHistInit_geometry hword hi
  have hl : 1 ≤ lowest := hlow ▸ hg.lowest
  have hh : lowest < highest := by
    have := hg.range
    rwa [hlow, hhigh] at this
  rw [← kvHistCeilLog2_largestSingleUnit] at hloop
  obtain ⟨h', hi', hcount, -, hbuckets⟩ := (kvHistInit_some_iff hl hh).2 hloop
  obtain rfl : h = h' := Option.some.inj (hi.symm.trans hi')
  obtain ⟨k, hk, hreached⟩ := bucketLoop_some hloop
  refine ⟨k, hcount, by omega, ?_⟩
  rwa [mul_assoc, ← pow_add] at hreached

/-- **The initialisation returns**, with buckets that cover the range without wrapping around,
exactly when `highest` is at most the largest word the bucket loop goes through. Above it the loop
never ends. -/
theorem kvHistInit_returns_iff (lowest highest : ℕ) (sigfigs : ℤ) (hl : 1 ≤ lowest)
    (hh : lowest < highest) (hword : highest < 2 ^ 64) :
    (∃ fuel h, kvHistInit true fuel lowest highest sigfigs = some h ∧
        highest ≤ (h.subBucketCount - 1) * 2 ^ (h.unitMagnitude + h.bucketCount - 1)) ↔
      highest ≤ 2 ^ 64 - 2 ^ max (kvHistFloorLog2 lowest)
        (64 - kvHistCeilLog2 (largestSingleUnit sigfigs)) := by
  constructor
  · rintro ⟨fuel, h, hi, -⟩
    obtain ⟨k, -, -, hk⟩ := kvHistInit_exit hword hi
    exact hk.trans (ones_mul_mod_le _ (Nat.le_add_right _ k))
  · intro hle
    obtain ⟨h, hi⟩ := kvHistInit_isSome_of_le hl hh hword le_rfl hle
    obtain ⟨k, hcount, hexp, hk⟩ := kvHistInit_exit hword hi
    refine ⟨64, h, hi, ?_⟩
    -- the product that the word is the remainder of is no smaller
    rw [hcount, hexp]
    exact hk.trans (Nat.mod_le _ _)

/-- The range of the program's histograms. -/
theorem kvHistInit_returns_minute : ∃ fuel h, kvHistInit true fuel 1 60000000000 3 = some h ∧
    60000000000 ≤ (h.subBucketCount - 1) * 2 ^ (h.unitMagnitude + h.bucketCount - 1) :=
  (kvHistInit_returns_iff 1 60000000000 3 le_rfl (by norm_num) (by norm_num)).2 (by decide)

/-- A range up to the largest word: the doubled word is shifted out before it gets there, and the
loop goes on with zero for ever. -/
theorem kvHistInit_runs_forever :
    1 < 2 ^ 64 - 1 ∧ ∀ fuel, kvHistInit true fuel 1 (2 ^ 64 - 1) 3 = none := by
  refine ⟨by norm_num, fun fuel => ?_⟩
  rw [Option.eq_none_iff_forall_ne_some]
  intro h hi
  obtain ⟨k, -, -, hk⟩ := kvHistInit_exit (by norm_num) hi
  have hle := hk.trans (ones_mul_mod_le _ (Nat.le_add_right _ k))
  revert hle
  decide

end Init

/-! ### The round trip -/

/-- The upper edge of a counter is the least multiple of its width above the values in it. -/
theorem upperEdge_isLeast (p v : ℕ) :
    IsLeast {u | 2 ^ bucketOf p v ∣ u ∧ v < u} (upperEdge p v) := by
  refine ⟨⟨Dvd.intro_left _ rfl, (upperEdge_spec p v).2⟩, ?_⟩
  rintro _ ⟨⟨c, rfl⟩, hlt⟩
  have hc : v / 2 ^ bucketOf p v < c := by
    rw [Nat.div_lt_iff_lt_mul (by positivity), mul_comm]
    exact hlt
  rw [upperEdge, mul_comm]
  exact Nat.mul_le_mul_left _ hc

/-- **The index of a value determines its bucket and sub-bucket.** For `lowest = 1` the shift and
the mask of the read-out give back what `kv_hist_record` computed, the value taken for a counter is
the least multiple of its width above the recorded one, and the counters hold ordered ranges. -/
theorem index_roundTrip (highest : ℕ) (sigfigs : ℤ) (hone : 1 < highest)
    (hbound : highest < 2 ^ 63) :
    ∃ h : KvHist, (∀ fuel, 64 ≤ fuel → kvHistInit true fuel 1 highest sigfigs = some h) ∧
      (∀ v, 1 ≤ v → v ≤ highest →
        let l := h.toKvLayout
        let bucket := kvHistGetBucketIndex l v
        let sub := kvHistGetSubBucketIndex l v bucket
        counterOf l v = indexOf l v ∧ indexOf l v < l.countsArrayLength ∧
        indexOf l v >>> l.subBucketHalfCountMagnitude = bucket ∧
        indexOf l v &&& (l.subBucketHalfCount - 1) = sub ∧
        valueAtIndex l (indexOf l v) = kvHistValueFromIndex l bucket sub ∧
        IsLeast {u | 2 ^ bucket ∣ u ∧ v < u} (kvHistValueFromIndex l bucket sub)) ∧
      (∀ v w, 1 ≤ v → v ≤ w → w ≤ highest →
        indexOf h.toKvLayout v ≤ indexOf h.toKvLayout w) ∧
      (∀ v w, 1 ≤ v → v ≤ highest → 1 ≤ w → w ≤ highest →
        indexOf h.toKvLayout v < indexOf h.toKvLayout w → v < w) := by
  have hword : highest < 2 ^ 64 := by omega
  have hhalf := kvHistCeilLog2_largestSingleUnit sigfigs
  have hpow : (2 : ℕ) ^ max (kvHistFloorLog2 1)
      (64 - kvHistCeilLog2 (largestSingleUnit sigfigs)) ≤ 2 ^ 63 := by
    have hunit : kvHistFloorLog2 1 = 0 := by decide
    exact Nat.pow_le_pow_right (by norm_num) (by omega)
  have hreach : highest ≤ 2 ^ 64 - 2 ^ max (kvHistFloorLog2 1)
      (64 - kvHistCeilLog2 (largestSingleUnit sigfigs)) := by
    omega
  obtain ⟨h, hi⟩ := kvHistInit_isSome_of_le le_rfl hone hword le_rfl hreach
  obtain ⟨hl, hhigh⟩ := kvHistInit_layout hword hi
  have hg := hl.covering.toGeometry
  have hp2 := two_le_halfMagnitude sigfigs
  have htop := (two_pow_le_wrapPoint hp2).1
  have hmono : ∀ v w, 1 ≤ v → v ≤ w → w ≤ highest →
      indexOf h.toKvLayout v ≤ indexOf h.toKvLayout w :=
    fun v w _ hvw hw => indexOf_mono hg hvw (hw.trans_lt hword)
  refine ⟨h, fun fuel hfuel => kvHistInit_mono hi hfuel, ?_, hmono, ?_⟩
  · intro v hv1 hv
    have hv64 : v < 2 ^ 64 := hv.trans_lt hword
    obtain ⟨hshift, hmask⟩ := indexOf_decode hl hv64
    have hbucket := kvHistGetBucketIndex_eq hg hv64
    have hsub : kvHistGetSubBucketIndex h.toKvLayout v (bucketOf (halfMagnitude sigfigs) v) =
        v / 2 ^ bucketOf (halfMagnitude sigfigs) v := by
      rw [kvHistGetSubBucketIndex, hl.unit, Nat.add_zero, Nat.shiftRight_eq_div_pow]
    have hvalue : valueAtIndex h.toKvLayout (indexOf h.toKvLayout v) =
        kvHistValueFromIndex h.toKvLayout (bucketOf (halfMagnitude sigfigs) v)
          (v / 2 ^ bucketOf (halfMagnitude sigfigs) v) := by
      rw [valueAtIndex, hshift, hmask]
    have hedge := valueAtIndex_indexOf hl hv64
    rw [edgeWord_of_lt hp2 ((halfMagnitude_le sigfigs).trans (by norm_num)) (by omega)] at hedge
    dsimp only
    rw [hbucket, hsub]
    refine ⟨?_, indexOf_lt_length hl.covering (hv.trans_eq hhigh.symm), hshift, hmask, hvalue, ?_⟩
    · rw [counterOf, clamp_of_mem (hl.lowest.trans_le hv1) (hv.trans_eq hhigh.symm)]
    · rw [← hvalue, hedge]
      exact upperEdge_isLeast _ v
  · intro v w _ hv hw1 _ hlt
    by_contra hwv
    exact absurd hlt (not_lt.2 (hmono w v hw1 (not_lt.1 hwv) hv))

/-- The range of the program's histograms: 1500 has a counter, read out as 1502, and the counters around
one millisecond are in order. -/
theorem index_roundTrip_minute : ∃ h, kvHistInit true 64 1 60000000000 3 = some h ∧
    (indexOf h.toKvLayout 1500 < h.countsArrayLength ∧
      valueAtIndex h.toKvLayout (indexOf h.toKvLayout 1500) = 1502) ∧
    indexOf h.toKvLayout 1000000 ≤ indexOf h.toKvLayout 1000001 := by
  obtain ⟨h, hi, hvalue, hmono, -⟩ := index_roundTrip 60000000000 3 (by norm_num) (by norm_num)
  have hfresh := hi 64 le_rfl
  refine ⟨h, hfresh, ?_, hmono 1000000 1000001 (by norm_num) (by norm_num) (by norm_num)⟩
  obtain ⟨-, hlt, -, -, hread, -⟩ := hvalue 1500 (by norm_num) (by norm_num)
  obtain rfl := Option.some.inj hfresh
  exact ⟨hlt, hread.trans (by decide +kernel)⟩

end KvBench.Hist
