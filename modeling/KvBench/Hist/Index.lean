import KvBench.Hist.Defs

/-!
# Encoding a value as a counter index

For `lowest = 1` the bucket of `v` is the number of binary digits `v` has beyond the first
`halfMagnitude`, and the sub-bucket consists of the leading digits. So the sub-bucket stays below
the half count, which is why the shift and the mask of the read-out decode what the sum of the
recorder encodes, and why the index is monotone in the value.
-/

namespace KvBench.Hist

/-- What `kv_hist_init` establishes for every range; `p` is the half count magnitude. -/
structure Geometry (l : KvLayout) (p : ℕ) : Prop where
  halfMag : l.subBucketHalfCountMagnitude = p
  half : l.subBucketHalfCount = 2 ^ p
  mask : l.subBucketMask = 2 ^ (p + 1) - 1
  length : l.countsArrayLength = (l.bucketCount + 1) * 2 ^ p
  lowest : 1 ≤ l.lowestTrackable
  range : l.lowestTrackable < l.highestTrackable
  word : l.highestTrackable < 2 ^ 64

/-- A layout whose last bucket covers the highest value. -/
structure Covering (l : KvLayout) (p : ℕ) : Prop extends Geometry l p where
  covers : l.highestTrackable < 2 ^ (p + l.bucketCount)

/-- What `kv_hist_init` establishes for `lowest = 1`; `p` is the half count magnitude. -/
structure Layout1 (l : KvLayout) (p : ℕ) : Prop where
  unit : l.unitMagnitude = 0
  halfMag : l.subBucketHalfCountMagnitude = p
  half : l.subBucketHalfCount = 2 ^ p
  mask : l.subBucketMask = 2 ^ (p + 1) - 1
  length : l.countsArrayLength = (l.bucketCount + 1) * 2 ^ p
  lowest : l.lowestTrackable = 1
  /-- The last bucket covers the highest value. -/
  covers : l.highestTrackable < 2 ^ (p + l.bucketCount)
  highest : 1 < l.highestTrackable
  word : l.highestTrackable < 2 ^ 64

theorem Layout1.covering {l : KvLayout} {p : ℕ} (hl : Layout1 l p) : Covering l p where
  halfMag := hl.halfMag
  half := hl.half
  mask := hl.mask
  length := hl.length
  lowest := hl.lowest.ge
  range := by have := hl.highest; rw [hl.lowest]; exact this
  word := hl.word
  covers := hl.covers

/-! ### The layout of a fresh histogram -/

theorem kvHistFloorLog2_eq {v : ℕ} (hv : v < 2 ^ 64) : kvHistFloorLog2 v = v.size - 1 := by
  have hs : v.size ≤ 64 := Nat.size_le.2 hv
  unfold kvHistFloorLog2 kvHistLeadingZeros64
  omega

/-- The half count magnitude for the given number of significant figures. -/
def halfMagnitude (sigfigs : ℤ) : ℕ := kvHistCeilLog2 (largestSingleUnit sigfigs) - 1

theorem kvHistCeilLog2_largestSingleUnit (sigfigs : ℤ) :
    kvHistCeilLog2 (largestSingleUnit sigfigs) = halfMagnitude sigfigs + 1 := by
  unfold halfMagnitude largestSingleUnit
  split_ifs <;> decide

theorem two_le_halfMagnitude (sigfigs : ℤ) : 2 ≤ halfMagnitude sigfigs := by
  unfold halfMagnitude largestSingleUnit
  split_ifs <;> decide

theorem halfMagnitude_le (sigfigs : ℤ) : halfMagnitude sigfigs ≤ 17 := by
  unfold halfMagnitude largestSingleUnit
  split_ifs <;> decide

theorem bucketLoop_le {highest fuel trackable b n : ℕ}
    (h : bucketLoop highest fuel trackable b = some n) : b ≤ n := by
  induction fuel generalizing trackable b with
  | zero => simp [bucketLoop] at h
  | succ fuel ih =>
    unfold bucketLoop at h
    split at h
    · exact (Nat.le_succ b).trans (ih h)
    · exact (Option.some.inj h).le

/-- The bucket loop stops once the last bucket covers `highest`: as long as nothing is shifted out
the bound is doubled in every round, and a round that shifts something out has already gone beyond
64 digits. -/
theorem bucketLoop_covers {highest : ℕ} (hh : highest < 2 ^ 64) (p : ℕ) :
    ∀ (fuel b n : ℕ), 1 ≤ b → (2 ^ (p + 1) - 1) * 2 ^ (b - 1) < 2 ^ 64 →
      bucketLoop highest fuel ((2 ^ (p + 1) - 1) * 2 ^ (b - 1)) b = some n →
      highest < 2 ^ (p + n) := by
  intro fuel
  induction fuel with
  | zero => intro b n _ _ h; simp [bucketLoop] at h
  | succ fuel ih =>
    intro b n hb hlt h
    unfold bucketLoop at h
    split at h
    · rename_i hth
      have hdouble : (2 ^ (p + 1) - 1) * 2 ^ (b - 1) * 2 = (2 ^ (p + 1) - 1) * 2 ^ b := by
        rw [mul_assoc, ← pow_succ, Nat.sub_add_cancel hb]
      rw [Nat.shiftLeft_eq, pow_one, hdouble] at h
      by_cases hlt' : (2 ^ (p + 1) - 1) * 2 ^ b < 2 ^ 64
      · rw [Nat.mod_eq_of_lt hlt'] at h
        exact ih (b + 1) n (by omega) (by simpa using hlt') (by simpa using h)
      · have hbn := bucketLoop_le h
        have hle : (2 ^ (p + 1) - 1) * 2 ^ b < 2 ^ (p + 1 + b) := by
          have hpos : 0 < 2 ^ (p + 1) := by positivity
          rw [pow_add 2 (p + 1)]
          exact (Nat.mul_lt_mul_right (by positivity)).2 (Nat.sub_lt hpos one_pos)
        have hexp : 64 < p + 1 + b :=
          (Nat.pow_lt_pow_iff_right (by norm_num)).1 (lt_of_le_of_lt (not_lt.1 hlt') hle)
        exact hh.trans_le (Nat.pow_le_pow_right (by norm_num) (by omega))
    · rename_i hge
      obtain rfl : b = n := by simpa using h
      have hpow : (2 : ℕ) ^ (p + 1) * 2 ^ (b - 1) = 2 ^ (p + b) := by
        rw [← pow_add]; congr 1; omega
      have hmul : (2 ^ (p + 1) - 1) * 2 ^ (b - 1) + 2 ^ (b - 1) = 2 ^ (p + 1) * 2 ^ (b - 1) := by
        rw [Nat.sub_mul, one_mul, Nat.sub_add_cancel]
        exact Nat.le_mul_of_pos_left _ (by positivity)
      have hpos : 0 < 2 ^ (b - 1) := by positivity
      omega

section Init

variable {callocOk : Bool} {fuel lowest highest : ℕ} {sigfigs : ℤ} {h : KvHist}

/-- **The layout of a fresh histogram**, for every range. -/
theorem kvHistInit_geometry (hh : highest < 2 ^ 64)
    (hi : kvHistInit callocOk fuel lowest highest sigfigs = some h) :
    Geometry h.toKvLayout (halfMagnitude sigfigs) ∧
      h.unitMagnitude = kvHistFloorLog2 lowest ∧
      h.lowestTrackable = lowest ∧ h.highestTrackable = highest ∧
      bucketLoop highest fuel
        (((2 ^ (halfMagnitude sigfigs + 1) - 1) * 2 ^ kvHistFloorLog2 lowest) % 2 ^ 64) 1 =
          some h.bucketCount := by
  unfold kvHistInit at hi
  split at hi
  · simp at hi
  rename_i hcond
  simp only [kvHistCeilLog2_largestSingleUnit, Nat.shiftLeft_eq, one_mul] at hi
  set p := halfMagnitude sigfigs with hp
  obtain ⟨n, hn, hsome⟩ := Option.bind_eq_some_iff.1 hi
  split at hsome
  · obtain rfl := Option.some.inj hsome
    have hhalf : 2 ^ (p + 1) / 2 = 2 ^ p := by rw [pow_succ]; omega
    refine ⟨⟨by simp, hhalf, rfl, by simp [hhalf], ?_, ?_, hh⟩, rfl, rfl, rfl, hn⟩
    · show 1 ≤ lowest
      omega
    · show lowest < highest
      omega
  · simp at hsome

/-- With `lowest = 1` the buckets cover the range, whatever its highest value is. -/
theorem kvHistInit_covering (hh : highest < 2 ^ 64)
    (hi : kvHistInit callocOk fuel 1 highest sigfigs = some h) :
    Covering h.toKvLayout (halfMagnitude sigfigs) := by
  obtain ⟨hg, -, -, hhigh, hloop⟩ := kvHistInit_geometry hh hi
  have hu : kvHistFloorLog2 1 = 0 := by decide
  have hp : 2 ^ (halfMagnitude sigfigs + 1) ≤ 2 ^ 18 :=
    Nat.pow_le_pow_right (by norm_num) (Nat.succ_le_succ (halfMagnitude_le sigfigs))
  refine ⟨hg, ?_⟩
  rw [hhigh]
  rw [hu, pow_zero, mul_one, Nat.mod_eq_of_lt (by omega)] at hloop
  refine bucketLoop_covers hh _ fuel 1 _ le_rfl ?_ ?_
  · rw [Nat.sub_self, pow_zero, mul_one]
    omega
  · simpa using hloop

/-- The layout for `lowest = 1`. -/
theorem kvHistInit_layout (hh : highest < 2 ^ 64)
    (hi : kvHistInit callocOk fuel 1 highest sigfigs = some h) :
    Layout1 h.toKvLayout (halfMagnitude sigfigs) ∧ h.highestTrackable = highest := by
  obtain ⟨hg, hunit, hlow, hhigh, -⟩ := kvHistInit_geometry hh hi
  have hrange := hg.range
  rw [hlow] at hrange
  exact ⟨⟨hunit.trans (by decide), hg.halfMag, hg.half, hg.mask, hg.length, hlow,
    (kvHistInit_covering hh hi).covers, hrange, hg.word⟩, hhigh⟩

theorem kvHistInit_zero
    (hi : kvHistInit callocOk fuel lowest highest sigfigs = some h) :
    h.counts = (fun _ => 0) ∧ h.totalCount = 0 ∧ h.minValue = uint64Max ∧ h.maxValue = 0 := by
  unfold kvHistInit at hi
  split at hi
  · simp at hi
  · obtain ⟨n, -, hsome⟩ := Option.bind_eq_some_iff.1 hi
    split at hsome
    · obtain rfl := Option.some.inj hsome
      exact ⟨rfl, rfl, rfl, rfl⟩
    · simp at hsome

end Init

/-! ### Bucket, sub-bucket and index -/

section Encode

variable {l : KvLayout} {p : ℕ}

/-- The number of digits of `v` beyond the first `p`. -/
def bucketOf (p v : ℕ) : ℕ := v.size - p

/-- The upper edge of the counter `v` falls into: the least multiple of `2 ^ bucket` above `v`. -/
def upperEdge (p v : ℕ) : ℕ := (v / 2 ^ bucketOf p v + 1) * 2 ^ bucketOf p v

theorem size_or_mask {v : ℕ} (p : ℕ) (hv : 2 ^ p ≤ v) :
    (v ||| (2 ^ (p + 1) - 1)).size = v.size := by
  have hpv : p < v.size := Nat.lt_size.2 hv
  apply le_antisymm
  · refine Nat.size_le.2 (Nat.or_lt_two_pow (Nat.lt_size_self v) ?_)
    have hle : (2 : ℕ) ^ (p + 1) ≤ 2 ^ v.size := Nat.pow_le_pow_right (by norm_num) hpv
    have hpos : (0 : ℕ) < 2 ^ (p + 1) := by positivity
    omega
  · exact Nat.size_le_size Nat.left_le_or

theorem kvHistGetBucketIndex_eq (hl : Geometry l p) {v : ℕ} (hv : v < 2 ^ 64) :
    kvHistGetBucketIndex l v = bucketOf p v := by
  unfold kvHistGetBucketIndex bucketOf
  rw [hl.half, hl.mask, hl.halfMag]
  split
  · rename_i hlt
    have : v.size ≤ p := Nat.size_le.2 hlt
    omega
  · rename_i hge
    have hs : v.size ≤ 64 := Nat.size_le.2 hv
    unfold kvHistLeadingZeros64
    rw [size_or_mask p (not_lt.1 hge)]
    omega

/-- The leading digits: the sub-bucket never reaches the half count. -/
theorem div_bucketOf_lt (p v : ℕ) : v / 2 ^ bucketOf p v < 2 ^ p := by
  rw [Nat.div_lt_iff_lt_mul (by positivity), ← pow_add]
  refine lt_of_lt_of_le (Nat.lt_size_self v) (Nat.pow_le_pow_right (by norm_num) ?_)
  unfold bucketOf
  omega

/-- The shift of the sub-bucket includes the unit magnitude, the bucket does not. -/
theorem indexOf_split (hl : Geometry l p) {v : ℕ} (hv : v < 2 ^ 64) :
    indexOf l v = bucketOf p v * 2 ^ p + v / 2 ^ (bucketOf p v + l.unitMagnitude) := by
  simp only [indexOf, kvHistGetSubBucketIndex, kvHistGetBucketIndex_eq hl hv, hl.halfMag,
    Nat.shiftLeft_eq, Nat.shiftRight_eq_div_pow]

theorem indexOf_eq (hl : Layout1 l p) {v : ℕ} (hv : v < 2 ^ 64) :
    indexOf l v = bucketOf p v * 2 ^ p + v / 2 ^ bucketOf p v := by
  rw [indexOf_split hl.covering.toGeometry hv, hl.unit, Nat.add_zero]

theorem div_bucketOf_add_lt (p v u : ℕ) : v / 2 ^ (bucketOf p v + u) < 2 ^ p :=
  lt_of_le_of_lt (Nat.div_le_div_left (Nat.pow_le_pow_right (by norm_num) (Nat.le_add_right _ u))
    (by positivity)) (div_bucketOf_lt p v)

/-- **Shift and mask decode what the sum encodes.** -/
theorem indexOf_decode (hl : Layout1 l p) {v : ℕ} (hv : v < 2 ^ 64) :
    indexOf l v >>> l.subBucketHalfCountMagnitude = bucketOf p v ∧
      indexOf l v &&& (l.subBucketHalfCount - 1) = v / 2 ^ bucketOf p v := by
  have hlt := div_bucketOf_lt p v
  rw [indexOf_eq hl hv, hl.halfMag, hl.half, Nat.and_two_pow_sub_one_eq_mod,
    Nat.shiftRight_eq_div_pow]
  constructor
  · rw [Nat.mul_comm, Nat.mul_add_div (by positivity), Nat.div_eq_of_lt hlt, Nat.add_zero]
  · rw [Nat.mul_comm, Nat.mul_add_mod, Nat.mod_eq_of_lt hlt]

theorem upperEdge_le_two_pow (p v : ℕ) : upperEdge p v ≤ 2 ^ (p + bucketOf p v) := by
  unfold upperEdge
  rw [pow_add]
  exact Nat.mul_le_mul_right _ (div_bucketOf_lt p v)

/-- A value lies below its upper edge, by at most the width of its counter. -/
theorem upperEdge_spec (p v : ℕ) : upperEdge p v ≤ v + 2 ^ bucketOf p v ∧ v < upperEdge p v := by
  have hpos : 0 < 2 ^ bucketOf p v := by positivity
  have hle := Nat.div_mul_le_self v (2 ^ bucketOf p v)
  have hlt := Nat.lt_div_mul_add (a := v) hpos
  have he : upperEdge p v = v / 2 ^ bucketOf p v * 2 ^ bucketOf p v + 2 ^ bucketOf p v := by
    unfold upperEdge; ring
  omega

/-- What the read-out takes for the counter of `v`: the upper edge of that counter, as a word. -/
def edgeWord (p v : ℕ) : ℕ := upperEdge p v % 2 ^ 64

theorem valueAtIndex_indexOf (hl : Layout1 l p) {v : ℕ} (hv : v < 2 ^ 64) :
    valueAtIndex l (indexOf l v) = edgeWord p v := by
  obtain ⟨h1, h2⟩ := indexOf_decode hl hv
  unfold valueAtIndex kvHistValueFromIndex
  rw [h1, h2, hl.unit, Nat.add_zero, Nat.shiftLeft_eq]
  rfl

theorem bucketOf_mono (p : ℕ) {v w : ℕ} (h : v ≤ w) : bucketOf p v ≤ bucketOf p w := by
  have := Nat.size_le_size h
  unfold bucketOf
  omega

/-- **The index is monotone in the value.** -/
theorem indexOf_mono (hl : Geometry l p) {v w : ℕ} (h : v ≤ w) (hw : w < 2 ^ 64) :
    indexOf l v ≤ indexOf l w := by
  rw [indexOf_split hl (lt_of_le_of_lt h hw), indexOf_split hl hw]
  rcases Nat.eq_or_lt_of_le (bucketOf_mono p h) with hb | hb
  · rw [hb]
    exact Nat.add_le_add_left (Nat.div_le_div_right h) _
  · calc bucketOf p v * 2 ^ p + v / 2 ^ (bucketOf p v + l.unitMagnitude)
        ≤ bucketOf p v * 2 ^ p + 2 ^ p := Nat.add_le_add_left (div_bucketOf_add_lt p v _).le _
      _ = (bucketOf p v + 1) * 2 ^ p := by ring
      _ ≤ bucketOf p w * 2 ^ p := Nat.mul_le_mul_right _ hb
      _ ≤ bucketOf p w * 2 ^ p + w / 2 ^ (bucketOf p w + l.unitMagnitude) := Nat.le_add_right _ _

/-- **A value has a counter** exactly when the buckets cover it. -/
theorem indexOf_lt_length_iff (hl : Geometry l p) {v : ℕ} (hv : v < 2 ^ 64) :
    indexOf l v < l.countsArrayLength ↔ v < 2 ^ (p + l.bucketCount) := by
  have hbucket : v < 2 ^ (p + l.bucketCount) ↔ bucketOf p v ≤ l.bucketCount := by
    rw [← Nat.size_le]
    unfold bucketOf
    omega
  rw [indexOf_split hl hv, hl.length, hbucket]
  constructor
  · intro h
    by_contra hne
    have hle : (l.bucketCount + 1) * 2 ^ p ≤ bucketOf p v * 2 ^ p :=
      Nat.mul_le_mul_right _ (not_le.1 hne)
    exact absurd h (not_lt.2 (hle.trans (Nat.le_add_right _ _)))
  · intro hb
    calc bucketOf p v * 2 ^ p + v / 2 ^ (bucketOf p v + l.unitMagnitude)
        < bucketOf p v * 2 ^ p + 2 ^ p := Nat.add_lt_add_left (div_bucketOf_add_lt p v _) _
      _ = (bucketOf p v + 1) * 2 ^ p := by ring
      _ ≤ (l.bucketCount + 1) * 2 ^ p := Nat.mul_le_mul_right _ (Nat.succ_le_succ hb)

/-- A value of the trackable range has a counter. -/
theorem indexOf_lt_length (hl : Covering l p) {v : ℕ} (hv : v ≤ l.highestTrackable) :
    indexOf l v < l.countsArrayLength :=
  (indexOf_lt_length_iff hl.toGeometry (hv.trans_lt hl.word)).2 (hv.trans_lt hl.covers)

theorem upperEdge_mono (p : ℕ) {v w : ℕ} (h : v ≤ w) : upperEdge p v ≤ upperEdge p w := by
  rcases Nat.eq_or_lt_of_le (bucketOf_mono p h) with hb | hb
  · unfold upperEdge
    rw [hb]
    exact Nat.mul_le_mul_right _ (Nat.succ_le_succ (Nat.div_le_div_right h))
  · -- across a bucket boundary a power of two separates the two edges
    have h1 := upperEdge_le_two_pow p v
    have h2 := (upperEdge_spec p w).2
    have hsz : p + bucketOf p v ≤ w.size - 1 := by unfold bucketOf at hb ⊢; omega
    have hw : 2 ^ (w.size - 1) ≤ w := by
      refine Nat.lt_size.1 ?_
      unfold bucketOf at hb
      omega
    have := Nat.pow_le_pow_right (n := 2) (by norm_num) hsz
    omega

/-! ### The last counter

The upper edge of the last counter of the 64-bit range is `2 ^ 64`, and the read-out takes zero for it. -/

/-- The least value of the last counter of the 64-bit range. -/
def wrapPoint (p : ℕ) : ℕ := 2 ^ 64 - 2 ^ (64 - p)

theorem wrapPoint_lt (p : ℕ) : wrapPoint p < 2 ^ 64 := Nat.sub_lt (by positivity) (by positivity)

section Wrap

variable {v : ℕ} (hp2 : 2 ≤ p) (hp : p ≤ 63)

include hp in
theorem wrapPoint_eq : wrapPoint p = (2 ^ p - 1) * 2 ^ (64 - p) := by
  unfold wrapPoint
  rw [Nat.sub_mul, ← pow_add, Nat.add_sub_cancel' (by omega), one_mul]

include hp2

/-- The two last counters lie in the upper half of the range. -/
theorem two_pow_le_wrapPoint :
    2 ^ 63 < wrapPoint p ∧ 2 ^ 63 ≤ wrapPoint p - 2 ^ (64 - p) := by
  have hpow : (2 : ℕ) ^ (64 - p) ≤ 2 ^ 62 := Nat.pow_le_pow_right (by norm_num) (by omega)
  unfold wrapPoint
  omega

include hp

/-- The upper half of the 64-bit range is one bucket. -/
theorem bucketOf_top (hv : 2 ^ 63 ≤ v) (hv64 : v < 2 ^ 64) : bucketOf p v = 64 - p := by
  have hlt : 63 < v.size := Nat.lt_size.2 hv
  have hle : v.size ≤ 64 := Nat.size_le.2 hv64
  unfold bucketOf
  omega

/-- Below the last counter, the upper edge fits in a word. -/
theorem upperEdge_le_wrapPoint (hv : v < wrapPoint p) : upperEdge p v ≤ wrapPoint p := by
  have htop := two_pow_le_wrapPoint hp2
  rcases lt_or_ge v (2 ^ 63) with hlow | hhigh
  · have hsize : v.size ≤ 63 := Nat.size_le.2 hlow
    have hedge : upperEdge p v ≤ 2 ^ 63 := (upperEdge_le_two_pow p v).trans
      (Nat.pow_le_pow_right (by norm_num) (by unfold bucketOf; omega))
    omega
  · have hbucket := bucketOf_top hp2 hp hhigh (hv.trans (wrapPoint_lt p))
    rw [wrapPoint_eq hp] at hv ⊢
    unfold upperEdge
    rw [hbucket]
    exact Nat.mul_le_mul_right _ ((Nat.div_lt_iff_lt_mul (by positivity)).2 hv)

theorem edgeWord_of_lt (hv : v < wrapPoint p) : edgeWord p v = upperEdge p v :=
  Nat.mod_eq_of_lt ((upperEdge_le_wrapPoint hp2 hp hv).trans_lt (wrapPoint_lt p))

/-- **The upper edge of the last counter** is taken for zero. -/
theorem edgeWord_of_ge (hv : wrapPoint p ≤ v) (hv64 : v < 2 ^ 64) : edgeWord p v = 0 := by
  have htop := two_pow_le_wrapPoint hp2
  have hbucket := bucketOf_top hp2 hp (show 2 ^ 63 ≤ v by omega) hv64
  rw [wrapPoint_eq hp] at hv
  have hge : 2 ^ p - 1 ≤ v / 2 ^ (64 - p) := (Nat.le_div_iff_mul_le (by positivity)).2 hv
  have hlt := div_bucketOf_lt p v
  rw [hbucket] at hlt
  have hsub : v / 2 ^ (64 - p) + 1 = 2 ^ p := by omega
  unfold edgeWord upperEdge
  rw [hbucket, hsub, ← pow_add, Nat.add_sub_cancel' (by omega), Nat.mod_self]

theorem edgeWord_eq_zero_iff (hv64 : v < 2 ^ 64) : edgeWord p v = 0 ↔ wrapPoint p ≤ v := by
  refine ⟨fun he => ?_, fun hv => edgeWord_of_ge hp2 hp hv hv64⟩
  by_contra hlt
  rw [edgeWord_of_lt hp2 hp (not_le.1 hlt)] at he
  have hedge := (upperEdge_spec p v).2
  omega

theorem edgeWord_le (hv64 : v < 2 ^ 64) : edgeWord p v ≤ wrapPoint p := by
  rcases lt_or_ge v (wrapPoint p) with hv | hv
  · rw [edgeWord_of_lt hp2 hp hv]
    exact upperEdge_le_wrapPoint hp2 hp hv
  · rw [edgeWord_of_ge hp2 hp hv hv64]
    exact Nat.zero_le _

/-- The counter before the last one is the one whose upper edge is the last counter. -/
theorem edgeWord_eq_wrapPoint_iff (hv64 : v < 2 ^ 64) :
    edgeWord p v = wrapPoint p ↔ wrapPoint p - 2 ^ (64 - p) ≤ v ∧ v < wrapPoint p := by
  have htop := two_pow_le_wrapPoint hp2
  rcases lt_or_ge v (wrapPoint p) with hv | hv
  · rw [edgeWord_of_lt hp2 hp hv]
    refine ⟨fun he => ⟨?_, hv⟩, fun h => le_antisymm (upperEdge_le_wrapPoint hp2 hp hv) ?_⟩
    · have hle : bucketOf p v ≤ 64 - p := by
        have hsize : v.size ≤ 64 := Nat.size_le.2 hv64
        unfold bucketOf
        omega
      have hwidth : (2 : ℕ) ^ bucketOf p v ≤ 2 ^ (64 - p) := Nat.pow_le_pow_right (by norm_num) hle
      have hedge := (upperEdge_spec p v).1
      omega
    · have hbucket := bucketOf_top hp2 hp (show 2 ^ 63 ≤ v by omega) hv64
      have hlow : (2 ^ p - 2) * 2 ^ (64 - p) ≤ v := by
        have hge := h.1
        rw [wrapPoint_eq hp, Nat.sub_mul] at hge
        rw [Nat.sub_mul]
        omega
      have hdiv : 2 ^ p - 2 ≤ v / 2 ^ (64 - p) := (Nat.le_div_iff_mul_le (by positivity)).2 hlow
      rw [wrapPoint_eq hp]
      unfold upperEdge
      rw [hbucket]
      exact Nat.mul_le_mul_right _ (by omega)
  · rw [edgeWord_of_ge hp2 hp hv hv64]
    exact iff_of_false (by omega) fun h => absurd h.2 (not_lt.2 hv)

end Wrap

theorem clamp_le (hl : Geometry l p) (v : ℕ) : clamp l v ≤ l.highestTrackable := by
  have := hl.range
  unfold clamp
  split_ifs <;> omega

theorem lowest_le_clamp (hl : Geometry l p) (v : ℕ) : l.lowestTrackable ≤ clamp l v := by
  have := hl.range
  unfold clamp
  split_ifs <;> omega

theorem one_le_clamp (hl : Geometry l p) (v : ℕ) : 1 ≤ clamp l v :=
  hl.lowest.trans (lowest_le_clamp hl v)

theorem clamp_lt (hl : Geometry l p) (v : ℕ) : clamp l v < 2 ^ 64 :=
  (clamp_le hl v).trans_lt hl.word

/-- The counter of a value. -/
def counterOf (l : KvLayout) (v : ℕ) : ℕ := indexOf l (clamp l v)

theorem clamp_of_mem {v : ℕ} (h1 : l.lowestTrackable ≤ v) (hv : v ≤ l.highestTrackable) :
    clamp l v = v := by
  unfold clamp
  rw [if_neg (by omega), if_neg (by omega)]

end Encode

end KvBench.Hist
