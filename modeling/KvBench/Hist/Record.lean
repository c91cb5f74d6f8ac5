import KvBench.Hist.Index
import KvBench.Order.Kth

/-!
# The samples a histogram contains

`Holds h xs` says that the counters and the total of `h` are those of the samples `xs`, all of
them in the trackable range. A fresh histogram holds nothing, and recording adds the clamped value
(`kvHistRecord_holds`): no sample is dropped, because a value of the range always has a counter.
-/

namespace KvBench.Hist

/-- The number of samples of `xs` that fall into the counter `i`. -/
def samplesAt (l : KvLayout) (xs : List ℕ) (i : ℕ) : ℕ :=
  xs.countP (fun x => decide (indexOf l x = i))

/-- The histogram `h` contains exactly the samples `xs`. -/
structure Holds (h : KvHist) (xs : List ℕ) : Prop where
  mem : ∀ x ∈ xs, 1 ≤ x ∧ x ≤ h.highestTrackable
  counts : ∀ i, h.counts i = samplesAt h.toKvLayout xs i
  total : h.totalCount = xs.length
  size : xs.length < 2 ^ 64

/-- The minimum and the maximum `h` keeps are those of `f` over the samples `xs`, or the sentinels
of an empty histogram. -/
structure Extremes (f : ℕ → ℕ) (h : KvHist) (xs : List ℕ) : Prop where
  empty : xs = [] → h.minValue = uint64Max ∧ h.maxValue = 0
  least : xs ≠ [] → IsLeast {y | ∃ x ∈ xs, f x = y} h.minValue
  greatest : xs ≠ [] → IsGreatest {y | ∃ x ∈ xs, f x = y} h.maxValue

theorem samplesAt_append (l : KvLayout) (xs ys : List ℕ) (i : ℕ) :
    samplesAt l (xs ++ ys) i = samplesAt l xs i + samplesAt l ys i := List.countP_append

theorem samplesAt_le (l : KvLayout) (xs : List ℕ) (i : ℕ) : samplesAt l xs i ≤ xs.length :=
  List.countP_le_length

theorem samplesAt_singleton (l : KvLayout) (x i : ℕ) :
    samplesAt l [x] i = if indexOf l x = i then 1 else 0 := by
  simp [samplesAt, List.countP_cons]

theorem Holds.perm {h : KvHist} {xs ys : List ℕ} (hh : Holds h xs) (hp : xs.Perm ys) :
    Holds h ys where
  mem x hx := hh.mem x (hp.mem_iff.2 hx)
  counts i := (hh.counts i).trans (hp.countP_eq _)
  total := hh.total.trans hp.length_eq
  size := hp.length_eq ▸ hh.size

theorem Extremes.perm {f : ℕ → ℕ} {h : KvHist} {xs ys : List ℕ} (he : Extremes f h xs)
    (hp : xs.Perm ys) : Extremes f h ys := by
  have hset : {y | ∃ x ∈ xs, f x = y} = {y | ∃ x ∈ ys, f x = y} := by
    ext y; simp only [Set.mem_ofPred_eq, hp.mem_iff]
  have hnil : ∀ {zs : List ℕ}, xs.Perm zs → zs = [] → xs = [] := by
    rintro zs h rfl; exact h.eq_nil
  refine ⟨fun h0 => he.empty (hnil hp h0), fun h0 => ?_, fun h0 => ?_⟩
  · exact hset ▸ he.least (fun hx => h0 (hx ▸ hp).symm.eq_nil)
  · exact hset ▸ he.greatest (fun hx => h0 (hx ▸ hp).symm.eq_nil)

/-- Joining two sets of samples takes the smaller minimum and the larger maximum; the sentinels of
an empty histogram are neutral. -/
theorem Extremes.append {f : ℕ → ℕ} {h₁ h₂ h : KvHist} {xs ys : List ℕ} (he₁ : Extremes f h₁ xs)
    (he₂ : Extremes f h₂ ys) (hx : ∀ x ∈ xs, f x < 2 ^ 64) (hy : ∀ y ∈ ys, f y < 2 ^ 64)
    (hmin : h.minValue = min h₂.minValue h₁.minValue)
    (hmax : h.maxValue = max h₁.maxValue h₂.maxValue) : Extremes f h (xs ++ ys) := by
  have hle : ∀ {zs : List ℕ} {m : ℕ}, (∀ z ∈ zs, f z < 2 ^ 64) →
      IsLeast {y | ∃ x ∈ zs, f x = y} m → m ≤ uint64Max := by
    rintro zs m hz ⟨⟨z, hz', rfl⟩, -⟩
    have := hz z hz'
    unfold uint64Max
    omega
  have hset : {y | ∃ x ∈ xs ++ ys, f x = y} =
      {y | ∃ x ∈ xs, f x = y} ∪ {y | ∃ x ∈ ys, f x = y} := by
    ext y
    simp only [List.mem_append, Set.mem_ofPred_eq, Set.mem_union]
    grind
  rw [min_comm] at hmin
  by_cases h1 : xs = [] <;> by_cases h2 : ys = []
  · obtain ⟨e1, e2⟩ := he₁.empty h1
    obtain ⟨e3, e4⟩ := he₂.empty h2
    refine ⟨fun _ => ⟨by rw [hmin, e1, e3, min_self], by rw [hmax, e2, e4, max_self]⟩, ?_, ?_⟩ <;>
      exact fun h0 => absurd (by rw [h1, h2]; rfl) h0
  · obtain ⟨e1, e2⟩ := he₁.empty h1
    have hl := he₂.least h2
    have hg := he₂.greatest h2
    subst h1
    rw [List.nil_append] at *
    refine ⟨fun h0 => absurd h0 h2, fun _ => ?_, fun _ => ?_⟩
    · rw [hmin, e1, min_eq_right (hle hy hl)]; exact hl
    · rw [hmax, e2, max_eq_right (Nat.zero_le _)]; exact hg
  · obtain ⟨e1, e2⟩ := he₂.empty h2
    have hl := he₁.least h1
    have hg := he₁.greatest h1
    subst h2
    rw [List.append_nil] at *
    refine ⟨fun h0 => absurd h0 h1, fun _ => ?_, fun _ => ?_⟩
    · rw [hmin, e1, min_eq_left (hle hx hl)]; exact hl
    · rw [hmax, e2, max_eq_left (Nat.zero_le _)]; exact hg
  · refine ⟨fun h0 => absurd (List.append_eq_nil_iff.1 h0).1 h1, fun _ => ?_, fun _ => ?_⟩
    · rw [hset, hmin]; exact (he₁.least h1).union (he₂.least h2)
    · rw [hset, hmax]; exact (he₁.greatest h1).union (he₂.greatest h2)

/-! ### Recording -/

/-- Recording a sequence of values, one after the other. -/
def recordAll (h : KvHist) (vs : List ℕ) : KvHist := vs.foldl kvHistRecord h

section Record

variable {h : KvHist} {p : ℕ} {xs : List ℕ}

@[simp] theorem kvHistRecord_layout (h : KvHist) (v : ℕ) :
    (kvHistRecord h v).toKvLayout = h.toKvLayout := by
  unfold kvHistRecord
  dsimp only
  split <;> rfl

@[simp] theorem recordAll_layout (h : KvHist) (vs : List ℕ) :
    (recordAll h vs).toKvLayout = h.toKvLayout := by
  unfold recordAll
  induction vs generalizing h with
  | nil => rfl
  | cons v vs ih => rw [List.foldl_cons, ih, kvHistRecord_layout]

/-- A value without a counter is dropped. -/
theorem kvHistRecord_of_length_le {v : ℕ}
    (hi : h.countsArrayLength ≤ indexOf h.toKvLayout (clamp h.toKvLayout v)) :
    kvHistRecord h v = h := if_pos hi

theorem kvHistRecord_of_lt_length {v : ℕ}
    (hi : indexOf h.toKvLayout (clamp h.toKvLayout v) < h.countsArrayLength) :
    kvHistRecord h v =
      { h with
        counts := Function.update h.counts (indexOf h.toKvLayout (clamp h.toKvLayout v))
          ((h.counts (indexOf h.toKvLayout (clamp h.toKvLayout v)) + 1) % 2 ^ 64)
        totalCount := (h.totalCount + 1) % 2 ^ 64
        minValue := min (clamp h.toKvLayout v) h.minValue
        maxValue := max h.maxValue (clamp h.toKvLayout v) } := by
  simp only [kvHistRecord]
  rw [if_neg (not_le.2 hi)]
  congr 1
  · rw [min_def]; split_ifs <;> omega
  · rw [max_def]; split_ifs <;> omega

/-- When the buckets cover the range the bounds check always passes. -/
theorem indexOf_clamp_lt_length (hl : Covering h.toKvLayout p) (v : ℕ) :
    indexOf h.toKvLayout (clamp h.toKvLayout v) < h.countsArrayLength :=
  indexOf_lt_length hl (clamp_le hl.toGeometry v)

/-- **No sample is dropped**: recording `v` adds exactly the clamped value. -/
theorem kvHistRecord_holds (hl : Covering h.toKvLayout p) (hh : Holds h xs)
    (hs : xs.length + 1 < 2 ^ 64) (v : ℕ) :
    Holds (kvHistRecord h v) (xs ++ [clamp h.toKvLayout v]) where
  mem x hx := by
    rw [kvHistRecord_layout]
    rcases List.mem_append.1 hx with hx | hx
    · exact hh.mem x hx
    · rw [List.mem_singleton.1 hx]
      exact ⟨one_le_clamp hl.toGeometry v, clamp_le hl.toGeometry v⟩
  counts i := by
    rw [kvHistRecord_layout, samplesAt_append, samplesAt_singleton,
      kvHistRecord_of_lt_length (indexOf_clamp_lt_length hl v)]
    have hle := samplesAt_le h.toKvLayout xs i
    by_cases hi : indexOf h.toKvLayout (clamp h.toKvLayout v) = i
    · subst hi
      rw [if_pos rfl]
      simp only [Function.update_self, hh.counts]
      exact Nat.mod_eq_of_lt (by omega)
    · rw [if_neg hi]
      simp only [Function.update_of_ne (Ne.symm hi), hh.counts, Nat.add_zero]
  total := by
    rw [kvHistRecord_of_lt_length (indexOf_clamp_lt_length hl v)]
    simp only [hh.total, List.length_append, List.length_singleton]
    exact Nat.mod_eq_of_lt hs
  size := by simpa using hs

/-- The total counts every value that is recorded, in 64 bits. -/
theorem recordAll_totalCount (hl : Covering h.toKvLayout p) (ht : h.totalCount < 2 ^ 64)
    (vs : List ℕ) : (recordAll h vs).totalCount = (h.totalCount + vs.length) % 2 ^ 64 := by
  unfold recordAll
  induction vs generalizing h with
  | nil => exact (Nat.mod_eq_of_lt ht).symm
  | cons v vs ih =>
    have hone : (kvHistRecord h v).totalCount = (h.totalCount + 1) % 2 ^ 64 := by
      rw [kvHistRecord_of_lt_length (indexOf_clamp_lt_length hl v)]
    have hl' : Covering (kvHistRecord h v).toKvLayout p := by rwa [kvHistRecord_layout]
    rw [List.foldl_cons, ih hl' (hone.trans_lt (Nat.mod_lt _ (by decide))), hone, Nat.mod_add_mod,
      List.length_cons, Nat.add_assoc, Nat.add_comm 1]

theorem kvHistRecord_extremes (hl : Covering h.toKvLayout p) (hh : Holds h xs)
    (he : Extremes id h xs) (v : ℕ) :
    Extremes id (kvHistRecord h v) (xs ++ [clamp h.toKvLayout v]) := by
  have hc := clamp_lt hl.toGeometry v
  have hb := hl.word
  set x := clamp h.toKvLayout v with hx
  have hone : Extremes id { h with minValue := x, maxValue := x } [x] := by
    refine ⟨by simp, fun _ => ?_, fun _ => ?_⟩ <;> simp [IsLeast, IsGreatest, lowerBounds, upperBounds]
  refine he.append hone (fun y hy => ?_) (fun y hy => ?_) ?_ ?_
  · have := (hh.mem y hy).2
    simp only [id]; omega
  · rw [List.mem_singleton.1 hy]
    simp only [id]; omega
  · rw [kvHistRecord_of_lt_length (indexOf_clamp_lt_length hl v)]
  · rw [kvHistRecord_of_lt_length (indexOf_clamp_lt_length hl v)]

end Record

/-! ### A fresh histogram and a sequence of values -/

section Fresh

variable {callocOk : Bool} {fuel highest : ℕ} {sigfigs : ℤ} {h : KvHist}

theorem kvHistInit_holds {lowest : ℕ}
    (hi : kvHistInit callocOk fuel lowest highest sigfigs = some h) (f : ℕ → ℕ) :
    Holds h [] ∧ Extremes f h [] := by
  obtain ⟨hc, ht, hmin, hmax⟩ := kvHistInit_zero hi
  refine ⟨⟨by simp, fun i => by simp [hc, samplesAt], by simp [ht], by simp⟩, ?_⟩
  exact ⟨fun _ => ⟨hmin, hmax⟩, fun h0 => absurd rfl h0, fun h0 => absurd rfl h0⟩

/-- **The samples after a sequence of records** are the clamped values, in the order recorded, and
the extreme values are theirs. -/
theorem recordAll_holds {lowest p : ℕ}
    (hi : kvHistInit callocOk fuel lowest highest sigfigs = some h) (hl : Covering h.toKvLayout p)
    (vs : List ℕ) (hs : vs.length < 2 ^ 64) :
    Holds (recordAll h vs) (vs.map (clamp h.toKvLayout)) ∧
      Extremes id (recordAll h vs) (vs.map (clamp h.toKvLayout)) := by
  induction vs using List.reverseRecOn with
  | nil => exact kvHistInit_holds hi id
  | append_singleton vs v ih =>
    simp only [List.length_append, List.length_singleton] at hs
    obtain ⟨ihH, ihE⟩ := ih (by omega)
    have hl' : Covering (recordAll h vs).toKvLayout p := by simpa using hl
    have hstep : recordAll h (vs ++ [v]) = kvHistRecord (recordAll h vs) v := by
      simp [recordAll, List.foldl_append]
    have hmap : (vs ++ [v]).map (clamp h.toKvLayout) =
        vs.map (clamp h.toKvLayout) ++ [clamp (recordAll h vs).toKvLayout v] := by simp
    rw [hstep, hmap]
    exact ⟨kvHistRecord_holds hl' ihH (by simpa using hs) v, kvHistRecord_extremes hl' ihH ihE v⟩

end Fresh

end KvBench.Hist
