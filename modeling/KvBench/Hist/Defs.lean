import Mathlib.Data.Nat.Size
import Mathlib.Data.Rat.Floor
import Mathlib.Tactic

/-!
# The latency histogram of `hist.h`

A fixed-memory histogram over `[lowest, highest]`: a value is stored in the counter
`(bucket << halfMagnitude) + subBucket`, where the bucket is a power-of-two segment and the
sub-bucket a linear position inside it.

* `KvLayout` is the immutable part of `kv_hist_t`, computed once by `kv_hist_init`; `KvHist` adds
  the counters. `counts` is the `calloc`ed array as a function; only the indices below
  `countsArrayLength` are read or written.
* Counters and `total_count` are 64-bit words, so they are incremented modulo `2 ^ 64`.
* The percentile is a rational number: the rank is computed in exact arithmetic.
-/

namespace KvBench.Hist

/-- `UINT64_MAX`. -/
def uint64Max : ℕ := 2 ^ 64 - 1

/-- The fields of `kv_hist_t` that `kv_hist_init` computes and nothing changes afterwards. -/
structure KvLayout where
  unitMagnitude : ℕ
  subBucketCountMagnitude : ℕ
  subBucketHalfCountMagnitude : ℕ
  subBucketCount : ℕ
  subBucketHalfCount : ℕ
  bucketCount : ℕ
  countsArrayLength : ℕ
  subBucketMask : ℕ
  lowestTrackable : ℕ
  highestTrackable : ℕ
  deriving DecidableEq

/-- `kv_hist_t`. -/
structure KvHist extends KvLayout where
  totalCount : ℕ
  minValue : ℕ
  maxValue : ℕ
  counts : ℕ → ℕ

/-! ### Initialisation -/

/-- `kv_hist_leading_zeros64`. -/
def kvHistLeadingZeros64 (v : ℕ) : ℕ := 64 - v.size

/-- `kv_hist_floor_log2`. -/
def kvHistFloorLog2 (v : ℕ) : ℕ := 64 - kvHistLeadingZeros64 v - 1

/-- `kv_hist_ceil_log2`. -/
def kvHistCeilLog2 (v : ℕ) : ℕ :=
  if v ≤ 1 then 0
  else
    let fl := kvHistFloorLog2 v
    if v = (1 <<< fl) % 2 ^ 64 then fl else fl + 1

/-- `largest_value_with_single_unit_resolution`. -/
def largestSingleUnit (sigfigs : ℤ) : ℕ :=
  if sigfigs = 2 then 2 * 100
  else if sigfigs = 1 then 2 * 10
  else if sigfigs = 4 then 2 * 10000
  else if sigfigs = 5 then 2 * 100000
  else 2 * 1000

/-- `while (trackable < highest) { trackable <<= 1; buckets++; }`: the value of `buckets` on exit,
or `none` when the loop is still running after `fuel` rounds. -/
def bucketLoop (highest : ℕ) : ℕ → ℕ → ℕ → Option ℕ
  | 0, _, _ => none
  | fuel + 1, trackable, buckets =>
    if trackable < highest then bucketLoop highest fuel ((trackable <<< 1) % 2 ^ 64) (buckets + 1)
    else some buckets

/-- `kv_hist_init`: `some h` when it returns `0` with the histogram `h`. `callocOk` says whether
the allocation of the counters succeeds. -/
def kvHistInit (callocOk : Bool) (fuel : ℕ) (lowest highest : ℕ) (sigfigs : ℤ) : Option KvHist :=
  if lowest = 0 ∨ highest ≤ lowest then none
  else
    let unit := kvHistFloorLog2 lowest
    let mag := kvHistCeilLog2 (largestSingleUnit sigfigs)
    let count := 1 <<< mag
    (bucketLoop highest fuel (((count - 1) <<< unit) % 2 ^ 64) 1).bind fun buckets =>
      if callocOk then
        some
          { unitMagnitude := unit
            subBucketCountMagnitude := mag
            subBucketHalfCountMagnitude := mag - 1
            subBucketCount := count
            subBucketHalfCount := count / 2
            bucketCount := buckets
            countsArrayLength := (buckets + 1) * (count / 2)
            subBucketMask := count - 1
            lowestTrackable := lowest
            highestTrackable := highest
            totalCount := 0
            minValue := uint64Max
            maxValue := 0
            counts := fun _ => 0 }
      else none

/-- `kv_hist_reset`. -/
def kvHistReset (h : KvHist) : KvHist :=
  { h with totalCount := 0, minValue := uint64Max, maxValue := 0, counts := fun _ => 0 }

/-- `kv_hist_copy`. -/
def kvHistCopy (dst src : KvHist) : KvHist :=
  let n := min src.countsArrayLength dst.countsArrayLength
  { dst with
    totalCount := src.totalCount
    minValue := src.minValue
    maxValue := src.maxValue
    counts := fun i => if i < n then src.counts i else 0 }

/-! ### The index of a value -/

/-- `kv_hist_get_bucket_index`. -/
def kvHistGetBucketIndex (l : KvLayout) (value : ℕ) : ℕ :=
  if value < l.subBucketHalfCount then 0
  else 64 - kvHistLeadingZeros64 (value ||| l.subBucketMask) - l.subBucketHalfCountMagnitude

/-- `kv_hist_get_sub_bucket_index`. A shift by 64 or more, which C leaves undefined, gives zero here; it
takes a `lowest` above one. -/
def kvHistGetSubBucketIndex (l : KvLayout) (value bucketIndex : ℕ) : ℕ :=
  value >>> (bucketIndex + l.unitMagnitude)

/-- `kv_hist_value_from_index`. -/
def kvHistValueFromIndex (l : KvLayout) (bucketIndex subBucketIndex : ℕ) : ℕ :=
  ((subBucketIndex + 1) <<< (bucketIndex + l.unitMagnitude)) % 2 ^ 64

/-- The value clamped to the trackable range, as `kv_hist_record` starts. -/
def clamp (l : KvLayout) (value : ℕ) : ℕ :=
  if value < l.lowestTrackable then l.lowestTrackable
  else if l.highestTrackable < value then l.highestTrackable
  else value

/-- The counter index `kv_hist_record` computes for a (clamped) value. -/
def indexOf (l : KvLayout) (value : ℕ) : ℕ :=
  let bucketIndex := kvHistGetBucketIndex l value
  (bucketIndex <<< l.subBucketHalfCountMagnitude) + kvHistGetSubBucketIndex l value bucketIndex

/-- The decoding of a counter index by shift and mask that the percentile, the mean, the snapshot
and the delta share, and the value they take for it. -/
def valueAtIndex (l : KvLayout) (i : ℕ) : ℕ :=
  kvHistValueFromIndex l (i >>> l.subBucketHalfCountMagnitude) (i &&& (l.subBucketHalfCount - 1))

/-! ### Recording and merging -/

/-- `kv_hist_record`. -/
def kvHistRecord (h : KvHist) (value : ℕ) : KvHist :=
  let value := clamp h.toKvLayout value
  let index := indexOf h.toKvLayout value
  if h.countsArrayLength ≤ index then h
  else
    { h with
      counts := Function.update h.counts index ((h.counts index + 1) % 2 ^ 64)
      totalCount := (h.totalCount + 1) % 2 ^ 64
      minValue := if value < h.minValue then value else h.minValue
      maxValue := if h.maxValue < value then value else h.maxValue }

/-- `kv_hist_merge`. -/
def kvHistMerge (dst src : KvHist) : KvHist :=
  let n := min src.countsArrayLength dst.countsArrayLength
  { dst with
    counts := fun i =>
      if i < n ∧ src.counts i ≠ 0 then (dst.counts i + src.counts i) % 2 ^ 64 else dst.counts i
    totalCount := (dst.totalCount + src.totalCount) % 2 ^ 64
    minValue := if src.minValue < dst.minValue then src.minValue else dst.minValue
    maxValue := if dst.maxValue < src.maxValue then src.maxValue else dst.maxValue }

/-- What the loops of `kv_hist_merge_snapshot` and `kv_hist_delta` do with the counter `i` once
they know that it contributes `c` samples: nothing when `c = 0`; otherwise the counter becomes
`count`, and the total and the extreme values are brought up to date. -/
def addCounter (dst : KvHist) (i count c : ℕ) : KvHist :=
  if c = 0 then dst
  else
    let value := valueAtIndex dst.toKvLayout i
    { dst with
      counts := Function.update dst.counts i count
      totalCount := (dst.totalCount + c) % 2 ^ 64
      minValue := if value < dst.minValue then value else dst.minValue
      maxValue := if dst.maxValue < value then value else dst.maxValue }

/-- The body of the loop of `kv_hist_merge_snapshot`, once the counter `i` of the source has been
loaded as `c`. -/
def mergeCounter (dst : KvHist) (i c : ℕ) : KvHist :=
  addCounter dst i ((dst.counts i + c) % 2 ^ 64) c

/-- `kv_hist_merge_snapshot` of a histogram nobody is recording into. -/
def kvHistMergeSnapshot (dst src : KvHist) : KvHist :=
  (List.range (min src.countsArrayLength dst.countsArrayLength)).foldl
    (fun d i => mergeCounter d i (src.counts i)) dst

/-- `current_count >= previous_count ? current_count - previous_count : current_count`. -/
def added (current previous : ℕ) : ℕ :=
  if previous ≤ current then current - previous else current

/-- `kv_hist_delta`. -/
def kvHistDelta (dst current previous : KvHist) : KvHist :=
  let n := min (min current.countsArrayLength previous.countsArrayLength) dst.countsArrayLength
  (List.range n).foldl
    (fun d i => addCounter d i (added (current.counts i) (previous.counts i))
      (added (current.counts i) (previous.counts i)))
    (kvHistReset dst)

/-! ### Reading out -/

/-- The rank `count_at_percentile`, from the exact product. -/
def countAtPercentile (percentile : ℚ) (total : ℕ) : ℕ :=
  let requested := if 100 < percentile then 100 else percentile
  let c := ⌊requested / 100 * total + 1 / 2⌋₊
  if c = 0 then 1 else c

/-- The scan of `kv_hist_value_at_percentile`, over the `n` counters from `i` on: the index at
which the running total reaches `rank`, or `none` when the loop ends without it. -/
def percentileScan (counts : ℕ → ℕ) (rank : ℕ) : ℕ → ℕ → ℕ → Option ℕ
  | 0, _, _ => none
  | n + 1, i, acc =>
    let acc := (acc + counts i) % 2 ^ 64
    if rank ≤ acc then some i else percentileScan counts rank n (i + 1) acc

/-- The index at which the scan of `kv_hist_value_at_percentile` stops. -/
def percentileIndex (h : KvHist) (percentile : ℚ) : Option ℕ :=
  percentileScan h.counts (countAtPercentile percentile h.totalCount) h.countsArrayLength 0 0

/-- `kv_hist_value_at_percentile`. -/
def kvHistValueAtPercentile (h : KvHist) (percentile : ℚ) : ℕ :=
  if h.totalCount = 0 then 0
  else
    match percentileIndex h percentile with
    | some i => valueAtIndex h.toKvLayout i
    | none => h.maxValue

/-- `kv_hist_min`. -/
def kvHistMin (h : KvHist) : ℕ := if h.totalCount = 0 then 0 else h.minValue

/-- `kv_hist_max`. -/
def kvHistMax (h : KvHist) : ℕ := if h.totalCount = 0 then 0 else h.maxValue

end KvBench.Hist
