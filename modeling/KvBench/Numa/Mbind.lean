import KvBench.Cli.Options
import KvBench.Numa.Topology
import KvBench.Pages.FirstTouch

/-!
# Where the buffer is (`mbind_to_node`, `setup_buffer`)

`mbind_to_node` sets a policy for the pages of a range, a gigabyte at a time, and touches them, so that
pages that have no memory yet get it on the node that is preferred. `mbindToNode_binds` says what has
become of the pages when it returns, also when the kernel refuses one of the calls. The mask it passes is
declared to have 32 bits, and the kernel takes that as one bit less, so the nodes from 31 on are not
preferred at all.

What the kernel does is not code of this repository. It is a parameter (`Kernel`), with what is assumed of
it as fields.

`setup_buffer` calls it for a buffer that `memset` has written before. All its pages have their memory by
then, and none of them moves (`setupBuffer_home`).
-/

namespace KvBench.Numa

open KvBench.Bench KvBench.Cli KvBench.Pages

/-! ### The functions of the source -/

/-- `kChunkBytes`. -/
def kChunkBytes : ℕ := 2 ^ 30

/-- `kMaxNumaNodeCount`, the `maxnode` of the call. -/
def kMaxNumaNodeCount : ℕ := 32

/-- Pages by their number, with masks of nodes as policies. -/
abbrev PageMemory := Memory ℕ ℕ ℤ

/-- The kernel, and what is assumed of it. -/
structure Kernel where
  /-- `getpagesize()`. -/
  pageSize : ℤ
  /-- The node on which a page gets its memory, by the nodes that are preferred for it. -/
  place : ℕ → Option ℕ → ℤ
  /-- Whether a call of `mbind` succeeds, by its number. -/
  mbindOk : ℕ → Bool
  /-- The effect of a call of `mbind` that succeeds. -/
  mbind (addr len mask maxnode : ℕ) : PageMemory → PageMemory
  /-- The effect of an access to a page. -/
  access (page : ℕ) : PageMemory → PageMemory
  /-- `mbind` is about the pages that start in the range, and it moves none of them. Of the mask the kernel
  reads one bit less than `maxnode`; without a node that is preferred, the memory is to be local. -/
  mbind_eq (addr len mask maxnode : ℕ) (m : PageMemory) :
    mbind addr len mask maxnode m =
      m.setPolicy (fun q => addr ≤ q * pageSize.toNat ∧ q * pageSize.toNat < addr + len)
        (mask % 2 ^ (maxnode - 1))
  /-- A page gets its memory when it is accessed for the first time. -/
  access_eq (page : ℕ) (m : PageMemory) : access page m = m.touch place page

/-- A kernel that does what is assumed, by what it decides. -/
def Kernel.lawful (pageSize : ℤ) (place : ℕ → Option ℕ → ℤ) (mbindOk : ℕ → Bool) : Kernel where
  pageSize := pageSize
  place := place
  mbindOk := mbindOk
  mbind addr len mask maxnode m :=
    m.setPolicy (fun q => addr ≤ q * pageSize.toNat ∧ q * pageSize.toNat < addr + len)
      (mask % 2 ^ (maxnode - 1))
  access page m := m.touch place page
  mbind_eq _ _ _ _ _ := rfl
  access_eq _ _ := rfl

section Source

variable (k : Kernel) (ps : ℕ)

/-- The loop over the pages of a chunk. -/
def touchLoop (base chunk : ℕ) : (left pg : ℕ) → PageMemory → PageMemory
  | 0, _, m => m
  | left + 1, pg, m =>
    if pg < chunk then touchLoop base chunk left (pg + ps) (k.access ((base + pg) / ps) m) else m

/-- The loop over the chunks; `n` calls have been made. -/
def chunkLoop (p alignedLen mask : ℕ) : (left n off : ℕ) → PageMemory → ℤ × PageMemory
  | 0, _, _, m => (0, m)
  | left + 1, n, off, m =>
    if off < alignedLen then
      let chunk := min (alignedLen - off) kChunkBytes
      if k.mbindOk n then
        chunkLoop p alignedLen mask left (n + 1) (off + chunk)
          (touchLoop k ps (p + off) chunk (chunk / ps + 1) 0
            (k.mbind (p + off) chunk mask kMaxNumaNodeCount m))
      else (-1, m)
    else (0, m)

/-- `mbind_to_node`. -/
def mbindToNode (addr len : ℕ) (node : ℤ) (m : PageMemory) : ℤ × PageMemory :=
  if node < 0 then (-1, m)
  else if k.pageSize ≤ 0 then (-1, m)
  else
    let ps := k.pageSize.toNat
    let last := (addr + len) % 2 ^ 64
    let alignedBegin := addr / ps * ps
    let alignedEnd := (last + ps - 1) % 2 ^ 64 / ps * ps
    let alignedLen := sub64 alignedEnd alignedBegin
    let mask := 1 <<< node.toNat % 2 ^ 64
    chunkLoop k ps alignedBegin alignedLen mask (alignedLen / kChunkBytes + 1) 0 0 m

/-- The first page after the range. -/
def pageEnd (addr len : ℕ) : ℕ := (addr + len + ps - 1) / ps

/-- `memset`, as the accesses to the pages of the range. -/
def memset (addr len : ℕ) (m : PageMemory) : PageMemory :=
  (List.range' (addr / ps) (pageEnd ps addr len - addr / ps)).foldl (fun m q => k.access q m) m

/-- A page has a byte of the range. -/
def Meets (addr len q : ℕ) : Prop := q * ps < addr + len ∧ addr < (q + 1) * ps

instance (addr len : ℕ) : DecidablePred (Meets ps addr len) := fun _ => inferInstanceAs (Decidable (_ ∧ _))

/-- What the functions of `Bench/CpuSelect` read of the machine. The buffer is set up before there are
workers, so the tables do not matter. -/
def Sysfs.machine (sys : Sysfs) : Machine where
  ncpu := sys.ncpu
  cpuToChip cpu := chipOfNode sys (nodeOf sys cpu)

/-- The node that `setup_buffer` binds the buffer to. -/
def bufferNode (sys : Sysfs) (args : CommandLine) (strdupOk : Bool) : Option ℤ :=
  if 1 ≤ args.singleChip ∧ args.singleChip ≤ 2 then some (firstNodeOf sys args.singleChip)
  else do
    let dstCpus ← myCpuList sys.machine ⟨args.sourceCpus, args.destinationCpus⟩ args.toArgument
      strdupOk false maxCpus
    some (match dstCpus with
      | [] => -1
      | cpu :: _ => nodeOf sys cpu)

/-- `buf_len`. -/
def bufLen (isServer : Bool) (args : CommandLine) : ℕ :=
  if isServer then serverBufLen args.toArgument else clientBufLen args.toArgument

/-- `setup_buffer`, with what `memalign`, `RegisterBuffer` and `strdup` answer. -/
def setupBuffer (sys : Sysfs) (isServer : Bool) (args : CommandLine) (va : Option ℕ)
    (registered strdupOk : Bool) (m : PageMemory) : Option (ℤ × PageMemory) :=
  match va with
  | none => some (-1, m)
  | some va =>
    let m := memset k k.pageSize.toNat va (bufLen isServer args) m
    if ¬ registered then some (-1, m)
    else if args.mbind ∧ args.affinityMode = .affinity then do
      let node ← bufferNode sys args strdupOk
      if 0 ≤ node then some (0, (mbindToNode k va (bufLen isServer args) node m).2) else some (0, m)
    else some (0, m)

end Source

/-! ### One chunk -/

section Chunk

variable {k : Kernel} {ps : ℕ}

theorem touchLoop_eq (hps : 0 < ps) {a c : ℕ} {left pg : ℕ} (hpg : pg ≤ c) (hleft : c - pg ≤ left)
    (m : PageMemory) :
    touchLoop k ps (a * ps) (c * ps) left (pg * ps) m =
      m.touchAll k.place fun q => a + pg ≤ q ∧ q < a + c := by
  induction left generalizing pg m with
  | zero =>
    refine (Memory.touchAll_of_not fun q hq => ?_).symm
    omega
  | succ left ih =>
    by_cases hlt : pg < c
    · have hpage : (a * ps + pg * ps) / ps = a + pg := by
        rw [← Nat.add_mul, Nat.mul_div_cancel _ hps]
      have hnext : pg * ps + ps = (pg + 1) * ps := by ring
      unfold touchLoop
      rw [if_pos (Nat.mul_lt_mul_of_pos_right hlt hps), hpage, hnext, ih (by omega) (by omega),
        k.access_eq, Memory.touch_eq_touchAll]
      exact Memory.touchAll_touchAll fun q => by omega
    · have hge : ¬ pg * ps < c * ps := by
        rw [Nat.mul_lt_mul_right hps]
        exact hlt
      unfold touchLoop
      rw [if_neg hge]
      refine (Memory.touchAll_of_not fun q hq => ?_).symm
      omega

theorem mbind_pages (hps : 0 < ps) (hk : k.pageSize = ps) (a c mask maxnode : ℕ) (m : PageMemory) :
    k.mbind (a * ps) (c * ps) mask maxnode m =
      m.setPolicy (fun q => a ≤ q ∧ q < a + c) (mask % 2 ^ (maxnode - 1)) := by
  rw [k.mbind_eq, hk, Int.toNat_natCast]
  ext1 q
  · rw [Memory.setPolicy_policy, Memory.setPolicy_policy]
    have hle : a * ps ≤ q * ps ↔ a ≤ q := Nat.mul_le_mul_right_iff hps
    have hlt : q * ps < a * ps + c * ps ↔ q < a + c := by
      rw [← Nat.add_mul, Nat.mul_lt_mul_right hps]
    simp only [hle, hlt]
  · rfl

/-- **A chunk** binds its pages, to what the kernel reads of the mask. -/
theorem chunk_eq (hps : 0 < ps) (hk : k.pageSize = ps) (a c mask maxnode : ℕ) (m : PageMemory) :
    touchLoop k ps (a * ps) (c * ps) (c * ps / ps + 1) 0 (k.mbind (a * ps) (c * ps) mask maxnode m) =
      m.bind k.place (fun q => a ≤ q ∧ q < a + c) (mask % 2 ^ (maxnode - 1)) := by
  have htouch := touchLoop_eq (k := k) hps (a := a) (Nat.zero_le c)
    (show c - 0 ≤ c * ps / ps + 1 by rw [Nat.mul_div_cancel _ hps]; omega)
    (k.mbind (a * ps) (c * ps) mask maxnode m)
  rw [Nat.zero_mul] at htouch
  rw [htouch, mbind_pages hps hk]
  rfl

end Chunk

/-! ### All chunks -/

/-- The number of successes before the first failure, in the calls from `n` on. -/
def granted (ok : ℕ → Bool) (n calls : ℕ) : ℕ := ((List.range' n calls).takeWhile ok).length

theorem granted_zero (ok : ℕ → Bool) (n : ℕ) : granted ok n 0 = 0 := rfl

theorem granted_succ (ok : ℕ → Bool) (n calls : ℕ) :
    granted ok n (calls + 1) = if ok n then granted ok (n + 1) calls + 1 else 0 := by
  unfold granted
  rw [List.range'_succ, List.takeWhile_cons]
  split <;> simp

theorem granted_all {ok : ℕ → Bool} {calls : ℕ} (h : ∀ n < calls, ok n = true) :
    granted ok 0 calls = calls := by
  unfold granted
  rw [List.takeWhile_eq_self_iff.2, List.length_range']
  intro n hn
  obtain ⟨i, hi, rfl⟩ := List.mem_range'.1 hn
  exact h _ (by omega)

theorem granted_until {ok : ℕ → Bool} {calls n : ℕ} (hn : n < calls) (h : ∀ i < n, ok i = true)
    (hfail : ok n = false) : granted ok 0 calls = n := by
  have hsplit : List.range' 0 calls = List.range' 0 n ++ List.range' n (calls - n) := by
    have h := List.range'_append_1 (s := 0) (m := n) (n := calls - n)
    rw [Nat.zero_add, Nat.add_sub_cancel' hn.le] at h
    exact h.symm
  obtain ⟨c, hc⟩ : ∃ c, calls - n = c + 1 := ⟨calls - n - 1, by omega⟩
  have hall := granted_all h
  unfold granted at hall ⊢
  rw [hsplit, hc, List.range'_succ, List.takeWhile_append, hall, List.length_range', if_pos rfl,
    List.takeWhile_cons, hfail, if_neg (by decide), List.append_nil, List.length_range']

/-- The number of chunks of `K` pages for `l` pages. -/
def chunkCount (K l : ℕ) : ℕ := (l + K - 1) / K

theorem chunkCount_zero {K : ℕ} (hK : 0 < K) : chunkCount K 0 = 0 := Nat.div_eq_of_lt (by omega)

theorem chunkCount_succ {K l : ℕ} (hK : 0 < K) (hl : 0 < l) :
    chunkCount K l = chunkCount K (l - min l K) + 1 := by
  unfold chunkCount
  rcases le_total l K with hle | hle
  · have hone : (l + K - 1) / K = 1 := Nat.div_eq_of_lt_le (by omega) (by omega)
    rw [min_eq_left hle, Nat.sub_self, Nat.zero_add, hone, Nat.div_eq_of_lt (by omega)]
  · rw [min_eq_right hle, ← Nat.add_div_right _ hK]
    congr 1
    omega

theorem le_chunkCount {K : ℕ} (hK : 0 < K) (l : ℕ) : l ≤ chunkCount K l * K := by
  have h := Nat.lt_div_mul_add hK (a := l + K - 1)
  unfold chunkCount
  omega

theorem chunkCount_le (K l : ℕ) : chunkCount K l ≤ l / K + 1 := by
  unfold chunkCount
  rcases Nat.eq_zero_or_pos K with rfl | hK
  · simp
  · rw [← Nat.add_div_right _ hK]
    exact Nat.div_le_div_right (by omega)

section Chunks

variable {k : Kernel} {ps : ℕ}

/-- **All chunks.** With `K` pages in a whole chunk, `l` pages in all and `o` of them done, the loop goes
on for as many chunks as the calls are granted. -/
theorem chunkLoop_eq (hps : 0 < ps) (hk : k.pageSize = ps) {K : ℕ} (hK : 0 < K)
    (hchunk : kChunkBytes = K * ps) {a l : ℕ} {left n o : ℕ} (hleft : chunkCount K (l - o) ≤ left) (mask : ℕ) (m : PageMemory) :
    chunkLoop k ps (a * ps) (l * ps) mask left n (o * ps) m =
      (if granted k.mbindOk n (chunkCount K (l - o)) = chunkCount K (l - o) then 0 else -1,
        m.bind k.place (fun q => a + o ≤ q ∧ q < a + l ∧
          q < a + o + granted k.mbindOk n (chunkCount K (l - o)) * K)
          (mask % 2 ^ (kMaxNumaNodeCount - 1))) := by
  induction left generalizing n o m with
  | zero =>
    have hdone : l - o = 0 := by
      have hle := le_chunkCount hK (l - o)
      rw [Nat.le_zero.1 hleft, Nat.zero_mul] at hle
      omega
    unfold chunkLoop
    rw [hdone, chunkCount_zero hK, granted_zero, if_pos rfl, Memory.bind_of_not fun q hq => by omega]
  | succ left ih =>
    by_cases hlt : o < l
    · have hoff : o * ps < l * ps := Nat.mul_lt_mul_of_pos_right hlt hps
      have hmin : min (l * ps - o * ps) kChunkBytes = min (l - o) K * ps := by
        rw [hchunk, ← Nat.sub_mul, Nat.mul_min_mul_right]
      have hcalls := chunkCount_succ hK (l := l - o) (by omega)
      have hrest : l - o - min (l - o) K = l - (o + min (l - o) K) := by omega
      rw [hrest] at hcalls
      unfold chunkLoop
      rw [if_pos hoff, hcalls, granted_succ]
      dsimp only
      by_cases hok : k.mbindOk n
      · rw [if_pos hok, if_pos hok, hmin, ← Nat.add_mul, ← Nat.add_mul, chunk_eq hps hk, ih (by omega)]
        simp only [Nat.add_right_cancel_iff]
        congr 1
        refine Memory.bind_bind fun q => ?_
        generalize granted k.mbindOk (n + 1) (chunkCount K (l - (o + min (l - o) K))) = g
        rw [Nat.add_mul]
        rcases le_total (l - o) K with hle | hle
        · rw [min_eq_left hle]
          omega
        · rw [min_eq_right hle]
          omega
      · rw [if_neg hok, if_neg hok, if_neg (by omega), Memory.bind_of_not fun q hq => by omega]
    · have hge : ¬ o * ps < l * ps := by
        rw [Nat.mul_lt_mul_right hps]
        exact hlt
      unfold chunkLoop
      rw [if_neg hge, Nat.sub_eq_zero_of_le (not_lt.1 hlt), chunkCount_zero hK, granted_zero, if_pos rfl,
        Memory.bind_of_not fun q hq => by omega]

/-- The number of calls of `mbind` that it takes to bind the range. -/
def mbindCalls (ps addr len : ℕ) : ℕ := chunkCount (kChunkBytes / ps) (pageEnd ps addr len - addr / ps)

theorem meets_iff (hps : 0 < ps) {addr len : ℕ} (hlen : 0 < len) (q : ℕ) :
    Meets ps addr len q ↔ addr / ps ≤ q ∧ q < pageEnd ps addr len := by
  unfold Meets pageEnd
  rw [← Nat.lt_add_one_iff (m := addr / ps), Nat.div_lt_iff_lt_mul hps, Nat.lt_div_iff_mul_lt hps]
  omega

theorem foldl_access (k : Kernel) (a n : ℕ) (m : PageMemory) :
    (List.range' a n).foldl (fun m q => k.access q m) m =
      m.touchAll k.place fun q => a ≤ q ∧ q < a + n := by
  induction n with
  | zero => exact (Memory.touchAll_of_not fun q hq => by omega).symm
  | succ n ih =>
    rw [List.range'_1_concat, List.foldl_append, ih, List.foldl_cons, List.foldl_nil, k.access_eq,
      Memory.touch_eq_touchAll]
    exact Memory.touchAll_touchAll fun q => by omega

theorem memset_eq (hps : 0 < ps) {addr len : ℕ} (hlen : 0 < len) (m : PageMemory) :
    memset k ps addr len m = m.touchAll k.place (Meets ps addr len) := by
  have hle : addr / ps ≤ pageEnd ps addr len := Nat.div_le_div_right (by omega)
  unfold memset
  rw [foldl_access]
  refine Memory.touchAll_congr fun q => ?_
  rw [meets_iff hps hlen]
  omega

/-- The pages that `n` chunks come to. -/
def Reached (ps addr len n q : ℕ) : Prop :=
  Meets ps addr len q ∧ q * ps < addr / ps * ps + n * kChunkBytes

instance (ps addr len n : ℕ) : DecidablePred (Reached ps addr len n) :=
  fun _ => inferInstanceAs (Decidable (_ ∧ _))

theorem reached_iff (hps : 0 < ps) (hdvd : ps ∣ kChunkBytes) {addr len n : ℕ} (hlen : 0 < len) (q : ℕ) :
    Reached ps addr len n q ↔ addr / ps ≤ q ∧ q < pageEnd ps addr len ∧
      q < addr / ps + n * (kChunkBytes / ps) := by
  have hK : n * kChunkBytes = n * (kChunkBytes / ps) * ps := by
    rw [Nat.mul_assoc, Nat.div_mul_cancel hdvd]
  unfold Reached
  rw [meets_iff hps hlen, hK, ← Nat.add_mul, Nat.mul_lt_mul_right hps, and_assoc]

/-- When all calls have been granted, all pages of the range have been reached. -/
theorem reached_all (hps : 0 < ps) (hdvd : ps ∣ kChunkBytes) {addr len : ℕ} (hlen : 0 < len) (q : ℕ) :
    Reached ps addr len (mbindCalls ps addr len) q ↔ Meets ps addr len q := by
  have hK : 0 < kChunkBytes / ps := Nat.div_pos (Nat.le_of_dvd (by decide) hdvd) hps
  have hle := le_chunkCount hK (pageEnd ps addr len - addr / ps)
  rw [reached_iff hps hdvd hlen, meets_iff hps hlen]
  unfold mbindCalls
  omega

theorem mbindToNode_eq (hps : 0 < ps) (hk : k.pageSize = ps) (hdvd : ps ∣ kChunkBytes) {addr len : ℕ}
    (hlen : 0 < len) (hfit : addr + len + ps ≤ 2 ^ 64) {node : ℤ} (hnode : 0 ≤ node) (m : PageMemory) :
    mbindToNode k addr len node m =
      (if granted k.mbindOk 0 (mbindCalls ps addr len) = mbindCalls ps addr len then 0 else -1,
        m.bind k.place (Reached ps addr len (granted k.mbindOk 0 (mbindCalls ps addr len)))
          (1 <<< node.toNat % 2 ^ 64 % 2 ^ (kMaxNumaNodeCount - 1))) := by
  have hK : 0 < kChunkBytes / ps := Nat.div_pos (Nat.le_of_dvd (by decide) hdvd) hps
  have hchunk : kChunkBytes = kChunkBytes / ps * ps := (Nat.div_mul_cancel hdvd).symm
  have hlast : (addr + len) % 2 ^ 64 = addr + len := Nat.mod_eq_of_lt (by omega)
  have hround : (addr + len + ps - 1) % 2 ^ 64 = addr + len + ps - 1 := Nat.mod_eq_of_lt (by omega)
  have hbegin : addr / ps * ps ≤ addr := Nat.div_mul_le_self _ _
  have hend : pageEnd ps addr len * ps ≤ addr + len + ps - 1 := Nat.div_mul_le_self _ _
  have hle : addr / ps ≤ pageEnd ps addr len := Nat.div_le_div_right (by omega)
  have hsub : sub64 (pageEnd ps addr len * ps) (addr / ps * ps) =
      (pageEnd ps addr len - addr / ps) * ps := by
    have hmul := Nat.mul_le_mul_right ps hle
    unfold sub64
    rw [Nat.sub_mul]
    omega
  unfold mbindToNode
  rw [if_neg (by omega), if_neg (by omega), hk, Int.toNat_natCast]
  dsimp only
  rw [hlast, hround]
  change chunkLoop k ps _ (sub64 (pageEnd ps addr len * ps) _) _ (sub64 (pageEnd ps addr len * ps) _ / _ + 1)
    0 0 m = _
  have hfuel : chunkCount (kChunkBytes / ps) (pageEnd ps addr len - addr / ps - 0) ≤
      (pageEnd ps addr len - addr / ps) * ps / kChunkBytes + 1 := by
    nth_rewrite 2 [hchunk]
    rw [Nat.mul_div_mul_right _ _ hps]
    exact chunkCount_le _ _
  have hloop := chunkLoop_eq (k := k) hps hk hK hchunk (a := addr / ps) (n := 0) hfuel
    (1 <<< node.toNat % 2 ^ 64) m
  rw [Nat.zero_mul, Nat.sub_zero] at hloop
  rw [hsub, hloop]
  refine Prod.ext rfl (Memory.bind_congr fun q => ?_)
  rw [reached_iff hps hdvd hlen]
  unfold mbindCalls
  omega

end Chunks

/-! ### What is bound -/

/-- What the kernel reads of the mask for a node. -/
theorem mask_eq {node : ℤ} (hnode : 0 ≤ node ∧ node < 64) :
    1 <<< node.toNat % 2 ^ 64 % 2 ^ (kMaxNumaNodeCount - 1) =
      if node < 31 then 2 ^ node.toNat else 0 := by
  have hlt : (2 : ℕ) ^ node.toNat < 2 ^ 64 := Nat.pow_lt_pow_right (by norm_num) (by omega)
  rw [Nat.one_shiftLeft, Nat.mod_eq_of_lt hlt]
  show 2 ^ node.toNat % 2 ^ 31 = _
  by_cases hn : node < 31
  · rw [if_pos hn]
    exact Nat.mod_eq_of_lt (Nat.pow_lt_pow_right (by norm_num) (by omega))
  · rw [if_neg hn]
    exact Nat.mod_eq_zero_of_dvd (Nat.pow_dvd_pow 2 (by omega))

/-- **`mbind_to_node`** binds the pages that have a byte of the range, if the kernel grants all calls:
their policy is set, and those that had no memory get it under this policy. Otherwise it returns `-1` and
has bound the pages of the gigabytes before the call that failed. The node is preferred if it is below 31;
for the others no node is. -/
theorem mbindToNode_binds (k : Kernel) (ps addr len : ℕ) (node : ℤ) (m : PageMemory)
    (hps : 0 < ps) (hk : k.pageSize = ps) (hdvd : ps ∣ kChunkBytes) (hlen : 0 < len)
    (hfit : addr + len + ps ≤ 2 ^ 64) (hnode : 0 ≤ node ∧ node < 64) :
    ((∀ n < mbindCalls ps addr len, k.mbindOk n = true) →
      mbindToNode k addr len node m =
        (0, m.bind k.place (Meets ps addr len) (if node < 31 then 2 ^ node.toNat else 0))) ∧
    ∀ n < mbindCalls ps addr len, (∀ i < n, k.mbindOk i = true) → k.mbindOk n = false →
      mbindToNode k addr len node m =
        (-1, m.bind k.place (Reached ps addr len n) (if node < 31 then 2 ^ node.toNat else 0)) := by
  rw [mbindToNode_eq hps hk hdvd hlen hfit hnode.1, mask_eq hnode]
  refine ⟨fun hall => ?_, fun n hn hbefore hfail => ?_⟩
  · rw [granted_all hall, if_pos rfl]
    exact Prod.ext rfl (Memory.bind_congr (reached_all hps hdvd hlen))
  · rw [granted_until hn hbefore hfail, if_neg hn.ne]

/-- Two gigabytes and a byte, from the middle of a page on: on node `1`, where the kernel refuses the third
call, and on node `40`, where it grants all calls and no node is preferred. -/
theorem mbindToNode_binds_refused :
    mbindToNode (.lawful 4096 (fun _ _ => 1) fun n => decide (n < 2)) 6000 (2 ^ 31 + 1) 1
        ⟨fun _ => none, fun _ => none⟩ =
      (-1, Memory.bind (fun _ _ => 1) ⟨fun _ => none, fun _ => none⟩
        (Reached 4096 6000 (2 ^ 31 + 1) 2) 2) ∧
    mbindToNode (.lawful 4096 (fun _ _ => 1) fun _ => true) 6000 (2 ^ 31 + 1) 40
        ⟨fun _ => none, fun _ => none⟩ =
      (0, Memory.bind (fun _ _ => 1) ⟨fun _ => none, fun _ => none⟩
        (Meets 4096 6000 (2 ^ 31 + 1)) 0) :=
  ⟨(mbindToNode_binds (.lawful 4096 (fun _ _ => 1) fun n => decide (n < 2)) 4096 6000 (2 ^ 31 + 1) 1
      ⟨fun _ => none, fun _ => none⟩ (by decide) rfl (by decide) (by decide) (by decide) (by decide)).2 2
      (by decide) (by decide) (by decide),
    (mbindToNode_binds (.lawful 4096 (fun _ _ => 1) fun _ => true) 4096 6000 (2 ^ 31 + 1) 40
      ⟨fun _ => none, fun _ => none⟩ (by decide) rfl (by decide) (by decide) (by decide) (by decide)).1
      fun _ _ => rfl⟩

/-! ### The buffer -/

theorem le_roundUp {x a : ℕ} (ha : 0 < a) (hx : x + a ≤ 2 ^ 64) : x ≤ roundUp x a := by
  have h := Nat.lt_div_mul_add ha (a := x + a - 1)
  unfold roundUp
  rw [Nat.mod_eq_of_lt (by omega)]
  omega

/-- At most so many blocks, each of a size that fits in 32 bits. -/
theorem blocks_range {n size : ℕ} (hn : 0 < n) (hn' : n ≤ 51200) (hsize : 0 < size)
    (hsize' : size < 2 ^ 32) : 0 < n * size % 2 ^ 64 ∧ n * size % 2 ^ 64 < 2 ^ 63 := by
  have hpos : 0 < n * size := Nat.mul_pos hn hsize
  have hle : n * size ≤ 51200 * 2 ^ 32 := Nat.mul_le_mul hn' hsize'.le
  rw [Nat.mod_eq_of_lt (by omega)]
  omega

theorem serverDataLen_range {args : Argument} (hacc : Accepted args) :
    0 < serverDataLen args ∧ serverDataLen args < 2 ^ 63 := by
  unfold serverDataLen
  cases args.op with
  | write => exact blocks_range (by decide) (by decide) hacc.sendSize_pos hacc.sendSize_lt
  | get => exact blocks_range (by decide) (by decide) hacc.valueSize_pos hacc.valueSize_lt
  | mixed => exact blocks_range (by decide) (by decide) hacc.valueSize_pos hacc.valueSize_lt

theorem clientDataLen_range {args : Argument} (hacc : Accepted args) :
    0 < clientDataLen args ∧ clientDataLen args < 2 ^ 63 := by
  have hthreads := hacc.threads_pos
  have hthreads' := hacc.threads_le
  have hconc := hacc.concurrency_pos
  have hconc' := hacc.concurrency_le
  unfold clientDataLen
  dsimp only
  generalize hw : (if args.op ≠ .mixed ∧ 0 < args.concurrency then args.concurrency.toNat else 1) = w
  have hw0 : 0 < w ∧ w ≤ 10 := by
    split_ifs at hw <;> omega
  have hpos : 0 < args.threads * w := Nat.mul_pos hthreads hw0.1
  have hle : args.threads * w ≤ 512 * 10 := Nat.mul_le_mul hthreads' hw0.2
  cases args.op with
  | write => exact blocks_range hpos (by omega) hacc.sendSize_pos hacc.sendSize_lt
  | get =>
    dsimp only
    rw [Nat.mul_right_comm]
    unfold kvSendsPerReq
    exact blocks_range (by omega) (by omega) hacc.valueSize_pos hacc.valueSize_lt
  | mixed =>
    unfold dataWindowPerThread
    exact blocks_range (by omega) (by omega) hacc.valueSize_pos hacc.valueSize_lt

theorem bufLen_pos (isServer : Bool) {args : CommandLine}
    (hargs : validateInputParams args.toArgument = .ok ()) : 0 < bufLen isServer args := by
  have hacc := validateInputParams_accepted hargs
  have hround : ∀ len, 0 < len ∧ len < 2 ^ 63 → 0 < roundUp len pageSize := fun len hlen =>
    hlen.1.trans_le (le_roundUp (by decide) (by unfold pageSize; omega))
  cases isServer with
  | false => exact hround _ (clientDataLen_range hacc)
  | true => exact hround _ (serverDataLen_range hacc)

section Buffer

variable {k : Kernel} {ps : ℕ}

/-- Whatever the answers are, `mbind_to_node` moves no page that has its memory. -/
theorem mbindToNode_home (hps : 0 < ps) (hk : k.pageSize = ps) (hdvd : ps ∣ kChunkBytes) {addr len : ℕ}
    (hlen : 0 < len) (hfit : addr + len + ps ≤ 2 ^ 64) {node : ℤ} (hnode : 0 ≤ node) {m : PageMemory}
    (hm : ∀ q, Meets ps addr len q → m.home q ≠ none) :
    (mbindToNode k addr len node m).2.home = m.home := by
  rw [mbindToNode_eq hps hk hdvd hlen hfit hnode]
  exact Memory.bind_touched fun q hq => hm q hq.1

end Buffer

/-- `auto_select_cpus` never divides by zero. -/
theorem autoSelectCpus_returns (m : Machine) (args : Argument) (isClient : Bool) (maxOut : ℕ) :
    ∃ cpus, autoSelectCpus m args isClient maxOut = some cpus := by
  cases haff : args.affinityMode with
  | affinity =>
    obtain ⟨c1, c2, -, -, hout⟩ := autoSelectCpus_pools m isClient haff maxOut
    dsimp only at hout
    split_ifs at hout with hnil
    · exact ⟨_, hout⟩
    · exact ⟨_, hout⟩
  | anti =>
    unfold autoSelectCpus
    rw [haff]
    exact ⟨_, rfl⟩
  | none =>
    unfold autoSelectCpus
    rw [haff]
    exact ⟨_, rfl⟩

theorem myCpuList_returns (m : Machine) (opts : CpuOptions) (args : Argument)
    (strdupOk isClient : Bool) (maxOut : ℕ) :
    ∃ cpus, myCpuList m opts args strdupOk isClient maxOut = some cpus := by
  unfold myCpuList
  dsimp only
  generalize parseCpuList maxOut strdupOk _ = cpus
  by_cases hcpus : cpus = []
  · rw [if_neg (not_not.2 hcpus)]
    exact autoSelectCpus_returns m args isClient maxOut
  · rw [if_pos hcpus]
    exact ⟨cpus, rfl⟩

theorem bufferNode_returns (sys : Sysfs) (args : CommandLine) (strdupOk : Bool) :
    ∃ node, bufferNode sys args strdupOk = some node := by
  obtain ⟨cpus, hcpus⟩ := myCpuList_returns sys.machine ⟨args.sourceCpus, args.destinationCpus⟩
    args.toArgument strdupOk false maxCpus
  unfold bufferNode
  split_ifs
  · exact ⟨_, rfl⟩
  · rw [hcpus]
    exact ⟨_, rfl⟩

theorem setupBuffer_returns (k : Kernel) (sys : Sysfs) (isServer : Bool) (args : CommandLine)
    (va : Option ℕ) (registered strdupOk : Bool) (m : PageMemory) :
    ∃ rc m', setupBuffer k sys isServer args va registered strdupOk m = some (rc, m') := by
  obtain ⟨node, hnode⟩ := bufferNode_returns sys args strdupOk
  cases va with
  | none => exact ⟨-1, m, rfl⟩
  | some v =>
    unfold setupBuffer
    dsimp only
    rw [hnode, Option.bind_eq_bind, Option.bind_some]
    split_ifs
    · exact ⟨_, _, rfl⟩
    · exact ⟨_, _, rfl⟩
    · exact ⟨_, _, rfl⟩
    · exact ⟨_, _, rfl⟩

/-- Where the pages of the buffer are when `setup_buffer` has returned. -/
theorem home_of_setupBuffer {k : Kernel} {ps : ℕ} {sys : Sysfs} {isServer : Bool} {args : CommandLine}
    {va : Option ℕ} {registered strdupOk : Bool} {m m' : PageMemory} {rc : ℤ}
    (hps : 0 < ps) (hk : k.pageSize = ps) (hdvd : ps ∣ kChunkBytes)
    (hargs : validateInputParams args.toArgument = .ok ())
    (hfit : ∀ v, va = some v → v + bufLen isServer args + ps ≤ 2 ^ 64)
    (hrun : setupBuffer k sys isServer args va registered strdupOk m = some (rc, m')) :
    (rc = 0 ↔ va ≠ none ∧ registered = true) ∧
      m'.home = (va.elim m fun v => m.touchAll k.place (Meets ps v (bufLen isServer args))).home := by
  cases va with
  | none =>
    obtain ⟨rfl, rfl⟩ := Prod.mk.inj (Option.some.inj hrun)
    exact ⟨by simp, rfl⟩
  | some v =>
    have hlen := bufLen_pos isServer hargs
    have hfit := hfit v rfl
    unfold setupBuffer at hrun
    dsimp only [Option.elim] at hrun ⊢
    rw [hk, Int.toNat_natCast, memset_eq hps hlen] at hrun
    generalize hm₁ : m.touchAll k.place (Meets ps v (bufLen isServer args)) = m₁ at hrun ⊢
    have htouched : ∀ q, Meets ps v (bufLen isServer args) q → m₁.home q ≠ none := by
      intro q hq
      rw [← hm₁, Memory.touchAll_home, if_pos hq]
      exact Option.some_ne_none _
    by_cases hreg : registered = true
    · rw [if_neg (not_not.2 hreg)] at hrun
      split_ifs at hrun with hbind
      · obtain ⟨node, -, hrun⟩ := Option.bind_eq_some_iff.1 hrun
        split_ifs at hrun with hnode
        · obtain ⟨rfl, rfl⟩ := Prod.mk.inj (Option.some.inj hrun)
          exact ⟨by simp [hreg], mbindToNode_home hps hk hdvd hlen hfit hnode htouched⟩
        · obtain ⟨rfl, rfl⟩ := Prod.mk.inj (Option.some.inj hrun)
          exact ⟨by simp [hreg], rfl⟩
      · obtain ⟨rfl, rfl⟩ := Prod.mk.inj (Option.some.inj hrun)
        exact ⟨by simp [hreg], rfl⟩
    · rw [if_pos hreg] at hrun
      obtain ⟨rfl, rfl⟩ := Prod.mk.inj (Option.some.inj hrun)
      exact ⟨by simp [hreg], rfl⟩

/-- **The policy comes too late.** Whatever the options are and whatever the kernel answers, the pages of
the buffer are where `memset` has put them, under the policy they had before; so `--mbind` has no effect on
them. That binding fails does not count as a failure either. -/
theorem setupBuffer_home (k : Kernel) (ps : ℕ) (sys : Sysfs) (isServer : Bool) (args : CommandLine)
    (va : Option ℕ) (registered strdupOk : Bool) (m : PageMemory)
    (hps : 0 < ps) (hk : k.pageSize = ps) (hdvd : ps ∣ kChunkBytes)
    (hargs : validateInputParams args.toArgument = .ok ())
    (hfit : ∀ v, va = some v → v + bufLen isServer args + ps ≤ 2 ^ 64) :
    ∃ rc m', setupBuffer k sys isServer args va registered strdupOk m = some (rc, m') ∧
      (rc = 0 ↔ va ≠ none ∧ registered = true) ∧
      m'.home = (va.elim m fun v => m.touchAll k.place (Meets ps v (bufLen isServer args))).home := by
  obtain ⟨rc, m', hrun⟩ := setupBuffer_returns k sys isServer args va registered strdupOk m
  exact ⟨rc, m', hrun, home_of_setupBuffer hps hk hdvd hargs hfit hrun⟩

/-- The options of a server with one device. -/
def exampleServer : CommandLine := { defaults with devName := some ['d'], singleChip := 1 }

/-- A kernel with two nodes, that places a page on node `1` if nothing else has been asked for. -/
def exampleKernel : Kernel :=
  .lawful 4096 (fun _ nodes => if nodes = some 1 then 0 else 1) fun _ => true

/-- Node `0` is the first node of chip 1; the buffer is bound to it, and stays on node `1`. -/
theorem setupBuffer_home_server :
    bufferNode ⟨1, fun _ => none⟩ exampleServer true = some 0 ∧
      ∃ m, setupBuffer exampleKernel ⟨1, fun _ => none⟩ true exampleServer (some 4096) true true
          ⟨fun _ => none, fun _ => none⟩ = some (0, m) ∧ m.home 1 = some 1 := by
  obtain ⟨rc, m, hrun, hrc, hhome⟩ := setupBuffer_home exampleKernel 4096 ⟨1, fun _ => none⟩ true
    exampleServer (some 4096) true true ⟨fun _ => none, fun _ => none⟩ (by decide) rfl (by decide) rfl
    fun v hv => by cases hv; decide
  obtain rfl := hrc.2 ⟨Option.some_ne_none _, rfl⟩
  refine ⟨rfl, m, hrun, ?_⟩
  rw [hhome]
  decide

end KvBench.Numa
