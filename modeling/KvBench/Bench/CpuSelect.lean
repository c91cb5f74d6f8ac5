import KvBench.Bench.Chips
import KvBench.Bench.CpuList
import KvBench.Order.Shuffle

/-!
# The choice of CPUs

Without an explicit list and in affinity mode, the CPUs of the workers are drawn from the two chips,
half of them from each: the pool of each chip is shuffled partially, and both shuffles draw from one
generator. The poll thread gets a CPU that no worker has, for which the choice of the workers is made
once more, from the same seed.

The machine is a parameter. A remainder by zero and an access beyond the end of an array are
failures (`none`), so that a result also says that neither occurs.
-/

namespace KvBench.Bench

open KvBench.Order

/-! ### The functions of the source -/

/-- What the source reads of the machine. -/
structure Machine where
  /-- `sysconf(_SC_NPROCESSORS_CONF)`. -/
  ncpu : ℕ
  /-- `cpu_to_chip`; negative when the chip is not known. -/
  cpuToChip : ℤ → ℤ

/-- The options `--source-cpus` and `--destination-cpus`. -/
structure CpuOptions where
  sourceCpus : Option (List Char)
  destinationCpus : Option (List Char)

/-- `enumerate_all_cpus`. -/
def enumerateAllCpus (m : Machine) (maxOut : ℕ) : List ℤ :=
  (List.range (min m.ncpu maxOut)).map Nat.cast

/-- The CPUs of a chip, as the first loop of `auto_select_cpus` collects them. -/
def chipPool (m : Machine) (chip : ℤ) : List ℤ :=
  (enumerateAllCpus m maxCpus).filter (m.cpuToChip · = chip)

/-- `target` of `auto_select_cpus`. -/
def targetCpus (args : Argument) (isClient : Bool) : ℕ :=
  let target := if 0 < args.threads then args.threads else 1
  if isClient = false ∧ 8 < target then 8 else target

/-- `per` of `auto_select_cpus`. -/
def perChip (args : Argument) (isClient : Bool) : ℕ :=
  let per := (targetCpus args isClient + 1) % 2 ^ 32 / 2
  if per < 1 then 1 else per

/-- One of the two shuffles of `auto_select_cpus`. -/
def shufflePool (per : ℕ) (pool : List ℤ) (rng : ℕ) : Option (List ℤ × ℕ) :=
  shuffleFrom rngNext id (min pool.length per) 0 pool rng

/-- `auto_select_cpus`: what it writes to `out`, which has room for `maxOut` CPUs. -/
def autoSelectCpus (m : Machine) (args : Argument) (isClient : Bool) (maxOut : ℕ) :
    Option (List ℤ) :=
  match args.affinityMode with
  | .affinity => do
    let per := perChip args isClient
    let (c1, rng) ← shufflePool per (chipPool m 1) (args.seed ^^^ 0x9e3779b9)
    let (c2, _) ← shufflePool per (chipPool m 2) rng
    let out := (c1.take per ++ c2.take per).take maxOut
    if out = [] then some (enumerateAllCpus m maxOut) else some out
  | _ => some (enumerateAllCpus m maxOut)

/-- `my_cpu_list`. -/
def myCpuList (m : Machine) (opts : CpuOptions) (args : Argument) (strdupOk isClient : Bool)
    (maxOut : ℕ) : Option (List ℤ) :=
  let list := if isClient then opts.sourceCpus else opts.destinationCpus
  let cpus := parseCpuList maxOut strdupOk list
  if cpus ≠ [] then some cpus else autoSelectCpus m args isClient maxOut

/-- `auto_poll_cpu`. -/
def autoPollCpu (m : Machine) (opts : CpuOptions) (args : Argument) (strdupOk isClient : Bool) :
    Option ℤ := do
  let used ← myCpuList m opts args strdupOk isClient maxCpus
  let free := (enumerateAllCpus m maxCpus).filter (· ∉ used)
  if free = [] then some (-1)
  else
    let r ← checkedMod (rngNext (args.seed ^^^ 0x51ed270b)) free.length
    free[r]?

/-! ### What a selection is -/

/-- The number of CPUs on a chip. -/
def Machine.cpusOn (m : Machine) (chip : ℤ) : ℕ :=
  (List.range m.ncpu).countP fun c : ℕ => m.cpuToChip c = chip

/-- A choice of up to `per` CPUs from each chip, those of the first chip first; all CPUs when no
chip has any. -/
structure Selection (m : Machine) (per : ℕ) (cpus : List ℤ) : Prop where
  nodup : cpus.Nodup
  exist : ∀ c ∈ cpus, 0 ≤ c ∧ c < m.ncpu
  chips : m.cpusOn 1 ≠ 0 ∨ m.cpusOn 2 ≠ 0 → ∃ l1 l2, cpus = l1 ++ l2 ∧
    l1.length = min per (m.cpusOn 1) ∧ (∀ c ∈ l1, m.cpuToChip c = 1) ∧
    l2.length = min per (m.cpusOn 2) ∧ (∀ c ∈ l2, m.cpuToChip c = 2)
  all : m.cpusOn 1 = 0 → m.cpusOn 2 = 0 → ∀ c : ℤ, 0 ≤ c → c < m.ncpu → c ∈ cpus

/-- A CPU for the poll thread next to the CPUs in use: an existing one that is not among them, or
`-1` if there is none. -/
structure PollChoice (m : Machine) (used : List ℤ) (poll : ℤ) : Prop where
  none_iff : poll = -1 ↔ ∀ c : ℤ, 0 ≤ c → c < m.ncpu → c ∈ used
  unused : poll ≠ -1 → 0 ≤ poll ∧ poll < m.ncpu ∧ poll ∉ used

/-! ### The pools -/

section Pools

variable {m : Machine}

theorem mem_enumerateAllCpus {maxOut : ℕ} {c : ℤ} :
    c ∈ enumerateAllCpus m maxOut ↔ 0 ≤ c ∧ c < m.ncpu ∧ c < maxOut := by
  simp only [enumerateAllCpus, List.mem_map, List.mem_range]
  constructor
  · rintro ⟨k, hk, rfl⟩
    omega
  · rintro ⟨h0, h1, h2⟩
    exact ⟨c.toNat, by omega, by omega⟩

theorem nodup_enumerateAllCpus (maxOut : ℕ) : (enumerateAllCpus m maxOut).Nodup :=
  List.nodup_range.map Nat.cast_injective

theorem length_enumerateAllCpus (maxOut : ℕ) :
    (enumerateAllCpus m maxOut).length = min m.ncpu maxOut := by
  simp [enumerateAllCpus]

theorem mem_chipPool {chip c : ℤ} :
    c ∈ chipPool m chip ↔ c ∈ enumerateAllCpus m maxCpus ∧ m.cpuToChip c = chip := by
  simp [chipPool]

theorem nodup_chipPool (chip : ℤ) : (chipPool m chip).Nodup :=
  (nodup_enumerateAllCpus maxCpus).filter _

/-- The two pools have no CPU in common. -/
theorem disjoint_chipPool : (chipPool m 1).Disjoint (chipPool m 2) := by
  intro c h1 h2
  have := (mem_chipPool.1 h1).2.symm.trans (mem_chipPool.1 h2).2
  norm_num at this

section Small

variable (hcpus : m.ncpu ≤ maxCpus)
include hcpus

theorem mem_allCpus {c : ℤ} : c ∈ enumerateAllCpus m maxCpus ↔ 0 ≤ c ∧ c < m.ncpu := by
  rw [mem_enumerateAllCpus]
  omega

theorem length_chipPool (chip : ℤ) : (chipPool m chip).length = m.cpusOn chip := by
  rw [chipPool, ← List.countP_eq_length_filter, enumerateAllCpus, min_eq_left hcpus,
    List.countP_map]
  rfl

/-- Both pools together fit into an array of `MAX_CPUS`. -/
theorem length_pools_le : (chipPool m 1).length + (chipPool m 2).length ≤ maxCpus := by
  have hnodup : (chipPool m 1 ++ chipPool m 2).Nodup :=
    (nodup_chipPool 1).append (nodup_chipPool 2) disjoint_chipPool
  have hsub : chipPool m 1 ++ chipPool m 2 ⊆ enumerateAllCpus m maxCpus := by
    intro c hc
    rcases List.mem_append.1 hc with h | h
    · exact (mem_chipPool.1 h).1
    · exact (mem_chipPool.1 h).1
  have hle := (hnodup.subperm hsub).length_le
  rw [List.length_append, length_enumerateAllCpus] at hle
  omega

end Small

end Pools

/-! ### The selection -/

section Select

variable {m : Machine} {args : Argument} {isClient : Bool}

/-- The shuffle of a pool is a permutation of it. -/
theorem shufflePool_perm (per : ℕ) (pool : List ℤ) (rng : ℕ) :
    ∃ c rng', shufflePool per pool rng = some (c, rng') ∧ c.Perm pool :=
  shuffleFrom_perm rngNext id _ 0 pool rng (by omega)

theorem perChip_pos (args : Argument) (isClient : Bool) : 0 < perChip args isClient := by
  simp only [perChip]
  split <;> omega

theorem perChip_eq (hthreads : args.threads < 2 ^ 32)
    (hwrap : isClient = true → args.threads ≠ 2 ^ 32 - 1) :
    perChip args isClient = (targetCpus args isClient + 1) / 2 := by
  have htarget : 1 ≤ targetCpus args isClient ∧ targetCpus args isClient + 1 < 2 ^ 32 := by
    simp only [targetCpus]
    cases isClient <;> split_ifs <;> simp_all <;> omega
  simp only [perChip]
  rw [Nat.mod_eq_of_lt htarget.2, if_neg (by omega)]

/-- What `auto_select_cpus` makes of the two pools in affinity mode. -/
theorem autoSelectCpus_pools (m : Machine) (isClient : Bool)
    (haff : args.affinityMode = .affinity) (maxOut : ℕ) :
    ∃ c1 c2 : List ℤ, c1.Perm (chipPool m 1) ∧ c2.Perm (chipPool m 2) ∧
      let out := (c1.take (perChip args isClient) ++ c2.take (perChip args isClient)).take maxOut
      autoSelectCpus m args isClient maxOut =
        if out = [] then some (enumerateAllCpus m maxOut) else some out := by
  obtain ⟨c1, rng, hc1, hperm1⟩ :=
    shufflePool_perm (perChip args isClient) (chipPool m 1) (args.seed ^^^ 0x9e3779b9)
  obtain ⟨c2, rng', hc2, hperm2⟩ := shufflePool_perm (perChip args isClient) (chipPool m 2) rng
  refine ⟨c1, c2, hperm1, hperm2, ?_⟩
  simp only [autoSelectCpus, haff, hc1, hc2, Option.bind_eq_bind, Option.bind_some]

theorem selection_all (hcpus : m.ncpu ≤ maxCpus) (h1 : m.cpusOn 1 = 0) (h2 : m.cpusOn 2 = 0)
    (per : ℕ) : Selection m per (enumerateAllCpus m maxCpus) where
  nodup := nodup_enumerateAllCpus maxCpus
  exist c hc := (mem_allCpus hcpus).1 hc
  chips h := absurd h (by simp [h1, h2])
  all _ _ c h0 hlt := (mem_allCpus hcpus).2 ⟨h0, hlt⟩

theorem selection_pools (hcpus : m.ncpu ≤ maxCpus) {c1 c2 : List ℤ} (h1 : c1.Perm (chipPool m 1))
    (h2 : c2.Perm (chipPool m 2)) (hne : m.cpusOn 1 ≠ 0 ∨ m.cpusOn 2 ≠ 0) (per : ℕ) :
    Selection m per (c1.take per ++ c2.take per) where
  nodup := by
    have hnodup : (c1 ++ c2).Nodup := ((h1.append h2).nodup_iff).2
      ((nodup_chipPool 1).append (nodup_chipPool 2) disjoint_chipPool)
    exact hnodup.sublist ((List.take_sublist _ _).append (List.take_sublist _ _))
  exist c hc := by
    rcases List.mem_append.1 hc with h | h
    · exact (mem_allCpus hcpus).1 (mem_chipPool.1 (h1.subset (List.mem_of_mem_take h))).1
    · exact (mem_allCpus hcpus).1 (mem_chipPool.1 (h2.subset (List.mem_of_mem_take h))).1
  chips _ := by
    refine ⟨_, _, rfl, ?_, fun c hc => ?_, ?_, fun c hc => ?_⟩
    · rw [List.length_take, h1.length_eq, length_chipPool hcpus]
    · exact (mem_chipPool.1 (h1.subset (List.mem_of_mem_take hc))).2
    · rw [List.length_take, h2.length_eq, length_chipPool hcpus]
    · exact (mem_chipPool.1 (h2.subset (List.mem_of_mem_take hc))).2
  all h1' h2' := absurd hne (by simp [h1', h2'])

/-- **The selection** of affinity mode, with as many CPUs per chip as the source computes. -/
theorem autoSelectCpus_selection (isClient : Bool) (hcpus : m.ncpu ≤ maxCpus)
    (haff : args.affinityMode = .affinity) :
    ∃ cpus, autoSelectCpus m args isClient maxCpus = some cpus ∧
      Selection m (perChip args isClient) cpus := by
  obtain ⟨c1, c2, h1, h2, hout⟩ := autoSelectCpus_pools m isClient haff maxCpus
  have hlen1 := h1.length_eq.trans (length_chipPool hcpus 1)
  have hlen2 := h2.length_eq.trans (length_chipPool hcpus 2)
  have hroom := length_pools_le hcpus
  have hpos := perChip_pos args isClient
  have htake : (c1.take (perChip args isClient) ++ c2.take (perChip args isClient)).take maxCpus =
      c1.take (perChip args isClient) ++ c2.take (perChip args isClient) := by
    refine List.take_of_length_le ?_
    rw [List.length_append, List.length_take, List.length_take, h1.length_eq, h2.length_eq]
    omega
  simp only [htake] at hout
  by_cases hnone : m.cpusOn 1 = 0 ∧ m.cpusOn 2 = 0
  · obtain rfl : c1 = [] := List.eq_nil_of_length_eq_zero (hlen1.trans hnone.1)
    obtain rfl : c2 = [] := List.eq_nil_of_length_eq_zero (hlen2.trans hnone.2)
    rw [if_pos (by simp)] at hout
    exact ⟨_, hout, selection_all hcpus hnone.1 hnone.2 _⟩
  · have hne : m.cpusOn 1 ≠ 0 ∨ m.cpusOn 2 ≠ 0 := by omega
    have hsome : c1.take (perChip args isClient) ++ c2.take (perChip args isClient) ≠ [] := by
      rw [← List.length_pos_iff, List.length_append, List.length_take, List.length_take]
      omega
    rw [if_neg hsome] at hout
    exact ⟨_, hout, selection_pools hcpus h1 h2 hne _⟩

end Select

/-! ### The poll thread -/

section Poll

variable {m : Machine} {opts : CpuOptions} {args : Argument} {strdupOk isClient : Bool}

/-- **The CPU of the poll thread**, whatever the CPUs in use are. -/
theorem autoPollCpu_choice (hcpus : m.ncpu ≤ maxCpus) {used : List ℤ}
    (hused : myCpuList m opts args strdupOk isClient maxCpus = some used) :
    ∃ poll, autoPollCpu m opts args strdupOk isClient = some poll ∧ PollChoice m used poll := by
  have hfree : ∀ c, c ∈ (enumerateAllCpus m maxCpus).filter (· ∉ used) ↔
      (0 ≤ c ∧ c < m.ncpu) ∧ c ∉ used := by
    intro c
    rw [List.mem_filter, mem_allCpus hcpus, decide_eq_true_eq]
  simp only [autoPollCpu, hused, Option.bind_eq_bind, Option.bind_some]
  set free := (enumerateAllCpus m maxCpus).filter (· ∉ used)
  by_cases hnil : free = []
  · refine ⟨-1, if_pos hnil, ⟨fun _ c h0 hlt => ?_, fun _ => rfl⟩, fun h => absurd rfl h⟩
    by_contra hc
    have := (hfree c).2 ⟨⟨h0, hlt⟩, hc⟩
    rw [hnil] at this
    cases this
  · have hpos : 0 < free.length := List.length_pos_iff.2 hnil
    set r := rngNext (args.seed ^^^ 0x51ed270b) % free.length with hr
    have hlt : r < free.length := Nat.mod_lt _ hpos
    obtain ⟨⟨h0, hcpu⟩, hnot⟩ := (hfree _).1 (List.getElem_mem hlt)
    refine ⟨free[r], ?_, ⟨fun h => ?_, fun hall => absurd (hall _ h0 hcpu) hnot⟩,
      fun _ => ⟨h0, hcpu, hnot⟩⟩
    · rw [if_neg hnil, checkedMod_of_pos _ hpos, Option.bind_some]
      exact List.getElem?_eq_getElem hlt
    · omega

/-- Without an explicit list the CPUs in use are the selected ones. -/
theorem myCpuList_auto
    (hlist : (if isClient then opts.sourceCpus else opts.destinationCpus) = none ∨
      (if isClient then opts.sourceCpus else opts.destinationCpus) = some []) (maxOut : ℕ) :
    myCpuList m opts args strdupOk isClient maxOut = autoSelectCpus m args isClient maxOut := by
  unfold myCpuList
  rcases hlist with h | h <;> rw [h] <;> rfl

end Poll

/-- **The choice of CPUs.** In affinity mode and without an explicit list, the workers get a
selection of half the target from each chip, rounded up; the target is the number of threads, at
least one, and at most eight for the server. The poll thread gets a CPU that is not among them. The
one number of threads for which the half is not what it should be is the largest of 32 bits. -/
theorem cpu_selection (m : Machine) (opts : CpuOptions) (args : Argument) (strdupOk isClient : Bool)
    (hcpus : m.ncpu ≤ 1024) (haff : args.affinityMode = .affinity)
    (hlist : (if isClient then opts.sourceCpus else opts.destinationCpus) = none ∨
      (if isClient then opts.sourceCpus else opts.destinationCpus) = some [])
    (hthreads : args.threads < 2 ^ 32) (hwrap : isClient = true → args.threads ≠ 2 ^ 32 - 1) :
    let target := if isClient then max 1 args.threads else min 8 (max 1 args.threads)
    ∃ cpus poll, autoSelectCpus m args isClient maxCpus = some cpus ∧
      Selection m ((target + 1) / 2) cpus ∧
      myCpuList m opts args strdupOk isClient maxCpus = some cpus ∧
      autoPollCpu m opts args strdupOk isClient = some poll ∧ PollChoice m cpus poll := by
  obtain ⟨cpus, hcpusEq, hsel⟩ := autoSelectCpus_selection isClient hcpus haff
  have hmine : myCpuList m opts args strdupOk isClient maxCpus = some cpus := by
    rw [myCpuList_auto hlist, hcpusEq]
  obtain ⟨poll, hpoll, hchoice⟩ := autoPollCpu_choice hcpus hmine
  have htarget : targetCpus args isClient =
      if isClient then max 1 args.threads else min 8 (max 1 args.threads) := by
    simp only [targetCpus]
    cases isClient <;> split_ifs <;> simp_all <;> omega
  rw [perChip_eq hthreads hwrap, htarget] at hsel
  exact ⟨cpus, poll, hcpusEq, hsel, hmine, hpoll, hchoice⟩

/-- Four CPUs, two on each chip. -/
def fourCpus : Machine where
  ncpu := 4
  cpuToChip c := if c < 2 then 1 else 2

/-- Two threads on four CPUs: one CPU of each chip. -/
theorem cpu_selection_four : ∃ cpus poll,
    autoSelectCpus fourCpus (smallArgs .write 2 1) true maxCpus = some cpus ∧
      Selection fourCpus 1 cpus ∧
      myCpuList fourCpus ⟨none, none⟩ (smallArgs .write 2 1) true true maxCpus = some cpus ∧
      autoPollCpu fourCpus ⟨none, none⟩ (smallArgs .write 2 1) true true = some poll ∧
      PollChoice fourCpus cpus poll :=
  cpu_selection fourCpus ⟨none, none⟩ (smallArgs .write 2 1) true true (by decide) rfl (.inl rfl)
    (by decide) (by decide)

/-- No threads count as one: the selection has a CPU of each chip, where half of nothing would give
none. -/
theorem cpu_selection_no_threads : ∃ cpus,
    autoSelectCpus fourCpus (smallArgs .write 0 1) true maxCpus = some cpus ∧
      cpus.length = 2 ∧ ¬ Selection fourCpus ((0 + 1) / 2) cpus := by
  obtain ⟨cpus, hsome, hlen⟩ : ∃ cpus,
      autoSelectCpus fourCpus (smallArgs .write 0 1) true maxCpus = some cpus ∧ cpus.length = 2 :=
    ⟨_, rfl, by decide⟩
  refine ⟨cpus, hsome, hlen, fun h => ?_⟩
  obtain ⟨l1, l2, rfl, h1, -, h2, -⟩ := h.chips (.inl (by decide))
  rw [List.length_append, h1, h2] at hlen
  norm_num at hlen

end KvBench.Bench
