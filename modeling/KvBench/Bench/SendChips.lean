import KvBench.Bench.Generator
import KvBench.Bench.Posts

/-!
# The chips of the sends

The two work requests of a send are meant to name one pair of chips, and `--query-chips` is meant to
print the source chips of the first request. But the post functions call `pick_send_chip` once for a
work request, twenty times a request, and `run_chip_query` once for a send, ten times, and in two of
the three modes every call draws from the worker's generator. `chipAt` is the choice for the `k`-th
work request of a worker; every run posts what it says, and `send_chips_iff` says when that is what
was meant. The generator goes through all words but zero, so in these modes two CPUs on different
chips are enough to tell the work requests of some send apart.
-/

namespace KvBench.Bench

open KvBench.Conc KvBench.Events KvBench.Hist KvBench.Words

/-! ### `--query-chips` -/

/-- The lines that `run_chip_query` prints, without the headings. -/
inductive QueryLine where
  | cpu (client : Bool) (cpu : ℕ) (numa chip : ℤ)
  | firstDstChip (chip : ℤ)
  | round (mode : AffinityMode) (worker : ℕ) (srcA srcB dst : ℤ)
  | sends (mode : AffinityMode) (worker : ℕ) (srcs : List ℤ)
  deriving DecidableEq

/-- The source chips of `count` sends from `sendIdx` on. -/
def querySends (args : Argument) (cpus : Cpus) (i : ℕ) : (count sendIdx rng : ℕ) → List ℤ
  | 0, _, _ => []
  | count + 1, sendIdx, rng =>
    let (chips, rng') := pickSendChip args cpus i rng sendIdx
    chips.1 :: querySends args cpus i count (sendIdx + 1) rng'

/-- The line for the rounds of the worker `i`. -/
def queryRound (args : Argument) (cpus : Cpus) (i : ℕ) : QueryLine :=
  let ((srcA, srcB, dst), _) := pickRoundChips args cpus i (seedOf args i)
  if args.drvExt then .round args.affinityMode i srcA srcB dst
  else .round args.affinityMode i invalidChip invalidChip invalidChip

/-- The part of the output for one affinity mode. -/
def queryMode (args : Argument) (cpus : Cpus) : List QueryLine :=
  let workers := List.range (if 0 < args.threads then args.threads else 1)
  workers.map (queryRound args cpus) ++
    workers.map fun i =>
      .sends args.affinityMode i (querySends args cpus i kvSendsPerReq 0 (seedOf args i))

/-- `run_chip_query`. The CPU lists depend on the affinity mode, since they are selected by it when
the options do not name them; `numa` is `read_cpu_numa`. -/
def runChipQuery (args : Argument) (cpus : AffinityMode → Cpus) (numa : ℕ → ℤ) : List QueryLine :=
  let own := cpus args.affinityMode
  own.mine.map (fun c => .cpu true c (numa c) (own.cpuToChip c)) ++
    own.destination.map (fun c => .cpu false c (numa c) (own.cpuToChip c)) ++
    [.firstDstChip (firstDstChip own)] ++
    [AffinityMode.affinity, .anti, .none].flatMap fun mode =>
      queryMode { args with affinityMode := mode } (cpus mode)

/-! ### The choices of a worker -/

/-- The CPUs of which the source of a send is drawn. -/
def drawPool (mode : AffinityMode) (cpus : Cpus) : List ℕ :=
  if mode = .anti ∧ cpus.mine ≠ [] then cpus.mine else cpus.all

/-- The chip that stands for `cpu`, when the source of a send of the worker `i` is drawn. -/
def chipOf (mode : AffinityMode) (cpus : Cpus) (i cpu : ℕ) : ℤ :=
  knownChip (cpus.cpuToChip cpu) (if mode = .anti then (i % 2 : ℕ) + 1 else 1)

/-- All CPUs that may be drawn are on the same chip. -/
def OneChip (mode : AffinityMode) (cpus : Cpus) (i : ℕ) : Prop :=
  ∀ c ∈ drawPool mode cpus, ∀ c' ∈ drawPool mode cpus, chipOf mode cpus i c = chipOf mode cpus i c'

instance (mode : AffinityMode) (cpus : Cpus) (i : ℕ) : Decidable (OneChip mode cpus i) :=
  inferInstanceAs (Decidable (∀ c ∈ drawPool mode cpus, ∀ c' ∈ drawPool mode cpus, _))

/-- The choices are as they are meant to be: both work requests of a send get the same chips, and the
query prints the source chips of the sends of the first request. -/
def ChipsAgree (ctx : Context) (cpus : AffinityMode → Cpus) (numa : ℕ → ℤ) (i : ℕ) : Prop :=
  (∀ j, chipAt ctx i (2 * j) = chipAt ctx i (2 * j + 1)) ∧
  QueryLine.sends ctx.args.affinityMode i ((List.range kvSendsPerReq).map fun s =>
    (chipAt ctx i (2 * s)).1) ∈ runChipQuery ctx.args cpus numa

section Choices

variable {args : Argument} {cpus : Cpus} {i : ℕ}

theorem querySends_eq (count sendIdx rng : ℕ) :
    querySends args cpus i count sendIdx rng = (List.range count).map fun s =>
      (pickSendChip args cpus i ((drawn args.affinityMode)^[s] rng) (sendIdx + s)).1.1 := by
  induction count generalizing sendIdx rng with
  | zero => rfl
  | succ count ih =>
    rw [List.range_succ_eq_map, List.map_cons, List.map_map]
    show (pickSendChip args cpus i rng sendIdx).1.1 ::
      querySends args cpus i count (sendIdx + 1) (pickSendChip args cpus i rng sendIdx).2 = _
    rw [ih, pickSendChip_rng]
    congr 1
    refine List.map_congr_left fun s _ => ?_
    show _ = (pickSendChip args cpus i ((drawn args.affinityMode)^[s + 1] rng) (sendIdx + (s + 1))).1.1
    rw [Function.iterate_succ_apply, show sendIdx + 1 + s = sendIdx + (s + 1) by omega]

/-- There is one line of sends for each mode and each worker. -/
theorem sends_mem_iff {family : AffinityMode → Cpus} {numa : ℕ → ℤ} {srcs : List ℤ}
    (hthreads : 0 < args.threads) :
    QueryLine.sends args.affinityMode i srcs ∈ runChipQuery args family numa ↔
      i < args.threads ∧ srcs = querySends args (family args.affinityMode) i kvSendsPerReq 0
        (seedOf args i) := by
  have hmode : ∀ mode, QueryLine.sends args.affinityMode i srcs ∈
      queryMode { args with affinityMode := mode } (family mode) ↔ mode = args.affinityMode ∧
        i < args.threads ∧ srcs = querySends args (family args.affinityMode) i kvSendsPerReq 0
          (seedOf args i) := by
    intro mode
    have hround : ∀ j, queryRound { args with affinityMode := mode } (family mode) j ≠
        .sends args.affinityMode i srcs := by
      intro j
      unfold queryRound
      dsimp only
      split <;> simp
    unfold queryMode
    rw [if_pos hthreads]
    simp only [List.mem_append, List.mem_map, List.mem_range, hround, and_false, exists_false,
      false_or, QueryLine.sends.injEq]
    constructor
    · rintro ⟨j, hj, rfl, rfl, rfl⟩
      exact ⟨rfl, hj, rfl⟩
    · rintro ⟨rfl, hi, rfl⟩
      exact ⟨i, hi, rfl, rfl, rfl⟩
  unfold runChipQuery
  simp only [List.mem_append, List.mem_map, List.mem_cons, List.not_mem_nil, List.mem_flatMap, hmode,
    or_false, reduceCtorEq, and_false, exists_false, false_or]
  constructor
  · rintro ⟨mode, -, -, hrest⟩
    exact hrest
  · intro hrest
    refine ⟨args.affinityMode, ?_, rfl, hrest⟩
    cases args.affinityMode <;> simp

/-- In affinity mode a choice depends on the send only. -/
theorem pickSendChip_affinity (hmode : args.affinityMode = .affinity) (cpus' : Cpus)
    (rng rng' sendIdx : ℕ) :
    (pickSendChip args cpus i rng sendIdx).1 = (pickSendChip args cpus' i rng' sendIdx).1 := by
  unfold pickSendChip
  rw [hmode]
  dsimp only
  split <;> (try split) <;> rfl

/-- Without the driver's extension the chips are left to the driver, unless `--single-chip` is in
force. -/
theorem pickSendChip_plain (hdrv : args.drvExt = false) (hsingle : singleChipOn args = false)
    (rng sendIdx : ℕ) :
    (pickSendChip args cpus i rng sendIdx).1 = ((invalidChip : ℤ), (invalidChip : ℤ)) := by
  unfold pickSendChip
  rw [if_pos ⟨hdrv, hsingle⟩]

/-- In the other modes a choice depends on the generator only. -/
theorem pickSendChip_random (hmode : args.affinityMode ≠ .affinity) (rng sendIdx : ℕ) :
    pickSendChip args cpus i rng sendIdx = pickSendChip args cpus i rng 0 := by
  unfold pickSendChip
  cases hm : args.affinityMode with
  | affinity => exact absurd hm hmode
  | anti => rfl
  | none => rfl

theorem singleChipOn_of_ne (hmode : args.affinityMode ≠ .affinity) : singleChipOn args = false := by
  unfold singleChipOn
  simp [hmode]

/-! ### The random modes -/

/-- The source chip that the word `x` draws. -/
def chipDrawn (mode : AffinityMode) (cpus : Cpus) (i x : ℕ) : ℤ :=
  chipOf mode cpus i (drawCpu (drawPool mode cpus) x)

theorem pickSendChip_anti (hmode : args.affinityMode = .anti) (hdrv : args.drvExt = true)
    (rng sendIdx : ℕ) : (pickSendChip args cpus i rng sendIdx).1 =
      (chipDrawn .anti cpus i (rngNext rng), dstChip cpus i) := by
  unfold pickSendChip chipDrawn chipOf drawPool
  rw [hmode]
  simp [hdrv]

theorem pickSendChip_none (hmode : args.affinityMode = .none) (hdrv : args.drvExt = true)
    (rng sendIdx : ℕ) : (pickSendChip args cpus i rng sendIdx).1 =
      (chipDrawn .none cpus i (rngNext rng), chipDrawn .none cpus i (rngNext (rngNext rng))) := by
  unfold pickSendChip chipDrawn chipOf drawPool
  rw [hmode]
  simp [hdrv]

theorem length_drawPool_le (mode : AffinityMode) : (drawPool mode cpus).length ≤ maxCpus := by
  unfold drawPool
  split
  · exact cpus.mine_le
  · exact cpus.all_le

/-- Some word other than zero draws each CPU of the list. -/
theorem exists_drawCpu {l : List ℕ} {c : ℕ} (hl : l.length ≤ maxCpus) (hc : c ∈ l) :
    ∃ x ∈ nonzeroWords, drawCpu l x = c := by
  obtain ⟨p, hp, rfl⟩ := List.mem_iff_getElem.1 hc
  unfold maxCpus at hl
  refine ⟨p + l.length, Finset.mem_Ico.2 ⟨by omega, by omega⟩, ?_⟩
  unfold drawCpu
  rw [Nat.add_mod_right, Nat.mod_eq_of_lt hp, List.getD_eq_getElem _ _ hp]

theorem chipDrawn_eq_of_oneChip {mode : AffinityMode} (h : OneChip mode cpus i) (x y : ℕ) :
    chipDrawn mode cpus i x = chipDrawn mode cpus i y := by
  unfold chipDrawn
  by_cases hnil : drawPool mode cpus = []
  · simp [hnil, drawCpu]
  · have hmem : ∀ x, drawCpu (drawPool mode cpus) x ∈ drawPool mode cpus := by
      intro x
      have hlt := Nat.mod_lt x (List.length_pos_iff.2 hnil)
      unfold drawCpu
      rw [List.getD_eq_getElem _ _ hlt]
      exact List.getElem_mem hlt
    exact h _ (hmem x) _ (hmem y)

theorem oneChip_of_chipDrawn_eq {mode : AffinityMode}
    (h : ∀ x ∈ nonzeroWords, ∀ y ∈ nonzeroWords,
      chipDrawn mode cpus i x = chipDrawn mode cpus i y) : OneChip mode cpus i := by
  intro c hc c' hc'
  obtain ⟨x, hx, rfl⟩ := exists_drawCpu (length_drawPool_le mode) hc
  obtain ⟨y, hy, rfl⟩ := exists_drawCpu (length_drawPool_le mode) hc'
  exact h x hx y hy

theorem seedOf_mem (h : seedOf args i ≠ 0) : seedOf args i ∈ nonzeroWords :=
  Finset.mem_Ico.2 ⟨Nat.one_le_iff_ne_zero.2 h, Nat.mod_lt _ (by norm_num)⟩

/-- A generator at zero, or CPUs on one chip: all choices are the same. -/
theorem pickSendChip_constant (hmode : args.affinityMode ≠ .affinity) (hdrv : args.drvExt = true)
    (h : seedOf args i = 0 ∨ OneChip args.affinityMode cpus i) (k sendIdx : ℕ) :
    (pickSendChip args cpus i ((drawn args.affinityMode)^[k] (seedOf args i)) sendIdx).1 =
      (pickSendChip args cpus i (seedOf args i) 0).1 := by
  have hstuck : ∀ mode, seedOf args i = 0 → (drawn mode)^[k] (seedOf args i) = seedOf args i := by
    intro mode h0
    rw [h0]
    exact Function.iterate_fixed (by cases mode <;> decide) k
  cases hm : args.affinityMode with
  | affinity => exact absurd hm hmode
  | anti =>
    rw [hm] at h
    rw [pickSendChip_anti hm hdrv, pickSendChip_anti hm hdrv]
    rcases h with h0 | hone
    · rw [hstuck _ h0]
    · exact Prod.ext (chipDrawn_eq_of_oneChip hone _ _) rfl
  | none =>
    rw [hm] at h
    rw [pickSendChip_none hm hdrv, pickSendChip_none hm hdrv]
    rcases h with h0 | hone
    · rw [hstuck _ h0]
    · exact Prod.ext (chipDrawn_eq_of_oneChip hone _ _) (chipDrawn_eq_of_oneChip hone _ _)

/-- **Two CPUs on different chips tell some send's work requests apart**: when both work requests of
every send get the same chips, the generator is at zero or all CPUs are on one chip. -/
theorem oneChip_of_pairs (hmode : args.affinityMode ≠ .affinity) (hdrv : args.drvExt = true)
    (hpairs : ∀ j, (pickSendChip args cpus i ((drawn args.affinityMode)^[2 * j] (seedOf args i)) 0).1 =
      (pickSendChip args cpus i ((drawn args.affinityMode)^[2 * j + 1] (seedOf args i)) 0).1) :
    seedOf args i = 0 ∨ OneChip args.affinityMode cpus i := by
  by_cases h0 : seedOf args i = 0
  · exact .inl h0
  have hseed := seedOf_mem h0
  refine .inr (oneChip_of_chipDrawn_eq fun x hx y hy => ?_)
  cases hm : args.affinityMode with
  | affinity => exact absurd hm hmode
  | anti =>
    -- one draw for each choice
    refine rngNext_turns.constant (m := 2) (d := 1) ?_ ?_ hseed 1 (fun j => ?_) hx hy
    · rw [card_nonzeroWords]; norm_num
    · exact Nat.coprime_one_left _
    have h := congrArg Prod.fst (hpairs j)
    rw [hm, pickSendChip_anti hm hdrv, pickSendChip_anti hm hdrv] at h
    rwa [Function.iterate_succ_apply', Function.iterate_succ_apply' (n := 2 * j + 1)]
  | none =>
    -- two draws for each choice, so the sources of a send are two draws apart
    have htwo : ∀ k, (drawn .none)^[k] (seedOf args i) = rngNext^[2 * k] (seedOf args i) := by
      intro k
      rw [Function.iterate_mul]
      rfl
    refine rngNext_turns.constant (m := 4) (d := 2) ?_ ?_ hseed 1 (fun j => ?_) hx hy
    · rw [card_nonzeroWords]; norm_num
    · rw [card_nonzeroWords]; norm_num
    have h := congrArg Prod.fst (hpairs j)
    rw [hm, pickSendChip_none hm hdrv, pickSendChip_none hm hdrv, htwo, htwo] at h
    dsimp only at h
    rw [← Function.iterate_succ_apply' rngNext, ← Function.iterate_succ_apply' rngNext] at h
    rwa [show 4 * j + 1 = 2 * (2 * j) + 1 by ring, show 2 * (2 * j) + 1 + 2 = 2 * (2 * j + 1) + 1 by ring]

/-! ### When the choices agree -/

variable {ctx : Context} {family : AffinityMode → Cpus} {numa : ℕ → ℤ}

/-- What the query prints for the send `s`. -/
theorem chipsAgree_iff_query (hi : i < ctx.args.threads) : ChipsAgree ctx family numa i ↔
      (∀ j, chipAt ctx i (2 * j) = chipAt ctx i (2 * j + 1)) ∧
      ∀ s < kvSendsPerReq, (chipAt ctx i (2 * s)).1 =
        (pickSendChip ctx.args (family ctx.args.affinityMode) i
          ((drawn ctx.args.affinityMode)^[s] (seedOf ctx.args i)) s).1.1 := by
  unfold ChipsAgree
  rw [sends_mem_iff (by omega), querySends_eq]
  simp only [hi, true_and, Nat.zero_add]
  refine and_congr_right fun _ => ?_
  rw [List.map_inj_left]
  simp only [List.mem_range]

/-- Whatever the readings of the CPU lists are, the choices agree when they do not depend on them. -/
theorem chipsAgree_of_fixed (hi : i < ctx.args.threads)
    (h : ctx.args.affinityMode = .affinity ∨ ctx.args.drvExt = false) :
    ChipsAgree ctx family numa i := by
  have hsend : ∀ s, s < kvSendsPerReq → 2 * s % kvWrPerReq / kvWrPerSend = s := by
    unfold kvSendsPerReq kvWrPerReq kvWrPerSend
    omega
  have hpair : ∀ j, 2 * j % kvWrPerReq / kvWrPerSend = (2 * j + 1) % kvWrPerReq / kvWrPerSend := by
    unfold kvWrPerReq kvWrPerSend
    omega
  rw [chipsAgree_iff_query hi]
  unfold chipAt
  by_cases hmode : ctx.args.affinityMode = .affinity
  · refine ⟨fun j => ?_, fun s hs => ?_⟩
    · rw [hpair]
      exact pickSendChip_affinity hmode _ _ _ _
    · rw [hsend s hs]
      exact congrArg Prod.fst (pickSendChip_affinity hmode _ _ _ _)
  · have hplain : ∀ cpus rng sendIdx, (pickSendChip ctx.args cpus i rng sendIdx).1 =
        ((invalidChip : ℤ), (invalidChip : ℤ)) := fun _ =>
      pickSendChip_plain (h.resolve_left hmode) (singleChipOn_of_ne hmode)
    simp only [hplain, implies_true, and_self]

/-- **When the choices agree**, with readings that all give the same lists: in affinity mode, without
the driver's extension, or when the draws cannot tell. -/
theorem chipsAgree_iff (hi : i < ctx.args.threads)
    (hcpus : ∀ k, ctx.cpus i k = family ctx.args.affinityMode) :
    ChipsAgree ctx family numa i ↔ ctx.args.affinityMode = .affinity ∨ ctx.args.drvExt = false ∨
      seedOf ctx.args i = 0 ∨ OneChip ctx.args.affinityMode (family ctx.args.affinityMode) i := by
  by_cases hmode : ctx.args.affinityMode = .affinity
  · exact iff_of_true (chipsAgree_of_fixed hi (.inl hmode)) (.inl hmode)
  by_cases hdrv : ctx.args.drvExt = false
  · exact iff_of_true (chipsAgree_of_fixed hi (.inr hdrv)) (.inr (.inl hdrv))
  have hon : ctx.args.drvExt = true := by simpa using hdrv
  rw [chipsAgree_iff_query hi]
  unfold chipAt
  simp only [hmode, hon, Bool.true_eq_false, false_or, hcpus]
  constructor
  · rintro ⟨hpairs, -⟩
    refine oneChip_of_pairs hmode hon fun j => ?_
    have h := hpairs j
    rwa [pickSendChip_random hmode, pickSendChip_random hmode _ ((2 * j + 1) % _ / _)] at h
  · intro hall
    have hconst := pickSendChip_constant hmode hon hall
    exact ⟨fun j => (hconst _ _).trans (hconst _ _).symm,
      fun s _ => congrArg Prod.fst ((hconst _ _).trans (hconst _ _).symm)⟩

end Choices

/-! ### Whole runs -/

/-- **Per-send chips.** In every run of a pipeline, the `k`-th work request that a worker posts is the
one numbered `k % 20` of its request and names the chips `chipAt`. Both work requests of every send get
the same chips, and the sends of the first request the chips that the query prints, in affinity mode
and without the driver's extension, whatever the readings of the CPU lists are. When all readings give
the lists of the options, as they do when there is only one thread or the options name no CPUs, this is
so in two more cases and in no others: the worker's generator is at zero, or all CPUs that it may draw
are on one chip. -/
theorem send_chips_iff (ctx : Context) (hop : ctx.args.op ≠ .mixed) (cpus : AffinityMode → Cpus)
    (numa : ℕ → ℤ) (hist : KvHist) {n : ℕ} (hthreads : ctx.args.threads = n) (lanes : ℕ) (w : Fin n) :
    (∀ c, Reachable (bench n (fun _ => .any) .free) (client ctx hist n lanes) c →
      ∀ k p, (c.state.posted w).reverse[k]? = some p → (∃ idx, p.id = .slot idx (k % kvWrPerReq)) ∧
        p.wr.srcChip = ((chipAt ctx w k).1 % 2 ^ 32).toNat ∧
        p.wr.dstChip = ((chipAt ctx w k).2 % 2 ^ 32).toNat) ∧
    (ctx.args.affinityMode = .affinity ∨ ctx.args.drvExt = false → ChipsAgree ctx cpus numa w) ∧
    ((∀ k, ctx.cpus w k = cpus ctx.args.affinityMode) → (ChipsAgree ctx cpus numa w ↔
      ctx.args.affinityMode = .affinity ∨ ctx.args.drvExt = false ∨ seedOf ctx.args w = 0 ∨
        OneChip ctx.args.affinityMode (cpus ctx.args.affinityMode) w)) := by
  have hw : (w : ℕ) < ctx.args.threads := by
    rw [hthreads]
    exact w.2
  refine ⟨fun c hr k p hk => ?_, chipsAgree_of_fixed hw, chipsAgree_iff hw⟩
  obtain ⟨slot, hslot⟩ := posts_ordered hop hr w
  obtain ⟨hid, hchips⟩ := hslot k p hk
  exact ⟨⟨_, hid⟩, hchips⟩

/-- Two CPUs, the second one on the chip `chip`. -/
def twoCpus (chip : ℤ) : Cpus where
  all := [0, 1]
  mine := [0, 1]
  destination := []
  cpuToChip := fun c => if c = 0 then 1 else chip

/-- A client with these CPUs in anti-affinity mode. -/
def antiContext (chip : ℤ) : Context :=
  { smallContext .write 1 1 with
    args := { smallArgs .write 1 1 with
      affinityMode := .anti, drvExt := true, singleChip := 0, seed := 12345 }
    cpus := fun _ _ => twoCpus chip }

/-- With the CPUs on two chips the choices do not agree, with the CPUs on one chip they do. -/
theorem send_chips_iff_anti :
    ¬ ChipsAgree (antiContext 2) (fun _ => twoCpus 2) (fun _ => 0) 0 ∧
      ChipsAgree (antiContext 1) (fun _ => twoCpus 1) (fun _ => 0) 0 := by
  have h2 := (send_chips_iff (antiContext 2) (by decide) (fun _ => twoCpus 2) (fun _ => 0) freshHist
    (n := 1) rfl 10 0).2.2 fun _ => rfl
  have h1 := (send_chips_iff (antiContext 1) (by decide) (fun _ => twoCpus 1) (fun _ => 0) freshHist
    (n := 1) rfl 10 0).2.2 fun _ => rfl
  exact ⟨fun h => absurd (h2.1 h) (by decide), h1.2 (by decide)⟩

/-- The worker has posted the first send of its first request. -/
def antiSend : Conf (Fin 1) Worker Sys Act (Unit × Worker) :=
  (client (antiContext 2) freshHist 1 10).plays (bench 1 (fun _ => .any) .free) (steps 0 0 30)

/-- The two work requests of that send go from different chips. -/
theorem send_chips_differ : validateInputParams (antiContext 2).args = .ok () ∧
    Reachable (bench 1 (fun _ => .any) .free) (client (antiContext 2) freshHist 1 10) antiSend ∧
    (antiSend.state.posted 0).reverse.map (fun p => (p.id, p.wr.srcChip)) =
      [(.slot 0 0, 1), (.slot 0 1, 2)] := by
  obtain ⟨hr, hchips⟩ := Reachable.of_replay (d := antiSend) rfl
    (fun c => (c.state.posted 0).reverse.map (fun p => (p.id, p.wr.srcChip)) =
      [(.slot 0 0, 1), (.slot 0 1, 2)]) (by decide +kernel)
  exact ⟨rfl, hr, hchips⟩

end KvBench.Bench
