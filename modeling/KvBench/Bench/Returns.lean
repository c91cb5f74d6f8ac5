import KvBench.Bench.Clients

/-!
# How a pipeline returns

One worker of a client is in its pipeline, the others run beside it. The pipeline returns, and:

* whatever happens, nothing is under way at that point exactly when no request is active
  (`pipeline_exit`). That is so after the drain, but an early return abandons the other requests.
* without faults, the counters account for all requests that were posted, and all resources are
  back (`write_pipeline_accounts`, `get_pipeline_accounts`). For the get pipeline that takes the
  further condition that the main loop does not end between two completions of a request.
* an empty lane pool makes it return `-1`. That cannot happen when there is a lane for every send of
  all workers (`pipelines_with_ample_lanes`), but the pool of `run_client` is not that large.
-/

namespace KvBench.Bench

open KvBench.Conc KvBench.Events KvBench.Hist

/-! ### One pipeline among the workers -/

/-- The pipeline that `client_worker_main` calls. -/
def clientPipeline (ctx : Context) (deadline : ℕ) : Code ℤ :=
  match ctx.args.op with
  | .get => clientGetPipeline ctx deadline
  | _ => clientWritePipeline ctx deadline

/-- A client whose worker `w` is about to enter its pipeline. -/
def clientWith (ctx : Context) (hist : KvHist) {n : ℕ} (lanes : ℕ) (w : Fin n) (deadline : ℕ) :
    Conf (Fin n) Worker Sys Act (ℤ × Worker) :=
  start lanes
    (fun i => if i = w then clientPipeline ctx deadline else clientWorkerMain ctx >>= fun _ => pure 0)
    fun i => createWorker ctx.args hist i

section Family

variable {B : Setup} {i : Fin B.n} {ctx : Context} {Off : ℕ → Prop} {m₀ : Worker} {deadline : ℕ}

theorem Returned.mono {T T' : Prop} {size p₀ : ℕ} {base m : Worker} {rc : ℤ} {v : View}
    (h : Returned B i T size base p₀ rc m v) (hT : T' → T) :
    Returned B i T' size base p₀ rc m v :=
  ⟨h.1, h.2.1, fun ht => h.2.2 (hT ht)⟩

/-- The condition under which the accounts of a pipeline are in order. -/
def Setup.Exact (B : Setup) (args : Argument) (w : ℕ) : Prop :=
  B.Clean w ∧ (args.op = .get → (B.mode w).whole = true)

theorem clientPipeline_spec (hB : B.Sound) (hw : (writePipe ctx.args).Fits B ctx)
    (hg : (getPipe ctx.args).Fits B ctx) (hm : Ready B.slots i m₀) (hdl : deadline < 2 ^ 64) :
    B.Triple i (fun m v _ => Near B i True m₀ .empty m v) (clientPipeline ctx deadline)
      (fun rc m v _ => Returned B i (B.Exact ctx.args i) (pipelineSize ctx.args) m₀ 0 rc m v) := by
  have hwrite : B.Triple i (fun m v _ => Near B i True m₀ .empty m v)
      (clientWritePipeline ctx deadline)
      (fun rc m v _ => Returned B i (B.Clean i) ctx.args.sendSize m₀ 0 rc m v) :=
    (clientWritePipeline_spec hB hw hdl).pre fun m v n _ h => hm.toRested.known h _ _
  unfold clientPipeline pipelineSize Setup.Exact
  rcases ctx.args.op with _ | _ | _
  · exact hwrite.post fun rc m v n _ h => h.mono And.left
  · refine ((clientGetPipeline_spec hB hg hdl).pre fun m v n _ h => hm.toRested.known h _ _).post ?_
    intro rc m v n _ h
    exact h.mono fun hT => ⟨hT.1, hT.2 rfl⟩
  · exact hwrite.post fun rc m v n _ h => h.mono And.left

variable {n lanes : ℕ} {mode : ℕ → Mode} {pace : Pace}

/-- What is known of the worker `w` after its pipeline. -/
theorem clientWith_specs (ctx : Context) (hist : KvHist) (hn : n ≤ 1024) (lanes : ℕ)
    (mode : ℕ → Mode) (hpace : pace.Live) (w : Fin n) (hdl : deadline < 2 ^ 64) (i : Fin n) :
    (Setup.plain ctx.args n lanes mode pace).Triple i
      (fun m v _ => Near (.plain ctx.args n lanes mode pace) i True
        (createWorker ctx.args hist i) .empty m v)
      (if i = w then clientPipeline ctx deadline else clientWorkerMain ctx >>= fun _ => pure 0)
      (fun rc m v _ => i = w → Returned (.plain ctx.args n lanes mode pace) i
        ((Setup.plain ctx.args n lanes mode pace).Exact ctx.args i) (pipelineSize ctx.args)
        (createWorker ctx.args hist i) 0 rc m v) := by
  have hB := Setup.plain_sound n lanes mode pace ctx.args hn hpace
  have hready := createWorker_ready ctx.args hist i
  refine Setup.Triple.ite (fun hi => ?_) fun hi => ?_
  · refine (clientPipeline_spec hB (Pipe.plain_fits ctx n lanes mode pace rfl)
      (Pipe.plain_fits ctx n lanes mode pace rfl) hready hdl).post ?_
    intro rc m v n _ h _
    exact h
  · refine Setup.Triple.bind (clientWorkerMain_spec hB (ctx.plain_fits n lanes mode pace) hready)
      fun _ => Setup.Triple.pure ?_
    intro m v n _ hi'
    exact absurd hi' hi

theorem clientWith_steady (lanes : ℕ) (mode : ℕ → Mode) (pace : Pace) (args : Argument)
    (hist : KvHist) (w i : Fin n) (rc : ℤ) (m : Worker) :
    (Setup.plain args n lanes mode pace).Steady i (fun v => i = w →
      Returned (.plain args n lanes mode pace) i ((Setup.plain args n lanes mode pace).Exact args i)
        (pipelineSize args) (createWorker args hist i) 0 rc m v) :=
  (Returned.steady _ _ _ rc m).imp

/-- In every reachable configuration the client keeps to the discipline, and if the pipeline has
returned, what it left is known. -/
theorem clientWith_returned (ctx : Context) (hist : KvHist) (hn : n ≤ 1024) (w : Fin n)
    (hdl : deadline < 2 ^ 64) {c : Conf (Fin n) Worker Sys Act (ℤ × Worker)}
    (hr : Reachable (bench n mode .free) (clientWith ctx hist lanes w deadline) c) :
    ∃ pace : Pace, c.Good (Setup.plain ctx.args n lanes mode pace).judgement
        (fun i am s => i = w → Returned (.plain ctx.args n lanes mode pace) i
          ((Setup.plain ctx.args n lanes mode pace).Exact ctx.args i) (pipelineSize ctx.args)
          (createWorker ctx.args hist i) 0 am.1 am.2 (s.view i)) ∧
      ∀ rc m, c.result w = some (rc, m) → Returned (.plain ctx.args n lanes mode pace) w
        ((Setup.plain ctx.args n lanes mode pace).Exact ctx.args w) (pipelineSize ctx.args)
        (createWorker ctx.args hist w) 0 rc m (c.state.view w) := by
  obtain ⟨N, hr⟩ := exists_grace hr fun _ => rfl
  have hB := Setup.plain_sound n lanes mode _ ctx.args hn (Pace.grace_live N)
  have hgood := Setup.good_reachable (B := .plain ctx.args n lanes mode (.grace N)) hB rfl
    (fun _ => rfl) (fun i rc m => clientWith_steady lanes mode _ ctx.args hist w i rc m)
    (clientWith_specs ctx hist hn lanes mode (Pace.grace_live N) w hdl) hr
  exact ⟨_, hgood, fun rc m hret => hgood.result hret rfl⟩

end Family

/-! ### Nothing is left under way, or is it -/

section Exit

variable {B : Setup} {i : Fin B.n} {m : Worker} {v : View}

/-- When no request is active, the event slots are all free and no posted work request waits. -/
theorem Stopped.nothing_pending (h : Stopped B i m v) (htaken : B.taken = [])
    (hnil : m.activeSlots = []) :
    m.ev.freeSlots.Perm (List.range kSlotCount) ∧ ∀ p ∈ v.posted, p.fate ≠ .pending := by
  obtain ⟨⟨x, fly, rest, k⟩, ⟨hempty, -⟩, g, hg, ⟨ev, look, rfl⟩, hcore⟩ := h
  obtain rfl : fly = ∅ := hempty hnil
  have hidle : ∀ ρ, (g.tok ρ).live = none := by
    rintro (⟨idx, wr⟩ | half)
    · rcases hg.tok idx wr with ht | ht | ht
      · rw [ht]; rfl
      · exact absurd ((hg.fly idx wr).2 ht) (Set.notMem_empty _)
      · rw [ht]; rfl
    · rw [hg.tokSync half]; rfl
  constructor
  · refine (List.perm_ext_iff_of_nodup hcore.nodup List.nodup_range).2 fun k => ?_
    rw [hcore.free k, List.mem_range, htaken]
    constructor
    · intro hk
      exact hk.1.1
    · intro hk
      refine ⟨⟨hk, List.not_mem_nil⟩, fun ρ t ht => ?_⟩
      rw [hidle ρ] at ht
      cases ht
  · intro p hp hpend
    have ht := (hcore.awaits p.id p.wr.token).2 ⟨p, hp, rfl, hpend, rfl⟩
    have hlive := hidle p.id
    rw [ht] at hlive
    cases hlive

theorem Stopped.exit (h : Stopped B i m v) : Exit m.faults m.activeSlots := by
  obtain ⟨x, ⟨-, hexit⟩, ht⟩ := h
  rwa [ht.mem.faults, ht.mem.activeSlots]

/-- Which faults leave requests active. -/
theorem Exit.nil_iff {faults : List Fault} {active : List ℕ} (h : Exit faults active) :
    active = [] ↔ .probe ∉ faults ∧ ∀ others, .post others ∈ faults → others = 0 := by
  cases h with
  | drained => simp
  | probe h => simp [h]
  | post active => simp

end Exit

/-- **The exits of a pipeline.** When it returns, no request is active, its event slots are free and
everything it posted is settled, exactly when its main loop has met no completion that failed, and no
request that could not be posted while another one was active. It returns `0` exactly when it has met
no fault at all. A posted work request whose completion was not consumed has been aborted, and only
past the deadline of its `WaitEvent`. -/
theorem pipeline_exit (ctx : Context) (hist : KvHist) {n : ℕ} (hn : n ≤ 1024) (lanes : ℕ) (w : Fin n)
    {deadline : ℕ} (hdl : deadline < 2 ^ 64) {c : Conf (Fin n) Worker Sys Act (ℤ × Worker)}
    (hr : Reachable (bench n (fun _ => .any) .free) (clientWith ctx hist lanes w deadline) c) :
    (∀ rc m, c.result w = some (rc, m) →
      ((m.activeSlots = [] ∧ m.ev.freeSlots.Perm (List.range kSlotCount) ∧
        ∀ p ∈ c.state.posted w, p.fate ≠ .pending) ↔
          .probe ∉ m.faults ∧ ∀ others, .post others ∈ m.faults → others = 0) ∧
      (rc = 0 ↔ m.faults = []) ∧ (rc = 0 → m.activeSlots = [])) ∧
    ∀ m index expected desired next, c.prog w = .act m (.casWeak index expected desired) next →
      (∃ p ∈ c.state.posted w, p.fate = .pending ∧ p.wr.token = expected >>> 2) →
      m.lastLook = some (expected >>> 2) := by
  obtain ⟨pace, hgood, hret⟩ := clientWith_returned ctx hist hn w hdl hr
  constructor
  · intro rc m hres
    obtain ⟨hrc, hstop, -⟩ := hret rc m hres
    rw [← hstop.exit.nil_iff]
    refine ⟨⟨And.left, fun hnil => ⟨hnil, hstop.nothing_pending rfl hnil⟩⟩, ?_⟩
    rcases hrc with ⟨rfl, hnil, hnone⟩ | ⟨rfl, hne, -⟩
    · exact ⟨⟨fun _ => hnone, fun _ => rfl⟩, fun _ => hnil⟩
    · exact ⟨⟨fun h => absurd h (by decide), fun h => absurd h hne⟩, fun h => absurd h (by decide)⟩
  · intro m index expected desired next hp hpend
    exact hgood.promise hp (o := ⟨0, true, false⟩) (fun h => nomatch h) hpend

/-- The work request `wr` of the first request of a client with small buffers. -/
def smallWr (read : Bool) (wr : ℕ) : Outstanding where
  lane := wr / 2
  localAddr := 0x100000 + (if read then wr else wr % 2) * 4096
  remoteAddr := 0x4000000 + wr * 4096
  len := 4096
  srcChip := 1
  dstChip := 1
  userCtx := 256 + wr
  read := read
  id := .slot 0 wr
  request := 1

/-- A pipeline with one request under way, and the completion of its first work request reports a
failure: the pipeline returns `-1` with nineteen work requests nobody has waited for. -/
def abandoned : Conf (Fin 1) Worker Sys Act (ℤ × Worker) :=
  (clientWith (smallContext .write 1 1) freshHist 10 (0 : Fin 1) 1).plays
    (bench 1 (fun _ => .any) .free)
    (steps 0 0 160 ++ .env (.deliver (smallWr false 0) false) :: steps 0 0 60)

theorem abandoned_run :
    Reachable (bench 1 (fun _ => .any) .free)
      (clientWith (smallContext .write 1 1) freshHist 10 (0 : Fin 1) 1) abandoned ∧
    ∃ a, abandoned.result 0 = some a ∧ a.1 = -1 ∧ a.2.faults = [.probe] ∧ a.2.activeSlots = [0] ∧
      a.2.ev.freeSlots.length = 237 ∧
      (abandoned.state.posted 0).countP (·.fate = .pending) = 19 ∧
      abandoned.state.out.length = 19 := by
  exact Reachable.of_replay_result (d := abandoned) rfl 0 (fun a c => a.1 = -1 ∧
    a.2.faults = [.probe] ∧ a.2.activeSlots = [0] ∧ a.2.ev.freeSlots.length = 237 ∧
    (c.state.posted 0).countP (·.fate = .pending) = 19 ∧ c.state.out.length = 19) (by decide +kernel)

theorem pipeline_exit_abandons : ∃ c m,
    Reachable (bench 1 (fun _ => .any) .free)
      (clientWith (smallContext .write 1 1) freshHist 10 (0 : Fin 1) 1) c ∧
    c.result 0 = some (-1, m) ∧ m.activeSlots = [0] ∧ m.ev.freeSlots.length = 237 ∧
    (c.state.posted 0).countP (·.fate = .pending) = 19 ∧ c.state.out.length = 19 := by
  obtain ⟨hr, ⟨_, m⟩, hres, rfl, -, hm⟩ := abandoned_run
  exact ⟨abandoned, m, hr, hres, hm⟩

/-- A client with no lanes: the first request cannot be posted, while no other one is active. -/
def refused : Conf (Fin 1) Worker Sys Act (ℤ × Worker) :=
  (clientWith (smallContext .write 1 1) freshHist 0 (0 : Fin 1) 1).plays
    (bench 1 (fun _ => .any) .free) (steps 0 0 40)

/-- A failed completion leaves something under way, a failed post of the only request does not. -/
theorem pipeline_exit_abandoned :
    (∃ m, abandoned.result 0 = some (-1, m) ∧ m.faults = [.probe] ∧
      ¬ (m.activeSlots = [] ∧ m.ev.freeSlots.Perm (List.range kSlotCount) ∧
        ∀ p ∈ abandoned.state.posted (0 : Fin 1), p.fate ≠ .pending)) ∧
    ∃ m, refused.result 0 = some (-1, m) ∧ m.faults = [.post 0] ∧
      m.activeSlots = [] ∧ m.ev.freeSlots.Perm (List.range kSlotCount) ∧
        ∀ p ∈ refused.state.posted (0 : Fin 1), p.fate ≠ .pending := by
  constructor
  · obtain ⟨hr, ⟨_, m⟩, hres, rfl, hfaults, -⟩ := abandoned_run
    refine ⟨m, hres, hfaults, fun hleft => ?_⟩
    have h := (pipeline_exit (smallContext .write 1 1) freshHist (by decide) 10 0 (by decide) hr).1
      _ m hres
    refine (h.1.1 hleft).1 ?_
    rw [show m.faults = [.probe] from hfaults]
    exact List.mem_singleton_self _
  · obtain ⟨hr, ⟨_, m⟩, hres, rfl, hfaults⟩ := Reachable.of_replay_result (d := refused) rfl 0
      (fun a _ => a.1 = -1 ∧ a.2.faults = [.post 0]) (by decide +kernel)
    refine ⟨m, hres, hfaults, ?_⟩
    have h := (pipeline_exit (smallContext .write 1 1) freshHist (by decide) 0 0 (by decide) hr).1
      _ m hres
    refine h.1.2 ?_
    rw [show m.faults = [.post 0] from hfaults]
    simp

/-! ### The accounts -/

/-- No fault is excluded but for the worker `w`: it never finds the lane pool empty, its posts
succeed, and its completions report success and come in time. -/
def faultFree (w : ℕ) (whole : Bool) (i : ℕ) : Mode :=
  if i = w then ⟨true, true, true, true, whole⟩ else .any

section Accounts

variable {n : ℕ}

theorem faultFree_exact (args : Argument) (lanes : ℕ) (pace : Pace) (w : ℕ) {whole : Bool}
    (hwhole : args.op = .get → whole = true) :
    (Setup.plain args n lanes (faultFree w whole) pace).Exact args w := by
  have hmode : faultFree w whole w = ⟨true, true, true, true, whole⟩ := if_pos rfl
  unfold Setup.Exact Setup.Clean Setup.Healthy Setup.plain
  dsimp only
  rw [hmode]
  exact ⟨⟨⟨⟨rfl, rfl, rfl⟩, .inl rfl⟩, rfl⟩, hwhole⟩

/-- A worker that holds no lane has released what it acquired. -/
theorem Inv.acquired_eq_released {B : Setup} {s : Sys} (hs : Inv B s) {w : ℕ}
    (h : ∀ l σ, ¬ (s.view w).holds l σ) (l : Lane) : s.acquired w l = s.released w l := by
  rw [hs.balance w l, List.countP_eq_zero.2, Nat.add_zero]
  rintro ⟨w', σ⟩ hmem hw
  obtain rfl : w' = w := of_decide_eq_true hw
  exact h l σ hmem

/-- What a fault-free pipeline of the worker `w` leaves behind after `total` requests: its accounts,
the totals of the histograms of `create_workers`, and for fewer than `2 ^ 28` requests counters that 64
bits can hold. -/
def InOrder (args : Argument) (hist : KvHist) (c w : ℕ) (s : Sys) (rc : ℤ) (m : Worker) : Prop :=
  rc = 0 ∧ ∃ total, Accounted c (pipelineSize args) (createWorker args hist w) 0 total m (s.view w) ∧
    (∀ l, s.acquired w l = s.released w l) ∧
    (hist = freshHist → m.histReq.totalCount = total % 2 ^ 64 ∧
      m.histWr.totalCount = total * kvWrPerReq % 2 ^ 64) ∧
    (pipelineSize args < 2 ^ 32 → total < 2 ^ 28 → m.ops < 2 ^ 64 ∧ m.bytes < 2 ^ 64)

theorem Accounted.inOrder {args : Argument} {hist : KvHist} {c w total : ℕ} {s : Sys} {m : Worker}
    (h : Accounted c (pipelineSize args) (createWorker args hist w) 0 total m (s.view w))
    (hlanes : ∀ l, s.acquired w l = s.released w l) : InOrder args hist c w s 0 m := by
  refine ⟨rfl, total, h, hlanes, ?_, fun hsize htotal => ?_⟩
  · rintro rfl
    exact ⟨h.req.of_freshHist, h.wr.of_freshHist⟩
  · have hops : m.ops = 0 + total := h.ops
    have hbytes : m.bytes = 0 + total * (pipelineSize args * kvSendsPerReq) := h.bytes
    have hle : total * (pipelineSize args * kvSendsPerReq) ≤ 2 ^ 28 * (2 ^ 32 * kvSendsPerReq) :=
      Nat.mul_le_mul htotal.le (Nat.mul_le_mul_right _ hsize.le)
    have hmost : 2 ^ 28 * (2 ^ 32 * kvSendsPerReq) < 2 ^ 64 := by decide
    omega

variable (ctx : Context) (hist : KvHist) (hn : n ≤ 1024) (lanes : ℕ) (w : Fin n) {deadline k : ℕ}
  (hdl : deadline < 2 ^ 64) (hk : 1 ≤ k ∧ k ≤ 10) (hconc : ctx.args.concurrency = k) {whole : Bool}
  (hwhole : ctx.args.op = .get → whole = true)
include hn hdl hk hconc hwhole

/-- Whenever a fault-free pipeline has returned, its accounts are in order. -/
theorem pipeline_inOrder {c : Conf (Fin n) Worker Sys Act (ℤ × Worker)}
    (hr : Reachable (bench n (faultFree w whole) .free) (clientWith ctx hist lanes w deadline) c)
    {rc : ℤ} {m : Worker} (hres : c.result w = some (rc, m)) :
    InOrder ctx.args hist k w c.state rc m := by
  obtain ⟨pace, hgood, hret⟩ := clientWith_returned ctx hist hn w hdl hr
  have hslots := slotCount_of_concurrency hk hconc
  obtain ⟨h0, total, hacc⟩ :=
    (hret rc m hres).2.2 (faultFree_exact ctx.args lanes pace w hwhole)
  have hacc : Accounted (slotCount ctx.args) _ _ _ _ _ _ := hacc
  rw [hslots] at hacc
  subst h0
  exact hacc.inOrder (hgood.inv.acquired_eq_released hacc.lanes)

/-- A fault-free pipeline returns. -/
theorem pipeline_returns {pace : Pace} (hpace : pace.Live) {mv : ℕ → Move (Fin n) Oracle Env}
    (hrun : FairRun (bench n (faultFree w whole) pace) (clientWith ctx hist lanes w deadline) w mv) :
    ∃ j rc m, ((clientWith ctx hist lanes w deadline).after
        (bench n (faultFree w whole) pace) mv j).result w = some (rc, m) ∧
      InOrder ctx.args hist k w ((clientWith ctx hist lanes w deadline).after
        (bench n (faultFree w whole) pace) mv j).state rc m := by
  have hB := Setup.plain_sound n lanes (faultFree w whole) pace ctx.args hn hpace
  have hstart := Setup.good_start (B := .plain ctx.args n lanes (faultFree w whole) pace)
    rfl (fun _ => rfl) (clientWith_specs ctx hist hn lanes (faultFree w whole) hpace w hdl)
  have hQ := fun i (am : ℤ × Worker) =>
    (clientWith_steady lanes (faultFree w whole) pace ctx.args hist w i am.1 am.2).stable
  obtain ⟨j, ⟨rc, m⟩, hres, hq⟩ := hstart.returns hQ hB.env hrun
  have hinv := (hstart.after hQ hB.env hrun.enabled j).inv
  have hslots := slotCount_of_concurrency hk hconc
  obtain ⟨h0, total, hacc⟩ := (hq rfl).2.2 (faultFree_exact ctx.args lanes pace w hwhole)
  have hacc : Accounted (slotCount ctx.args) _ _ _ _ _ _ := hacc
  rw [hslots] at hacc
  subst h0
  exact ⟨j, 0, m, Conf.result_of_prog hres, hacc.inOrder (Inv.acquired_eq_released hinv hacc.lanes)⟩

end Accounts

/-- **Accounting of the write pipeline**: whatever ends its main loop, and whatever the other workers
do, a fault-free write pipeline returns, with `0` and with its accounts in order. -/
theorem write_pipeline_accounts (ctx : Context) (hop : ctx.args.op = .write) (hist : KvHist) {n : ℕ}
    (hn : n ≤ 1024) (lanes : ℕ) (w : Fin n) {deadline k : ℕ} (hdl : deadline < 2 ^ 64)
    (hk : 1 ≤ k ∧ k ≤ 10) (hconc : ctx.args.concurrency = k) :
    (∀ c, Reachable (bench n (faultFree w false) .free) (clientWith ctx hist lanes w deadline) c →
      ∀ rc m, c.result w = some (rc, m) → InOrder ctx.args hist k w c.state rc m) ∧
    ∀ pace : Pace, pace.Live → ∀ mv,
      FairRun (bench n (faultFree w false) pace) (clientWith ctx hist lanes w deadline) w mv →
      ∃ j rc m, ((clientWith ctx hist lanes w deadline).after
          (bench n (faultFree w false) pace) mv j).result w = some (rc, m) ∧
        InOrder ctx.args hist k w ((clientWith ctx hist lanes w deadline).after
          (bench n (faultFree w false) pace) mv j).state rc m := by
  have hwhole : ctx.args.op = .get → false = true := by
    intro hget
    rw [hop] at hget
    cases hget
  constructor
  · intro c hr rc m hres
    exact pipeline_inOrder ctx hist hn lanes w hdl hk hconc hwhole hr hres
  · intro pace hpace mv hrun
    exact pipeline_returns ctx hist hn lanes w hdl hk hconc hwhole hpace hrun

/-- The completions of the work requests from `wr` on, all successful. -/
def completions (read : Bool) (wr : ℕ) : List (Move (Fin 1) Oracle Env) :=
  (List.range' wr (kvWrPerReq - wr)).map fun wr => .env (.deliver (smallWr read wr) true)

/-- A fault-free run with one request, which completes when the time is over: it is drained. -/
def drainedRun : List (Move (Fin 1) Oracle Env) :=
  steps 0 0 160 ++ completions false 0 ++ steps 0 5 220

def drained : Conf (Fin 1) Worker Sys Act (ℤ × Worker) :=
  (clientWith (smallContext .write 1 1) freshHist 10 (0 : Fin 1) 5).plays
    (bench 1 (faultFree 0 false) .free) drainedRun

theorem write_pipeline_accounts_drained :
    (drained.result 0).any (fun a => a.2.ops = 1) = true ∧
      ∀ rc m, drained.result 0 = some (rc, m) →
        InOrder (smallArgs .write 1 1) freshHist 1 (0 : Fin 1) drained.state rc m := by
  obtain ⟨hr, hops⟩ := Reachable.of_replay (d := drained) rfl
    (fun c => (c.result 0).any (fun a => a.2.ops = 1) = true) (by decide +kernel)
  have hn : 1 ≤ 1024 := by decide
  have hk : 1 ≤ 1 ∧ 1 ≤ 10 := by decide
  refine ⟨hops, ?_⟩
  exact (write_pipeline_accounts (smallContext .write 1 1) rfl freshHist hn 10 0 (by decide) hk
    rfl).1 drained hr

/-- **Accounting of the get pipeline**, when its main loop does not end between two completions of a
request. -/
theorem get_pipeline_accounts (ctx : Context) (hist : KvHist) {n : ℕ} (hn : n ≤ 1024) (lanes : ℕ)
    (w : Fin n) {deadline k : ℕ} (hdl : deadline < 2 ^ 64) (hk : 1 ≤ k ∧ k ≤ 10)
    (hconc : ctx.args.concurrency = k) :
    (∀ c, Reachable (bench n (faultFree w true) .free) (clientWith ctx hist lanes w deadline) c →
      ∀ rc m, c.result w = some (rc, m) → InOrder ctx.args hist k w c.state rc m) ∧
    ∀ pace : Pace, pace.Live → ∀ mv,
      FairRun (bench n (faultFree w true) pace) (clientWith ctx hist lanes w deadline) w mv →
      ∃ j rc m, ((clientWith ctx hist lanes w deadline).after
          (bench n (faultFree w true) pace) mv j).result w = some (rc, m) ∧
        InOrder ctx.args hist k w ((clientWith ctx hist lanes w deadline).after
          (bench n (faultFree w true) pace) mv j).state rc m := by
  constructor
  · intro c hr rc m hres
    exact pipeline_inOrder ctx hist hn lanes w hdl hk hconc (fun _ => rfl) hr hres
  · intro pace hpace mv hrun
    exact pipeline_returns ctx hist hn lanes w hdl hk hconc (fun _ => rfl) hpace hrun

/-- A fault-free run with one request of which no completion comes before the time is over. -/
def drainedGet : Conf (Fin 1) Worker Sys Act (ℤ × Worker) :=
  (clientWith (smallContext .get 1 1) freshHist 10 (0 : Fin 1) 5).plays
    (bench 1 (faultFree 0 true) .free) (steps 0 0 160 ++ completions true 0 ++ steps 0 5 220)

theorem get_pipeline_accounts_drained :
    (drainedGet.result 0).any (fun a => a.2.ops = 1) = true ∧
      ∀ rc m, drainedGet.result 0 = some (rc, m) →
        InOrder (smallArgs .get 1 1) freshHist 1 (0 : Fin 1) drainedGet.state rc m := by
  obtain ⟨hr, hops⟩ := Reachable.of_replay (d := drainedGet) rfl
    (fun c => (c.result 0).any (fun a => a.2.ops = 1) = true) (by decide +kernel)
  have hn : 1 ≤ 1024 := by decide
  have hk : 1 ≤ 1 ∧ 1 ≤ 10 := by decide
  refine ⟨hops, ?_⟩
  exact (get_pipeline_accounts (smallContext .get 1 1) freshHist hn 10 0 (by decide) hk rfl).1
    drainedGet hr

/-- A fault-free run with one request of which the main loop has harvested one work request when the
time is over; the others complete at once. The drain waits for the consumed event in vain. -/
def partlyHarvested : Conf (Fin 1) Worker Sys Act (ℤ × Worker) :=
  (clientWith (smallContext .get 1 1) freshHist 10 (0 : Fin 1) 5).plays
    (bench 1 (faultFree 0 false) .free)
    (steps 0 0 134 ++ .env (.deliver (smallWr true 0) true) :: steps 0 0 36 ++ completions true 1 ++
      steps 0 10000000000 60 ++ steps 0 20000000000 200)

theorem get_pipeline_partly_harvested : ∃ c m,
    Reachable (bench 1 (faultFree 0 false) .free)
      (clientWith (smallContext .get 1 1) freshHist 10 (0 : Fin 1) 5) c ∧
    c.result 0 = some (0, m) ∧ (c.state.posted 0).length = 20 ∧ c.state.out = [] ∧
    (∀ p ∈ c.state.posted 0, p.fate = .landed) ∧ m.ops = 0 ∧ m.bytes = 0 ∧ m.errors = 1 ∧
    c.state.lanes.idle = [] := by
  obtain ⟨hr, ⟨_, m⟩, hres, rfl, hP⟩ := Reachable.of_replay_result (d := partlyHarvested) rfl 0
    (fun a c => a.1 = 0 ∧ (c.state.posted 0).length = 20 ∧ c.state.out = [] ∧
      (∀ p ∈ c.state.posted 0, p.fate = .landed) ∧ a.2.ops = 0 ∧ a.2.bytes = 0 ∧
      a.2.errors = 1 ∧ c.state.lanes.idle = []) (by decide +kernel)
  exact ⟨partlyHarvested, m, hr, hres, hP⟩

/-! ### Enough lanes -/

/-- A client all of whose workers are about to enter their pipelines. -/
def clientPipelines (ctx : Context) (hist : KvHist) {n : ℕ} (lanes : ℕ) (deadline : Fin n → ℕ) :
    Conf (Fin n) Worker Sys Act (ℤ × Worker) :=
  start lanes (fun i => clientPipeline ctx (deadline i)) fun i => createWorker ctx.args hist i

/-- Every post succeeds, and every completion reports success. -/
def Mode.healthy : Mode := ⟨false, true, true, false, false⟩

/-- The setting in which there is a lane for every send. -/
def Setup.ample (args : Argument) (n lanes N : ℕ) : Setup where
  n := n
  lanes := lanes
  slots := slotCount args
  mode := fun _ => .healthy
  pace := .grace N
  good := fun _ _ => True
  watch := fun _ _ _ _ => True
  roomy := True
  taken := []

theorem Setup.ample_sound {args : Argument} {n lanes : ℕ} (hn : n ≤ 1024)
    (hroom : n * (slotCount args * kvSendsPerReq) ≤ lanes) (N : ℕ) :
    (Setup.ample args n lanes N).Sound :=
  ⟨hn, slotCount_le args, Pace.grace_live N, fun _ => ⟨rfl, fun _ => ⟨rfl, rfl⟩⟩, fun _ => hroom⟩

theorem Pipe.ample_fits {p : Pipe} (ctx : Context) (n lanes N : ℕ) (hp : p.fatalRc (-1) = true) :
    p.Fits (.ample ctx.args n lanes N) ctx :=
  Pipe.fits_of_good rfl (fun _ _ => trivial) (fun _ _ _ _ _ => trivial) hp

/-- **A pool with a lane for every send never kills a healthy run**: when ten lanes for each slot of
each worker fit into the pool of `run_client`, every pipeline that returns does so with `0`. -/
theorem pipelines_with_ample_lanes (ctx : Context) (hist : KvHist)
    (hargs : validateInputParams ctx.args = .ok ()) {n : ℕ} (hthreads : ctx.args.threads = n)
    (hroom : n * (slotCount ctx.args * kvSendsPerReq) ≤ poolSize ctx.args)
    {deadline : Fin n → ℕ} (hdl : ∀ i, deadline i < 2 ^ 64)
    {c : Conf (Fin n) Worker Sys Act (ℤ × Worker)}
    (hr : Reachable (bench n (fun _ => .healthy) .free)
      (clientPipelines ctx hist (poolSize ctx.args) deadline) c) (i : Fin n)
    (rc : ℤ) (m : Worker) (hres : c.result i = some (rc, m)) : rc = 0 := by
  obtain ⟨N, hr⟩ := exists_grace hr fun _ => rfl
  have hn : n ≤ 1024 := by
    have := (validateInputParams_accepted hargs).threads_le
    omega
  have hB := Setup.ample_sound hn hroom N
  have hgood := Setup.good_reachable (B := .ample ctx.args n (poolSize ctx.args) N) hB rfl
    (fun _ => rfl) (fun _ rc m => Returned.steady _ _ _ rc m)
    (fun i => clientPipeline_spec hB (Pipe.ample_fits ctx _ _ N rfl) (Pipe.ample_fits ctx _ _ N rfl)
      (createWorker_ready ctx.args hist i) (hdl i)) hr
  rcases (hgood.result hres).1 with ⟨h0, -⟩ | ⟨-, -, hno⟩
  · exact h0
  · exact absurd ⟨⟨rfl, rfl, rfl⟩, .inr trivial⟩ hno

/-- A client of two workers with one slot each, on twenty lanes. -/
def twentyLanes : Context :=
  { smallContext .write 2 1 with args := { smallArgs .write 2 1 with jettyCount := 20 } }

/-- Both workers have posted their first request. -/
def bothPosted : Conf (Fin 2) Worker Sys Act (ℤ × Worker) :=
  (clientPipelines twentyLanes freshHist (poolSize twentyLanes.args) fun _ => 5).plays
    (bench 2 (fun _ => .healthy) .free) (steps 0 0 160 ++ steps 1 0 160)

/-- All completions come, and both workers drain when the time is over. -/
def bothServed : Conf (Fin 2) Worker Sys Act (ℤ × Worker) :=
  (clientPipelines twentyLanes freshHist (poolSize twentyLanes.args) fun _ => 5).plays
    (bench 2 (fun _ => .healthy) .free) (steps 0 0 160 ++ steps 1 0 160 ++
      bothPosted.state.out.map (fun r => .env (.deliver r true)) ++ steps 0 5 220 ++ steps 1 5 220)

theorem pipelines_with_ample_lanes_both :
    bothPosted.state.out.length = 40 ∧ bothPosted.state.lanes.idle = [] ∧
      ∀ i : Fin 2, ∃ m, bothServed.result i = some (0, m) ∧ m.ops = 1 := by
  have hroom : 2 * (slotCount twentyLanes.args * kvSendsPerReq) ≤ poolSize twentyLanes.args := by
    decide
  have hdl : ∀ i : Fin 2, (fun _ => 5 : Fin 2 → ℕ) i < 2 ^ 64 := by decide
  obtain ⟨hr, hsome⟩ := Reachable.of_replay (d := bothServed) rfl
    (fun c => ∀ i, (c.result i).any (fun a => a.2.ops = 1) = true) (by decide +kernel)
  refine ⟨by decide +kernel, by decide +kernel, fun i => ?_⟩
  obtain ⟨⟨rc, m⟩, hres, hops⟩ := (Option.any_eq_true _ _).1 (hsome i)
  obtain rfl := pipelines_with_ample_lanes twentyLanes freshHist rfl (n := 2) rfl hroom hdl hr i
    rc m hres
  exact ⟨m, hres, of_decide_eq_true hops⟩

/-- Two workers with one request each, on the ten lanes that `run_client` provides. -/
def starved : Conf (Fin 2) Worker Sys Act (ℤ × Worker) :=
  (clientPipelines (smallContext .write 2 1) freshHist (poolSize (smallArgs .write 2 1))
    fun _ => 5).plays (bench 2 (fun _ => .healthy) .free) (steps 0 0 160 ++ steps 1 0 40)

/-- The second worker finds the pool empty, and its pipeline returns `-1`. -/
theorem pipelines_starved : ∃ c m, validateInputParams (smallArgs .write 2 1) = .ok () ∧
    Reachable (bench 2 (fun _ => .healthy) .free)
      (clientPipelines (smallContext .write 2 1) freshHist (poolSize (smallArgs .write 2 1))
        fun _ => 5) c ∧
    c.result 1 = some (-1, m) := by
  obtain ⟨hr, ⟨_, m⟩, hres, rfl⟩ := Reachable.of_replay_result (d := starved) rfl 1
    (fun a _ => a.1 = -1) (by decide +kernel)
  exact ⟨starved, m, rfl, hr, hres⟩

end KvBench.Bench
