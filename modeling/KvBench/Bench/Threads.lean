import KvBench.Bench.Drains
import KvBench.Bench.Sync

/-!
# The pipelines and the worker threads, specified

`clientWritePipeline_spec` and `clientGetPipeline_spec` put the main loop and the drains together.
`clientWorkerMain_spec` says that a worker thread keeps to the discipline in every mode of operation.
-/

namespace KvBench.Bench

open KvBench.Conc KvBench.Events KvBench.Hist Worker

/-! ### The pipelines -/

/-- No fault is possible and no completion comes too late. -/
def Setup.Clean (B : Setup) (w : ℕ) : Prop := B.Healthy w ∧ (B.mode w).timely = true

/-- The memory of a worker with the number `w` and `c` slots before its pipeline starts; some of its
event slots may be in use elsewhere. -/
structure Rested (c w : ℕ) (m : Worker) : Prop where
  id : m.id = w
  slots : m.wrSlots = fun _ => .zero
  active : m.activeSlots = []
  free : m.freeSlots.Perm (List.range c)
  faults : m.faults = []

/-- The same, with all event slots free. -/
structure Ready (c w : ℕ) (m : Worker) : Prop extends Rested c w m where
  events : m.ev = .fresh

section Start

variable {B : Setup} {i : Fin B.n} {T : Prop}

/-- At the start a worker holds nothing. -/
theorem Core.initial_without (i : Fin B.n) (T : Prop) :
    Core B i T (.without B.taken) .empty ((Sys.initial B.lanes).view i) := by
  have hidle : ∀ ρ t, (Ghost.empty.tok ρ).live ≠ some t := by
    intro ρ t ht
    cases ht
  constructor
  case nodup => exact EventSlots.nodup_without _
  case free =>
    intro k
    rw [EventSlots.mem_without]
    exact ⟨fun hk => ⟨hk, fun ρ t ht => absurd ht (hidle ρ t)⟩, And.left⟩
  case zero => exact fun _ _ => rfl
  case valid => exact fun ρ t ht => absurd ht (hidle ρ t)
  case small => exact fun ρ t ht => absurd ht (hidle ρ t)
  case inj => exact fun ρ _ t _ ht => absurd ht (hidle ρ t)
  case fresh => exact fun ρ t ht => nomatch ht
  case posted => exact fun ρ t ht => nomatch ht
  case awaits =>
    intro ρ t
    constructor
    · intro ht
      cases ht
    · rintro ⟨p, hp, -⟩
      cases hp
  case holds => exact fun σ l hσ => nomatch hσ
  case outs => exact fun r hr => nomatch hr.1
  case tidy => exact fun _ l σ hh => nomatch hh
  case posts => rfl

theorem Core.initial (htaken : B.taken = []) (i : Fin B.n) (T : Prop) :
    Core B i T .fresh .empty ((Sys.initial B.lanes).view i) := by
  have h := Core.initial_without i T
  rwa [htaken, EventSlots.without_nil] at h

theorem Rested.known {m m' : Worker} {v : View} (h : Rested B.slots i m)
    (hn : Near B i True m .empty m' v) (T : Prop) (size : ℕ) :
    Known B i T size m 0 (·.activeSlots = []) m' v := by
  have hempty : flyOf m = ∅ := by
    ext a
    simp [flyOf, h.active]
  refine ⟨(m, 0), ⟨⟨h.id, ?_, ?_, ?_, ?_, h.faults⟩, ⟨rfl, ?_, rfl, Grown.refl _, ?_⟩, h.active⟩, .empty,
    ⟨?_, rfl, fun _ => rfl, fun _ _ => .inl rfl, ?_, ?_, fun _ _ _ => rfl, ?_⟩, hn.mem,
    hn.core.mono fun _ => trivial⟩
  · rw [h.active]
    exact h.free
  · intro idx _ send
    rw [h.slots]
    rfl
  · intro idx send _
    rw [h.slots]
    rfl
  · intro idx hidx
    rw [h.active] at hidx
    cases hidx
  · simp
  · simpa [h.active] using Grown.refl m.histWr
  · intro idx send
    show none = (m.wrSlots idx).jetty send
    rw [h.slots]
    rfl
  · intro idx wr
    show (m.wrSlots idx).eventToken wr < 2 ^ 40
    rw [h.slots]
    exact Nat.two_pow_pos 40
  · intro idx wr
    show (idx, wr) ∈ flyOf m ↔ _
    rw [hempty]
    constructor <;> intro ha <;> cases ha
  · show 0 = 0 + (0 + m.activeSlots.length) * kvWrPerReq
    rw [h.active]
    rfl

end Start

section Pipelines

variable {B : Setup} {i : Fin B.n} {base : Worker} {p₀ deadline : ℕ} {ctx : Context} {T : Prop}

/-- The end of both pipelines, after the drain. -/
theorem reportFailures_spec {size total failures : ℕ} (htaken : T → B.taken = []) :
    B.Triple i (fun m v _ => DrainedAll B i T size base (p₀ + total * kvWrPerReq) total failures m v)
      (reportFailures failures >>= fun _ => pure (0 : ℤ))
      (fun rc m v _ => (rc = 0 ∧ m.activeSlots = [] ∧ m.faults = []) ∧ Stopped B i m v ∧
        (T → Accounted B.slots size base p₀ total m v)) := by
  have hstop : ∀ {x : Worker} {rest : Set (ℕ × ℕ)} {k : ℕ} {m : Worker} {v : View},
      x.activeSlots = [] → x.faults = [] → Track B i T x ∅ rest k m v →
        (m.activeSlots = [] ∧ m.faults = []) ∧ Stopped B i m v := by
    intro x rest k m v hnil hnone ht
    refine ⟨⟨ht.mem.activeSlots.trans hnil, ht.mem.faults.trans hnone⟩, (x, ∅, rest, k),
      ⟨fun _ => rfl, ?_⟩, ht.tidy False.elim⟩
    show Exit x.faults x.activeSlots
    rw [hnil, hnone]
    exact .drained
  unfold reportFailures
  refine Setup.Triple.of_exists fun x hx => ?_
  by_cases hf : 0 < failures
  · have hno : ¬ T := by
      intro hT
      have := (hx.1.books hT).1
      omega
    rw [if_pos hf]
    refine Track.modify_bind (fun _ _ _ => rfl) (fun g hg => hg) (Setup.Triple.pure ?_)
    intro m v n ht
    obtain ⟨hnil, hs⟩ := hstop (x := { x.1 with errors := x.1.errors + failures }) hx.2
      hx.1.slots.faults ht
    exact ⟨⟨rfl, hnil⟩, hs, fun hT => absurd hT hno⟩
  · rw [if_neg hf]
    refine Setup.Triple.pure ?_
    intro m v n ht
    obtain ⟨hnil, hs⟩ := hstop hx.2 hx.1.slots.faults ht
    exact ⟨⟨rfl, hnil⟩, hs, hx.1.accounted hx.2 htaken ht⟩

theorem drainDeadlineOf_spec {Φ : Worker → View → Prop} (hΦ : ∀ m, B.Steady i (Φ m))
    (args : Argument) :
    B.Triple i (fun m v _ => Φ m v) (drainDeadlineOf args) (fun _ m v _ => Φ m v) :=
  Setup.Triple.bind (now_any hΦ) fun _ => Setup.Triple.pure fun _ _ _ h => h

variable (B i) in
/-- What a pipeline that returned `rc` guarantees: `0` after the drain, `-1` only when something
went wrong, and the accounts are in order under the condition `T`. -/
def Returned (T : Prop) (size : ℕ) (base : Worker) (p₀ : ℕ) (rc : ℤ) (m : Worker) (v : View) :
    Prop :=
  (rc = 0 ∧ m.activeSlots = [] ∧ m.faults = [] ∨ rc = -1 ∧ m.faults ≠ [] ∧ ¬ B.Healthy i) ∧
    Stopped B i m v ∧
    (T → rc = 0 ∧ ∃ total, Accounted B.slots size base p₀ total m v)

/-- **The write pipeline** returns `-1` only when something went wrong, and accounts for all its
requests when nothing can. -/
theorem clientWritePipeline_spec (hB : B.Sound) (hp : (writePipe ctx.args).Fits B ctx)
    (hdl : deadline < 2 ^ 64) :
    B.Triple i
      (fun m v _ => Known B i (B.Healthy i) ctx.args.sendSize base p₀ (·.activeSlots = []) m v)
      (clientWritePipeline ctx deadline)
      (fun rc m v _ => Returned B i (B.Clean i) ctx.args.sendSize base p₀ rc m v) := by
  have hT : B.Clean i → (B.mode i).cqesOk = true ∧ (B.mode i).timely = true :=
    fun h => ⟨h.1.1.2.1, h.2⟩
  unfold clientWritePipeline
  refine Setup.Triple.bind (mainLoop_spec hB hp hdl) fun b => ?_
  cases b with
  | false =>
    refine Setup.Triple.pure ?_
    rintro m v n ⟨hno, hs, hne⟩
    exact ⟨.inr ⟨rfl, hne, hno⟩, hs, fun hc => absurd hc.1 hno⟩
  | true =>
    simp only [if_true]
    refine Setup.Triple.of_exists fun ⟨m₁, fin⟩ ⟨hs, hl, _⟩ => ?_
    refine Setup.Triple.bind (drainDeadlineOf_spec (Track.steady _ _ _ _) ctx.args) fun dl => ?_
    refine Setup.Triple.bind ((drainWrite_spec (T := B.Clean i)
      (k := p₀ + (fin + m₁.activeSlots.length) * kvWrPerReq) hB hT dl 0).pre ?_)
      fun failures => (reportFailures_spec fun h => h.1.1.2.2).post fun rc m v n _ h =>
        ⟨.inl h.1, h.2.1, fun hc => ⟨h.1.1, _, h.2.2 hc⟩⟩
    · intro m v n _ ht
      refine ⟨(m₁, (flyOf m₁)ᶜ), ⟨⟨hs, fun _ => ⟨rfl, fin, hl, rfl⟩, fun _ => subset_rfl⟩, ?_⟩,
        ht.tidy And.left⟩
      intro idx _ wr _ hdone hfly
      have hopen : (m₁.wrSlots idx).done wr = false := hfly.2.2
      rw [show (m₁.wrSlots idx).done wr = true from hdone] at hopen
      cases hopen

/-- **The get pipeline** returns `-1` only when something went wrong, and accounts for all its
requests when nothing can and no request is partly harvested when the main loop ends. -/
theorem clientGetPipeline_spec (hB : B.Sound) (hp : (getPipe ctx.args).Fits B ctx)
    (hdl : deadline < 2 ^ 64) :
    B.Triple i
      (fun m v _ => Known B i (B.Healthy i) ctx.args.valueSize base p₀ (·.activeSlots = []) m v)
      (clientGetPipeline ctx deadline)
      (fun rc m v _ => Returned B i (B.Clean i ∧ (B.mode i).whole = true) ctx.args.valueSize base p₀
        rc m v) := by
  have hT : B.Clean i ∧ (B.mode i).whole = true →
      (B.mode i).cqesOk = true ∧ (B.mode i).timely = true := fun h => ⟨h.1.1.1.2.1, h.1.2⟩
  unfold clientGetPipeline
  refine Setup.Triple.bind (mainLoop_spec hB hp hdl) fun b => ?_
  cases b with
  | false =>
    refine Setup.Triple.pure ?_
    rintro m v n ⟨hno, hs, hne⟩
    exact ⟨.inr ⟨rfl, hne, hno⟩, hs, fun hc => absurd hc.1.1 hno⟩
  | true =>
    simp only [if_true]
    refine Setup.Triple.of_exists fun ⟨m₁, fin⟩ ⟨hs, hl, hwhole⟩ => ?_
    refine Setup.Triple.bind (drainDeadlineOf_spec (Track.steady _ _ _ _) ctx.args) fun dl => ?_
    refine Setup.Triple.bind ((drainGet_spec (T := B.Clean i ∧ (B.mode i).whole = true)
      (k := p₀ + (fin + m₁.activeSlots.length) * kvWrPerReq) hB hT dl 0).pre ?_)
      fun failures => (reportFailures_spec fun h => h.1.1.1.2.2).post fun rc m v n _ h =>
        ⟨.inl h.1, h.2.1, fun hc => ⟨h.1.1, _, h.2.2 hc⟩⟩
    · intro m v n _ ht
      refine ⟨(m₁, flyOf m₁, (flyOf m₁)ᶜ), ⟨⟨hs, fun _ => ⟨rfl, fin, hl, rfl⟩, fun _ => subset_rfl⟩,
        ⟨subset_rfl, fun _ => rfl⟩, ?_⟩, ht.tidy fun h => h.1.1⟩
      intro hc idx hidx wr hwr
      have hzero : harvested (m₁.wrSlots idx) = 0 := by
        rw [← hs.count idx hidx]
        exact hwhole rfl hc.2 idx hidx
      have hnot := Finset.filter_eq_empty_iff.1 (Finset.card_eq_zero.1 hzero)
        (Finset.mem_range.2 hwr)
      exact Bool.eq_false_iff.2 hnot

theorem Stopped.steady (m : Worker) : B.Steady i (Stopped B i m) :=
  Setup.Steady.exists fun _ => (Setup.Steady.const _).and (Track.steady _ _ _ _ m)

theorem Accounted.steady (c size : ℕ) (base : Worker) (p₀ total : ℕ) (m : Worker) :
    B.Steady i (Accounted c size base p₀ total m) :=
  fun _ _ _ _ _ _ h => { h with ops := h.ops }

theorem Returned.steady (size p₀ : ℕ) (base : Worker) (rc : ℤ) (m : Worker) :
    B.Steady i (Returned B i T size base p₀ rc m) :=
  (Setup.Steady.const _).and ((Stopped.steady m).and ((Setup.Steady.const _).and
    (Setup.Steady.exists fun _ => Accounted.steady _ _ _ _ _ m)).imp)

end Pipelines

/-! ### The worker threads -/

/-- What is assumed of a client in the setting `B`, for the mode of operation it runs in. -/
structure Context.Fits (ctx : Context) (B : Setup) (Off : ℕ → Prop) : Prop where
  write : ctx.args.op = .write → (writePipe ctx.args).Fits B ctx
  get : ctx.args.op = .get → (getPipe ctx.args).Fits B ctx
  mixed : ctx.args.op = .mixed → Round.Fits ctx B Off

section Good

variable {B : Setup} {ctx : Context} (hslots : B.slots = slotCount ctx.args)
  (hgood : ∀ id r, B.good id r)
  (hwatch : ∀ (i : Fin B.n) place m v, AtPlace B i place m v → B.watch i place m v)
include hslots hgood hwatch

/-- A setting that asks nothing of the work requests. -/
theorem Pipe.fits_of_good {p : Pipe} (hp : p.fatalRc (-1) = true) : p.Fits B ctx :=
  ⟨hslots, fun _ _ _ _ _ _ _ => hgood _ _, hp, hwatch⟩

theorem Context.fits_of_good (htight : ¬ B.roomy) : ctx.Fits B fun _ => True where
  write _ := Pipe.fits_of_good hslots hgood hwatch rfl
  get _ := Pipe.fits_of_good hslots hgood hwatch rfl
  mixed _ := ⟨htight, fun _ _ => trivial, fun _ _ _ => trivial, fun _ _ _ _ _ _ _ => hgood _ _,
    fun _ _ _ _ _ _ _ => hgood _ _, fun _ _ _ _ _ _ => hgood _ _⟩

end Good

section Workers

variable {B : Setup} {i : Fin B.n} {ctx : Context} {Off : ℕ → Prop} {m₀ : Worker}

theorem syncGhost_empty : syncGhost none .idle .idle 0 = .empty := by
  simp only [syncGhost, Ghost.empty, Ghost.mk.injEq, and_true]
  constructor
  · funext σ
    cases σ <;> rfl
  · funext ρ
    split <;> rfl

theorem pipelineDone_spec {P : Worker → View → ℕ → Prop} (rc : ℤ) :
    B.Triple i P (pipelineDone ctx rc) (fun _ _ _ _ => True) :=
  Setup.Triple.ite (fun _ => countError_spec) fun _ => Setup.Triple.pure fun _ _ _ _ => trivial

/-- A worker thread of any mode of operation keeps to the discipline and ends, however few event
slots it has. -/
theorem clientWorkerMain_rested (hB : B.Sound) (hf : ctx.Fits B Off) (hm : Rested B.slots i m₀) :
    B.Triple i (fun m v _ => Near B i True m₀ .empty m v) (clientWorkerMain ctx)
      (fun _ _ _ _ => True) := by
  unfold clientWorkerMain
  refine Near.now_bind fun t => ?_
  refine Setup.Triple.bind (now_lt (Near.steady _ _ _)) fun t' => ?_
  refine Setup.Triple.of_fact (p := t' < 2 ^ 64) (fun m v n _ h => h.1) fun ht' => ?_
  refine Setup.Triple.pre (P := fun m v _ => Near B i True m₀ .empty m v) ?_ fun m v n _ h => h.2
  refine Near.modify_bind (fun _ _ _ => rfl) ?_
  have hdl : (t + ctx.args.durationSec * 1000000000) % 2 ^ 64 < 2 ^ 64 :=
    Nat.mod_lt _ (Nat.two_pow_pos 64)
  set m₁ : Worker := { m₀ with
    nextPostNs := t', off := m₀.id * dataWindowPerThread * ctx.args.valueSize % 2 ^ 64 } with hm₁
  have hready : Rested B.slots i m₁ := ⟨hm.id, hm.slots, hm.active, hm.free, hm.faults⟩
  rcases hop : ctx.args.op with _ | _ | _
  · refine Setup.Triple.bind ((clientWritePipeline_spec hB (hf.write hop) hdl).pre
      fun m v n _ h => hready.known h (B.Healthy i) ctx.args.sendSize) fun rc => ?_
    exact pipelineDone_spec rc
  · refine Setup.Triple.bind ((clientGetPipeline_spec hB (hf.get hop) hdl).pre
      fun m v n _ h => hready.known h (B.Healthy i) ctx.args.valueSize) fun rc => ?_
    exact pipelineDone_spec rc
  · refine (syncLoop_spec hB (hf.mixed hop) hdl).pre fun m v n _ h => ?_
    refine ⟨(m₁, 0), ⟨hm.id, ht', ?_⟩, ?_⟩
    · show Off (m₀.id * dataWindowPerThread * ctx.args.valueSize % 2 ^ 64)
      rw [hm.id]
      exact (hf.mixed hop).start i i.2
    · rw [syncGhost_empty]
      exact ⟨h.mem, h.core.mono fun _ => trivial⟩

/-- **A worker thread** of any mode of operation keeps to the discipline and ends. -/
theorem clientWorkerMain_spec (hB : B.Sound) (hf : ctx.Fits B Off) (hm : Ready B.slots i m₀) :
    B.Triple i (fun m v _ => Near B i True m₀ .empty m v) (clientWorkerMain ctx)
      (fun _ _ _ _ => True) :=
  clientWorkerMain_rested hB hf hm.toRested

end Workers

end KvBench.Bench
