import KvBench.Bench.Clients
import KvBench.Bench.Frames
import KvBench.Order.Spaced

/-!
# The rate limit of the pipelines

Each thread lets a request through when its clock has reached `next_req_ns`, and sets `next_req_ns`
to that reading plus `interval_ns`. So its requests are at least `interval_ns` apart, counted from
the reading of the throttle, and at least `interval_ns - σ` apart when no request starts more than
`σ` after it. The total rate is respected as far as that interval is long enough: `threads` requests
in `interval_ns - σ` must be within `qps` (`rate_limit`).

It need not be long enough. A rate of less than one request per thread and second is raised to one
(`rate_exceeded`), and the interval is rounded down.
-/

namespace KvBench.Bench

open KvBench.Conc KvBench.Events KvBench.Hist KvBench.Order

/-! ### What a worker reads from its clock -/

/-- The readings of a worker's clock, the last first; whether a post function has been called since;
and for every request the reading of the throttle before it and its start, `post_ns`. -/
structure Clockings where
  readings : List ℕ
  called : Bool
  starts : List (ℕ × ℕ)

/-- Between the throttle and the call of a post function the clock is read once, so the reading of
the throttle is the last but one. -/
def clockStep {β : Type} : Act β → β → Clockings → Clockings
  | .now, t, h =>
    ⟨t :: h.readings, false,
      if h.called then (h.readings.getD 1 0, t) :: h.starts else h.starts⟩
  | .visit (.call _ _), _, h => { h with called := true }
  | _, _, h => h

/-- What the worker `w` has read in a run of the client. -/
def clockings (ctx : Context) (hist : KvHist) (n lanes : ℕ) (mvs : List (Move (Fin n) Oracle Env))
    (w : Fin n) : Clockings :=
  (client ctx hist n lanes).records clockStep (bench n (fun _ => .any) .free) w mvs ⟨[], false, []⟩

/-- The moments at which the worker has started requests. -/
def Clockings.startTimes (h : Clockings) : List ℕ := h.starts.map Prod.snd

/-- The clock does not go back and stays away from the end of its range, and no request starts more
than `σ` after the throttle has let it through. -/
structure Clockings.Regular (interval σ : ℕ) (h : Clockings) : Prop where
  order : h.readings.Pairwise fun later earlier => earlier ≤ later
  range : ∀ t ∈ h.readings, t + interval < 2 ^ 64
  prompt : ∀ s ∈ h.starts, s.2 ≤ s.1 + σ

instance (interval σ : ℕ) (h : Clockings) : Decidable (h.Regular interval σ) :=
  decidable_of_iff ((h.readings.Pairwise fun later earlier => earlier ≤ later) ∧
    (∀ t ∈ h.readings, t + interval < 2 ^ 64) ∧ ∀ s ∈ h.starts, s.2 ≤ s.1 + σ)
    ⟨fun ⟨h1, h2, h3⟩ => ⟨h1, h2, h3⟩, fun ⟨h1, h2, h3⟩ => ⟨h1, h2, h3⟩⟩

/-- Before the reading that is the start of a request, all earlier requests are an interval back. -/
def duly (interval σ : ℕ) : Private Worker Clockings Act where
  step := clockStep
  fact _ _ _ _ := True
  duty _ h e := match e with
    | .now => h.called = true → h.Regular interval σ →
        ∀ s ∈ h.starts, s.1 + interval ≤ h.readings.getD 1 0
    | _ => True

section Steps

variable {interval σ : ℕ} {h : Clockings}

theorem Clockings.Regular.of_step {β : Type} {e : Act β} {r : β}
    (hreg : (clockStep e r h).Regular interval σ) : h.Regular interval σ := by
  cases e with
  | now =>
    refine ⟨(List.pairwise_cons.1 hreg.order).2,
      fun t ht => hreg.range t (List.mem_cons_of_mem _ ht), fun s hs => hreg.prompt s ?_⟩
    show s ∈ if h.called then (h.readings.getD 1 0, r) :: h.starts else h.starts
    split
    · exact List.mem_cons_of_mem _ hs
    · exact hs
  | visit place => cases place <;> exact ⟨hreg.order, hreg.range, hreg.prompt⟩
  | _ => exact hreg

/-- Steps without a clock and without a call add nothing. -/
theorem clockStep_quiet {β : Type} {e : Act β} (he : e.quiet = true) (r : β) :
    (∃ t, clockStep e r h = ⟨t :: h.readings, false,
      if h.called then (h.readings.getD 1 0, t) :: h.starts else h.starts⟩) ∨
      clockStep e r h = h := by
  cases e with
  | now => exact .inl ⟨r, rfl⟩
  | visit place =>
    cases place with
    | call idx reqSeq => simp [Act.quiet] at he
    | _ => exact .inr rfl
  | _ => exact .inr rfl

/-- **A start is due**: what a worker owes keeps its starts apart. -/
theorem Clockings.Regular.spaced_step (hσ : σ ≤ interval) {β : Type} {m : Worker} {e : Act β} {r : β}
    (hduty : (duly interval σ).duty m h e)
    (hh : h.Regular interval σ → Spaced (interval - σ) h.startTimes)
    (hreg : (clockStep e r h).Regular interval σ) :
    Spaced (interval - σ) (clockStep e r h).startTimes := by
  have hold := hreg.of_step
  cases e with
  | now =>
    by_cases hcalled : h.called = true
    · have hstarts : (clockStep .now r h).starts = (h.readings.getD 1 0, r) :: h.starts := by
        simp [clockStep, hcalled]
      have hfirst : h.readings.getD 1 0 ≤ r := by
        rcases hget : h.readings[1]? with _ | t
        · simp [List.getD, hget]
        · have hmem : t ∈ h.readings := List.mem_of_getElem? hget
          simpa [List.getD, hget] using (List.pairwise_cons.1 hreg.order).1 t hmem
      unfold Clockings.startTimes
      rw [hstarts, List.map_cons, spaced_cons]
      refine ⟨fun d hd => ?_, hh hold⟩
      obtain ⟨s, hs, rfl⟩ := List.mem_map.1 hd
      have hdue := hduty hcalled hold s hs
      have hprompt := hold.prompt s hs
      omega
    · have hstarts : (clockStep .now r h).starts = h.starts := by
        simp [clockStep, hcalled]
      unfold Clockings.startTimes
      rw [hstarts]
      exact hh hold
  | visit place => cases place <;> exact hh hold
  | _ => exact hh hold

end Steps

/-! ### The throttle -/

section Throttle

variable {ctx : Context} {σ : ℕ}

/-- All requests have been let through an interval before `n` or earlier. -/
def Due (ctx : Context) (σ n : ℕ) (_ : Worker) (h : Clockings) : Prop :=
  h.called = false ∧ (h.Regular (intervalNs ctx.args) σ →
    ∀ s ∈ h.starts, s.1 + intervalNs ctx.args ≤ n)

/-- The clock has reached `n`. -/
def Reached (ctx : Context) (σ n : ℕ) (m : Worker) (h : Clockings) : Prop :=
  Due ctx σ n m h ∧ ∃ t rest, h.readings = t :: rest ∧ n ≤ t

/-- The throttle has let a request through at its reading `t`, which is the one at position `k`. -/
def Through (ctx : Context) (σ k n : ℕ) (h : Clockings) : Prop :=
  h.Regular (intervalNs ctx.args) σ → ∃ t, h.readings[k]? = some t ∧ n = t + intervalNs ctx.args ∧
    ∀ s ∈ h.starts, s.1 + intervalNs ctx.args ≤ t

abbrev timely (ctx : Context) (σ : ℕ) : Private Worker Clockings Act := duly (intervalNs ctx.args) σ

theorem timely_now {h : Clockings} (t : ℕ) (hcalled : h.called = false) :
    (timely ctx σ).step .now t h = ⟨t :: h.readings, false, h.starts⟩ := by
  show clockStep .now t h = _
  simp [clockStep, hcalled]

/-- What does not depend on the memory and is kept by readings is framed. -/
theorem framed_of_clock {P : Clockings → Prop} (hcalled : ∀ h, P h → h.called = false)
    (hread : ∀ h t, P h → P ⟨t :: h.readings, false, h.starts⟩) :
    Unbooked (timely ctx σ) fun _ h => P h where
  memory _ h := h
  counters _ _ h := h
  owed _ := trivial
  counted h _ := h
  duty {β e m h} he hP := by
    cases e with
    | now =>
      intro hcall
      rw [hcalled h hP] at hcall
      cases hcall
    | _ => trivial
  step {β e m h r} he hP _ := by
    rcases clockStep_quiet (h := h) he r with ⟨t, ht⟩ | hsame
    · show P (clockStep e r h)
      rw [ht, hcalled h hP]
      exact hread h t hP
    · show P (clockStep e r h)
      rw [hsame]
      exact hP

/-- One more reading leaves a regular history regular. -/
theorem Clockings.Regular.of_reading {interval t : ℕ} {h : Clockings}
    (hreg : Clockings.Regular interval σ ⟨t :: h.readings, false, h.starts⟩) :
    h.Regular interval σ :=
  ⟨(List.pairwise_cons.1 hreg.order).2, fun t ht => hreg.range t (List.mem_cons_of_mem _ ht),
    hreg.prompt⟩

theorem due_framed (n : ℕ) : Unbooked (timely ctx σ) (Due ctx σ n) :=
  framed_of_clock (P := fun h => h.called = false ∧ (h.Regular (intervalNs ctx.args) σ →
    ∀ s ∈ h.starts, s.1 + intervalNs ctx.args ≤ n)) (fun _ hP => hP.1)
    fun _ _ hP => ⟨rfl, fun hreg => hP.2 hreg.of_reading⟩

theorem uncalled_framed : Unbooked (timely ctx σ) fun _ h => h.called = false :=
  framed_of_clock (fun _ hP => hP) fun _ _ _ => rfl

/-- A reading while no request is being started. -/
theorem now_due (n : ℕ) : Keeps (timely ctx σ) (Due ctx σ n) now fun t m h =>
    Due ctx σ n m h ∧ ∃ rest, h.readings = t :: rest := by
  refine Keeps.act (fun m h hD => (due_framed n).duty rfl hD) fun m h t hD hr => ?_
  exact ⟨(due_framed n).step (e := .now) rfl hD hr, h.readings, rfl⟩

theorem waitUntil_reached (n t : ℕ) :
    Keeps (timely ctx σ) (Due ctx σ n) (waitUntil n t) fun _ => Reached ctx σ n := by
  have hspin : Keeps (timely ctx σ) (Due ctx σ n) (Proc.loop (spinRound n) ())
      fun _ => Reached ctx σ n := by
    refine Spec.loop (fun _ => Due ctx σ n) (fun _ => Spec.bind (now_due n) fun t => ?_) ()
    refine Spec.ite (fun _ => Spec.pure fun m h hP => hP.1) fun ht => ?_
    refine Spec.pure fun m h hP => ?_
    obtain ⟨hdue, rest, hread⟩ := hP
    exact ⟨hdue, t, rest, hread, by omega⟩
  exact Spec.ite (fun _ => Spec.bind ((due_framed n).act rfl) fun _ => hspin) fun _ => hspin

/-- **The throttle** lets a request through at a reading that is no earlier than `n`, and the next one
is due an interval later. -/
theorem pause_through (hpos : 0 < intervalNs ctx.args) (n : ℕ) :
    Keeps (timely ctx σ) (Due ctx σ n) (pause ctx n) fun n' _ h =>
      h.called = false ∧ Through ctx σ 0 n' h := by
  have hlast : Keeps (timely ctx σ) (Reached ctx σ n) (do
      let t ← now
      pure ((t + intervalNs ctx.args) % 2 ^ 64)) fun n' _ h =>
        h.called = false ∧ Through ctx σ 0 n' h := by
    refine Spec.bind (Q := fun t _ h => h.called = false ∧
      (h.Regular (intervalNs ctx.args) σ → h.readings[0]? = some t ∧
        t + intervalNs ctx.args < 2 ^ 64 ∧ ∀ s ∈ h.starts, s.1 + intervalNs ctx.args ≤ t)) ?_ ?_
    · refine Keeps.act (fun m h hR => (due_framed n).duty rfl hR.1) fun m h t hR _ => ?_
      obtain ⟨⟨hcalled, hdue⟩, t', rest, hread, hle⟩ := hR
      rw [timely_now t hcalled]
      refine ⟨rfl, fun hreg => ⟨rfl, hreg.range t List.mem_cons_self, fun s hs => ?_⟩⟩
      have horder := (List.pairwise_cons.1 hreg.order).1 t' (by simp [hread])
      exact (hdue hreg.of_reading s hs).trans (hle.trans horder)
    · refine fun t => Spec.pure fun m h hP => ⟨hP.1, fun hreg => ?_⟩
      obtain ⟨hread, hrange, hdue⟩ := hP.2 hreg
      exact ⟨t, hread, Nat.mod_eq_of_lt hrange, hdue⟩
  refine Spec.ite (fun _ => Spec.bind (now_due n) fun t => ?_) fun hnot => absurd hpos hnot
  refine Spec.ite (fun _ => ?_) fun ht => ?_
  · refine Spec.pre (P := Due ctx σ n) ?_ fun m h hP => hP.1
    refine Spec.bind (due_framed n).now fun t' => Spec.bind (waitUntil_reached n t') fun _ => hlast
  · refine Spec.pre hlast fun m h hP => ?_
    obtain ⟨hdue, rest, hread⟩ := hP
    exact ⟨hdue, t, rest, hread, by omega⟩

/-! ### A request -/

theorem Through.due {k n : ℕ} {m : Worker} {h : Clockings} (hcalled : h.called = false)
    (hT : Through ctx σ k n h) : Due ctx σ n m h := by
  refine ⟨hcalled, fun hreg s hs => ?_⟩
  obtain ⟨t, -, rfl, hdue⟩ := hT hreg
  exact (hdue s hs).trans (Nat.le_add_right _ _)

theorem stamp_through (n : ℕ) :
    Keeps (timely ctx σ) (fun _ h => h.called = false ∧ Through ctx σ 0 n h) now
      fun _ _ h => h.called = false ∧ Through ctx σ 1 n h := by
  refine Keeps.act (fun m h hP => uncalled_framed.duty (m := m) rfl hP.1) fun m h t hP _ => ?_
  rw [timely_now t hP.1]
  exact ⟨rfl, fun hreg => hP.2 hreg.of_reading⟩

/-- The start of a request: its call and the reading of its `post_ns`. -/
theorem postOne_due (p : Pipe) (idx reqSeq n : ℕ) :
    Keeps (timely ctx σ) (fun _ h => h.called = false ∧ Through ctx σ 1 n h)
      (postOne ctx p idx reqSeq) fun rc m h =>
        (rc = 0 ∧ Due ctx σ n m h) ∨ (rc = -1 ∧ h.called = false) := by
  have hF : Unbooked (timely ctx σ) (Due ctx σ n) := due_framed n
  have hplan : PostPlan (timely ctx σ) ctx idx (fun _ => Due ctx σ n) (fun _ _ => Due ctx σ n)
      fun _ h => h.called = false :=
    { before := fun _ => hF.toFramed
      chosen := fun _ _ => hF.toFramed
      lost := uncalled_framed.toFramed
      choose := fun k _ => by
        refine Spec.get_bind fun m₀ => Spec.set_bind (Due ctx σ n) (fun m h hP => hP.2) ?_
        exact Spec.pure fun m h hP => hP
      drop := fun _ _ _ _ hP => hP.1
      post := fun k _ chips r _ _ => by
        refine Keeps.act (fun _ _ _ => trivial) fun m h ok hP _ => ?_
        cases ok with
        | true => exact hP
        | false => exact hP.1 }
  have hcall : Keeps (timely ctx σ) (fun _ h => h.called = false ∧ Through ctx σ 1 n h)
      (visit (.call idx reqSeq)) fun _ _ h => h.called = true ∧ Through ctx σ 1 n h := by
    refine Keeps.act (fun _ _ _ => trivial) fun m h _ hP _ => ⟨rfl, fun hreg => ?_⟩
    exact hP.2 ⟨hreg.order, hreg.range, hreg.prompt⟩
  have hstart : Keeps (timely ctx σ) (fun _ h => h.called = true ∧ Through ctx σ 1 n h) now
      fun _ => Due ctx σ n := by
    refine Keeps.act (fun m h hP _ hreg s hs => ?_) fun m h t hP _ => ?_
    · obtain ⟨t, hread, -, hdue⟩ := hP.2 hreg
      simpa [List.getD, hread] using hdue s hs
    · refine ⟨rfl, fun hreg s hs => ?_⟩
      have hreg : (clockStep .now t h).Regular (intervalNs ctx.args) σ := hreg
      obtain ⟨t', hread, rfl, hdue⟩ := hP.2 hreg.of_step
      have hs : s ∈ (clockStep .now t h).starts := hs
      have hs : s = (t', t) ∨ s ∈ h.starts := by
        simpa [clockStep, hP.1, List.getD, hread] using hs
      rcases hs with rfl | hs
      · exact le_rfl
      · exact (hdue s hs).trans (Nat.le_add_right _ _)
  refine Spec.bind hcall fun _ => ?_
  refine Spec.modify_bind (fun _ h => h.called = true ∧ Through ctx σ 1 n h) (fun _ _ hP => hP) ?_
  refine Spec.bind hstart fun t => hF.update_bind (fun _ => rfl) ?_
  refine Spec.bind (hplan.postWrs p reqSeq) fun r => ?_
  cases r with
  | some rc => exact Spec.pure fun m h hX => .inr hX
  | none =>
    exact hF.update_bind (fun _ => rfl)
      (Spec.pure fun m h hA => .inl ⟨rfl, hA⟩)

theorem schedule_due (hpos : 0 < intervalNs ctx.args) {p : Pipe} (hp : p.fatalRc (-1) = true) :
    Schedule (timely ctx σ) ctx p (postOne ctx p) (Due ctx σ)
      (fun n _ h => h.called = false ∧ Through ctx σ 0 n h)
      (fun n _ h => h.called = false ∧ Through ctx σ 1 n h) fun _ h => h.called = false where
  idle := due_framed
  lost := uncalled_framed
  pause := pause_through hpos
  back _ _ _ hP := hP.2.due hP.1
  pop _ _ _ _ hP := hP
  stamp := stamp_through
  post slot seq n := by
    refine (postOne_due p slot seq n).post ?_
    rintro rc m h (h0 | ⟨rfl, hX⟩)
    · exact .inl h0
    · exact .inr ⟨by decide, hp, hX⟩

theorem clientWorkerMain_due (hop : ctx.args.op ≠ .mixed) (hpos : 0 < intervalNs ctx.args) :
    Keeps (timely ctx σ) (fun _ h => h.called = false ∧ h.starts = []) (clientWorkerMain ctx)
      fun _ _ _ => True := by
  have hF : Unbooked (timely ctx σ) fun _ h => h.called = false ∧ h.starts = [] :=
    framed_of_clock (fun _ hP => hP.1) fun _ _ hP => ⟨rfl, hP.2⟩
  have hstart : Keeps (timely ctx σ) (fun _ h => h.called = false ∧ h.starts = []) now
      fun t => Due ctx σ t := by
    refine hF.now.post fun t m h hP => ⟨hP.1, fun _ s hs => ?_⟩
    rw [hP.2] at hs
    cases hs
  exact (clientWorkerMain_keeps hop hF.toFramed (fun _ _ _ _ hP => hP) hstart (schedule_due hpos rfl)
    (schedule_due hpos rfl)).post fun _ _ _ _ => trivial

end Throttle

/-! ### Whole runs -/

/-- **The rate limit.** In a run in which no clock goes back and no request starts more than `σ` after
its throttle, and when the interval is long enough for the rate even if it is shorter by `σ`, the
number of requests that all threads start in a window of `T` nanoseconds is at most
`qps * T / 10^9 + threads`. -/
theorem rate_limit (ctx : Context) (hop : ctx.args.op ≠ .mixed) (hist : KvHist) {n : ℕ}
    (hthreads : ctx.args.threads = n) (lanes : ℕ) (mvs : List (Move (Fin n) Oracle Env)) (σ : ℕ)
    (hsplit : n * 1000000000 ≤ ctx.args.qps * (intervalNs ctx.args - σ))
    (hreg : ∀ w, (clockings ctx hist n lanes mvs w).Regular (intervalNs ctx.args) σ) (a T : ℕ) :
    (∑ w, inWindow a T (clockings ctx hist n lanes mvs w).startTimes) * 1000000000 ≤
      ctx.args.qps * T + n * 1000000000 := by
  rcases Nat.eq_zero_or_pos n with rfl | hn
  · simp
  have hpos : 0 < intervalNs ctx.args - σ := by
    by_contra hzero
    rw [Nat.eq_zero_of_not_pos hzero, Nat.mul_zero] at hsplit
    omega
  refine sum_inWindow_mul_le (fun w => ?_) hpos hsplit a T
  have hspaced : (clockings ctx hist n lanes mvs w).Regular (intervalNs ctx.args) σ →
      Spaced (intervalNs ctx.args - σ) (clockings ctx hist n lanes mvs w).startTimes := by
    refine Private.records_of_holds (L := timely ctx σ) (Q := fun _ _ => True)
      (G := fun h => h.Regular (intervalNs ctx.args) σ →
        Spaced (intervalNs ctx.args - σ) h.startTimes) (fun _ _ _ _ => trivial) ?_ ?_
      (fun _ => spaced_nil) mvs
    · intro β m h e r hduty hh hreg
      exact hreg.spaced_step (by omega) hduty hh
    · exact (clientWorkerMain_due hop (by omega)).holds (createWorker ctx.args hist w) ⟨[], false, []⟩
        ⟨rfl, rfl⟩
  exact hspaced (hreg w)

/-- Options with a total rate of `qps`. -/
def rateContext (qps threads : ℕ) : Context :=
  { smallContext .write threads 2 with
    args := { smallArgs .write threads 2 with qps := qps, durationSec := 10 } }

/-- One thread starts a request at once and another one a second later. -/
def aloneRun : List (Move (Fin 1) Oracle Env) := steps 0 0 140 ++ steps 0 1000000000 8

/-- Two threads do so. -/
def bothRun : List (Move (Fin 2) Oracle Env) :=
  steps 0 0 140 ++ steps 1 0 140 ++ steps 0 1000000000 8 ++ steps 1 1000000000 8

theorem rate_limit_alone :
    (clockings (rateContext 1 1) freshHist 1 20 aloneRun 0).startTimes = [1000000000, 0] ∧
    ∀ a T, (∑ w, inWindow a T (clockings (rateContext 1 1) freshHist 1 20 aloneRun w).startTimes) *
      1000000000 ≤ 1 * T + 1 * 1000000000 := by
  refine ⟨by decide +kernel, fun a T => ?_⟩
  have hreg : ∀ w : Fin 1, (clockings (rateContext 1 1) freshHist 1 20 aloneRun w).Regular
      (intervalNs (rateContext 1 1).args) 0 := by decide +kernel
  exact rate_limit (rateContext 1 1) (by decide) freshHist (n := 1) rfl 20 aloneRun 0 (by decide)
    hreg a T

/-- At one request per second in total, two threads start four requests within a second, although
their clocks agree and no request is late. -/
theorem rate_exceeded : validateInputParams (rateContext 1 2).args = .ok () ∧
    (client (rateContext 1 2) freshHist 2 40).AllEnabled (bench 2 (fun _ => .any) .free) bothRun ∧
    (∀ w, (clockings (rateContext 1 2) freshHist 2 40 bothRun w).Regular
      (intervalNs (rateContext 1 2).args) 0) ∧
    1 * 1000000000 + 2 * 1000000000 <
      (∑ w, inWindow 0 1000000000 (clockings (rateContext 1 2) freshHist 2 40 bothRun w).startTimes) *
        1000000000 := by
  have hboth : ∀ w : Fin 2,
      (clockings (rateContext 1 2) freshHist 2 40 bothRun w).startTimes = [1000000000, 0] ∧
      (clockings (rateContext 1 2) freshHist 2 40 bothRun w).Regular
        (intervalNs (rateContext 1 2).args) 0 := by
    decide +kernel
  refine ⟨rfl, by decide +kernel, fun w => (hboth w).2, ?_⟩
  simp only [fun w => (hboth w).1]
  decide

end KvBench.Bench
