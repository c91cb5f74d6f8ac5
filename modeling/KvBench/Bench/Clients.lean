import KvBench.Bench.Threads

/-!
# Runs of the client

A client is a family of worker threads over one shared state. `Setup.good_start` puts the
specifications of the threads together; from there the invariant holds in every reachable
configuration and every step keeps its promise.

The specifications assume a pace of time under which every wait ends. For a statement about what can
happen in finitely many steps that is no restriction: nothing need be asked of the steps that have
been made, only of those to come (`Pace.grace`).
-/

namespace KvBench.Bench

open KvBench.Conc KvBench.Events KvBench.Hist

/-! ### Time -/

/-- Nothing is asked of the first `N` steps of a worker. After them its clock has passed every
deadline, and a weak compare-exchange fails only with reason. -/
def Pace.grace (N : ℕ) : Pace := ⟨fun k => if k < N then 0 else 2 ^ 64 - 1, fun k => k < N⟩

theorem Pace.grace_live (N : ℕ) : (Pace.grace N).Live where
  floor := by
    intro b hb
    refine ⟨N, fun k hk => ?_⟩
    show b ≤ if k < N then 0 else 2 ^ 64 - 1
    rw [if_neg (by omega)]
    omega
  spurious := by
    refine ⟨N, fun k hk => ?_⟩
    exact decide_eq_false (by omega)

theorem Act.Allowed.grace {mode : Mode} {N w k : ℕ} {m : Worker} {β : Type} {e : Act β} {s : Sys}
    {o : Oracle} (h : e.Allowed mode .free w k m s o) (hk : k < N) :
    e.Allowed mode (.grace N) w k m s o := by
  cases e with
  | now =>
    refine ⟨?_, h.2⟩
    show (if k < N then 0 else 2 ^ 64 - 1) ≤ o.clock
    rw [if_pos hk]
    exact Nat.zero_le _
  | casWeak index expected desired => exact fun _ => decide_eq_true hk
  | print line =>
    cases line with
    | exiting op a b c => cases op <;> exact h
    | _ => exact h
  | _ => exact h

section Time

variable {n : ℕ} {mode : ℕ → Mode} {α : Type} {c c₀ : Conf (Fin n) Worker Sys Act α}

theorem Conf.Enabled.grace {mv : Move (Fin n) Oracle Env} {N : ℕ}
    (h : c.Enabled (bench n mode .free) mv) (ht : ∀ i, c.time i < N) :
    c.Enabled (bench n mode (.grace N)) mv := by
  cases mv with
  | env e => exact h
  | thread i o =>
    unfold Conf.Enabled at h ⊢
    dsimp only at h ⊢
    split
    · rename_i m e k hp
      rw [hp] at h
      exact Act.Allowed.grace h (ht i)
    · trivial

/-- What is reachable at all is reachable at some live pace. -/
theorem eventually_grace (h : Reachable (bench n mode .free) c₀ c) {T : ℕ}
    (hT : ∀ i, c₀.time i ≤ T) : ∃ N₀, ∀ N ≥ N₀, Reachable (bench n mode (.grace N)) c₀ c :=
  Reachable.eventually_until (V := fun N => bench n mode (.grace N)) (fun _ _ _ => rfl)
    (fun _ _ _ ht hen => Conf.Enabled.grace hen ht) h hT

theorem exists_grace (h : Reachable (bench n mode .free) c₀ c) (h0 : ∀ i, c₀.time i = 0) :
    ∃ N, Reachable (bench n mode (.grace N)) c₀ c :=
  Reachable.exists_until (V := fun N => bench n mode (.grace N)) (fun _ _ _ => rfl)
    (fun _ _ _ ht hen => Conf.Enabled.grace hen ht) h h0

end Time

/-! ### Scripts -/

instance (n : ℕ) (mode : ℕ → Mode) (pace : Pace) : (bench n mode pace).Effective where
  allowed i k m e s o := inferInstanceAs (Decidable (e.Allowed (mode i) pace i k m s o))
  env e s := inferInstanceAs (Decidable (e.Allowed mode s))

/-- `k` steps of the thread `i` at the time `clock`, without any fault. -/
def steps {n : ℕ} (i : Fin n) (clock k : ℕ) : List (Move (Fin n) Oracle Env) :=
  List.replicate k (.thread i ⟨clock, true, false⟩)

/-! ### The start -/

/-- The workers with the memories `m`, about to run the procedures `x`. -/
def start {α : Type} {n : ℕ} (lanes : ℕ) (x : Fin n → Code α) (m : Fin n → Worker) :
    Conf (Fin n) Worker Sys Act (α × Worker) :=
  ⟨fun i => x i (m i), fun _ => 0, .initial lanes⟩

section Start

variable {B : Setup} {α : Type} {m₀ : Fin B.n → Worker} {x : Fin B.n → Code α}
  {Q : Fin B.n → α → Worker → View → Prop}

/-- Workers that meet their specifications one by one can run together. -/
theorem Setup.good_start_without (hev : ∀ i, (m₀ i).ev = .without B.taken)
    (hx : ∀ i, B.Triple i (fun m v _ => Near B i True (m₀ i) .empty m v) (x i)
      (fun a m v _ => Q i a m v)) :
    (start B.lanes x m₀).Good B.judgement (fun i am s => Q i am.1 am.2 (s.view i)) where
  inv := Inv.initial B
  holds i := by
    refine (hx i).holds (m₀ i) ⟨.initial B.lanes, 0, Inv.initial B⟩ ⟨⟨_, _, rfl⟩, ?_⟩
    rw [hev i]
    exact Core.initial_without i True

theorem Setup.good_start (htaken : B.taken = []) (hev : ∀ i, (m₀ i).ev = .fresh)
    (hx : ∀ i, B.Triple i (fun m v _ => Near B i True (m₀ i) .empty m v) (x i)
      (fun a m v _ => Q i a m v)) :
    (start B.lanes x m₀).Good B.judgement (fun i am s => Q i am.1 am.2 (s.view i)) := by
  refine Setup.good_start_without (fun i => ?_) hx
  rw [hev i, htaken, EventSlots.without_nil]

theorem Setup.good_reachable (hB : B.Sound) (htaken : B.taken = []) (hev : ∀ i, (m₀ i).ev = .fresh)
    (hQ : ∀ i a m, B.Steady i (Q i a m))
    (hx : ∀ i, B.Triple i (fun m v _ => Near B i True (m₀ i) .empty m v) (x i)
      (fun a m v _ => Q i a m v))
    {c : Conf (Fin B.n) Worker Sys Act (α × Worker)}
    (hr : Reachable (bench B.n B.mode B.pace) (start B.lanes x m₀) c) :
    c.Good B.judgement (fun i am s => Q i am.1 am.2 (s.view i)) :=
  (Setup.good_start htaken hev hx).reachable (fun i am => (hQ i am.1 am.2).stable) hB.env hr

end Start

theorem createWorker_ready (args : Argument) (hist : KvHist) (w : ℕ) :
    Ready (slotCount args) w (createWorker args hist w) where
  id := rfl
  slots := rfl
  active := rfl
  free := List.reverse_perm _
  faults := rfl
  events := rfl

theorem slotCount_le (args : Argument) : slotCount args ≤ kvMaxConcurrency := Nat.min_le_right _ _

theorem slotCount_of_concurrency {args : Argument} {c : ℕ} (hc : 1 ≤ c ∧ c ≤ 10)
    (h : args.concurrency = c) : slotCount args = c := by
  unfold slotCount kvMaxConcurrency
  rw [h, if_pos (by omega), Int.toNat_natCast]
  omega

/-! ### The client -/

/-- The size of the sends of the pipeline that `client_worker_main` calls. -/
def pipelineSize (args : Argument) : ℕ :=
  match args.op with
  | .get => args.valueSize
  | _ => args.sendSize

/-- The client: all its workers, in the mode of operation of `ctx`. -/
def client (ctx : Context) (hist : KvHist) (n lanes : ℕ) :
    Conf (Fin n) Worker Sys Act (Unit × Worker) :=
  start lanes (fun _ => clientWorkerMain ctx) fun i => createWorker ctx.args hist i

/-- The setting in which nothing is asked of a work request. -/
def Setup.plain (args : Argument) (n lanes : ℕ) (mode : ℕ → Mode) (pace : Pace) : Setup where
  n := n
  lanes := lanes
  slots := slotCount args
  mode := mode
  pace := pace
  good := fun _ _ => True
  watch := fun _ _ _ _ => True
  roomy := False
  taken := []

section Plain

variable (ctx : Context) (n lanes : ℕ) (mode : ℕ → Mode) (pace : Pace)

theorem Setup.plain_sound (args : Argument) (hn : n ≤ 1024) (hpace : pace.Live) :
    (Setup.plain args n lanes mode pace).Sound :=
  ⟨hn, slotCount_le args, hpace, False.elim, False.elim⟩

theorem Pipe.plain_fits {p : Pipe} (hp : p.fatalRc (-1) = true) :
    p.Fits (.plain ctx.args n lanes mode pace) ctx :=
  Pipe.fits_of_good rfl (fun _ _ => trivial) (fun _ _ _ _ _ => trivial) hp

theorem Context.plain_fits : ctx.Fits (.plain ctx.args n lanes mode pace) fun _ => True :=
  Context.fits_of_good rfl (fun _ _ => trivial) (fun _ _ _ _ _ => trivial) id

end Plain

/-- The setting in which every posted work request is `good`, and a run of at most `N` steps. -/
def Setup.demanding (args : Argument) (n lanes N : ℕ) (good : WrId → Wr → Prop) : Setup :=
  { Setup.plain args n lanes (fun _ => .any) (.grace N) with good := good }

/-- The invariant of every run of the client, when the code posts what is asked for. -/
theorem client_inv (ctx : Context) (hist : KvHist) {n : ℕ} (hn : n ≤ 1024) (lanes : ℕ)
    {good : WrId → Wr → Prop} {Off : ℕ → Prop}
    (hfits : ∀ N, ctx.Fits (.demanding ctx.args n lanes N good) Off)
    {c : Conf (Fin n) Worker Sys Act (Unit × Worker)}
    (hr : Reachable (bench n (fun _ => .any) .free) (client ctx hist n lanes) c) :
    ∃ N, Inv (.demanding ctx.args n lanes N good) c.state := by
  obtain ⟨N, hr⟩ := exists_grace hr fun _ => rfl
  have hB : (Setup.demanding ctx.args n lanes N good).Sound :=
    ⟨hn, slotCount_le _, Pace.grace_live N, False.elim, False.elim⟩
  have hgood := Setup.good_reachable (B := .demanding ctx.args n lanes N good)
    (Q := fun _ _ _ _ => True) hB rfl (fun _ => rfl) (fun _ _ _ => .const _)
    (fun i => clientWorkerMain_spec hB (hfits N) (createWorker_ready _ hist i)) hr
  exact ⟨N, hgood.inv⟩

theorem Pipe.demanding_fits {ctx : Context} {p : Pipe} {n lanes N : ℕ} {good : WrId → Wr → Prop}
    (hp : p.fatalRc (-1) = true)
    (hgood : ∀ r idx wr, r.wid < n → idx < slotCount ctx.args → wr < kvWrPerReq →
      p.Posts ctx idx wr r → good (.slot idx wr) r) :
    p.Fits (.demanding ctx.args n lanes N good) ctx :=
  ⟨rfl, hgood, hp, fun _ _ _ _ _ => trivial⟩

/-! ### Lane safety -/

/-- **Lane safety**: whatever the workers, the completion thread and the faults of liburma do, a lane
in the idle queue has no outstanding work request, and no lane has two holders. -/
theorem client_lane_safety (ctx : Context) (hist : KvHist) {n : ℕ} (hn : n ≤ 1024) (lanes : ℕ)
    {c : Conf (Fin n) Worker Sys Act (Unit × Worker)}
    (hr : Reachable (bench n (fun _ => .any) .free) (client ctx hist n lanes) c) :
    (∀ l ∈ c.state.lanes.idle, ∀ r ∈ c.state.out, r.lane ≠ l) ∧
      ∀ l, (c.state.holders l).length ≤ 1 := by
  have hfits : ∀ N, ctx.Fits (.demanding ctx.args n lanes N fun _ _ => True) fun _ => True :=
    fun N => ctx.plain_fits n lanes (fun _ => .any) (.grace N)
  obtain ⟨N, hinv⟩ := client_inv ctx hist hn lanes hfits hr
  refine ⟨?_, hinv.one⟩
  rintro l hl r hout rfl
  have hheld := hinv.outHeld r hout
  rw [((hinv.idle r.lane).1 hl).2] at hheld
  cases hheld

/-! ### A small client -/

/-- The histogram that `create_workers` starts with. -/
def freshHist : KvHist where
  unitMagnitude := 0
  subBucketCountMagnitude := 11
  subBucketHalfCountMagnitude := 10
  subBucketCount := 2048
  subBucketHalfCount := 1024
  bucketCount := 26
  countsArrayLength := 27648
  subBucketMask := 2047
  lowestTrackable := 1
  highestTrackable := 60000000000
  totalCount := 0
  minValue := uint64Max
  maxValue := 0
  counts := fun _ => 0

theorem kvHistInit_freshHist : kvHistInit true 64 1 60000000000 3 = some freshHist := rfl

theorem Grown.of_freshHist {h : KvHist} {k : ℕ} (hg : Grown freshHist h k) :
    h.totalCount = k % 2 ^ 64 := by
  have hl := (kvHistInit_layout (by decide) kvHistInit_freshHist).1.covering
  rw [hg.totalCount hl (by decide), show freshHist.totalCount = 0 from rfl, Nat.zero_add]

/-- A client with these options. -/
def smallContext (op : Op) (threads : ℕ) (concurrency : ℤ) : Context where
  args := smallArgs op threads concurrency
  cpus := fun _ _ => ⟨[], [], [], fun _ => -1, by decide, by decide⟩
  clientData := 0x100000
  remoteSegVa := 0x4000000
  peerDstChip := invalidChip

/-- A run of two workers on five lanes: the first has posted and waits, the second posts. -/
def sharedRun : List (Move (Fin 2) Oracle Env) := steps 0 0 30 ++ steps 1 0 30

theorem client_lane_safety_shared :
    let c := (client (smallContext .write 2 1) freshHist 2 5).plays (bench 2 (fun _ => .any) .free)
      sharedRun
    (c.state.out.length = 4 ∧ c.state.lanes.idle = [4]) ∧
      (∀ l ∈ c.state.lanes.idle, ∀ r ∈ c.state.out, r.lane ≠ l) ∧
      ∀ l, (c.state.holders l).length ≤ 1 := by
  refine ⟨by decide +kernel, ?_⟩
  exact client_lane_safety (smallContext .write 2 1) freshHist (by decide) 5
    (Reachable.of_plays (by decide +kernel))

end KvBench.Bench
