import KvBench.Bench.Discipline
import KvBench.Dual.Bounds
import KvBench.Events.Trace
import KvBench.Manager.Routing

/-!
# The dual workers and their four managers

The program of the dual workers once more, now with the managers of the four ports: each has its own pool
of lanes and its own event slots. A call of a manager is one step. The event slots are the abstract ones of
`KvBench.Events`, whose histories are those of the code.

`WaitEvent` returns `true` only when it has consumed a completion that reports success. When it returns
`false`, the completion reports a failure, or may come later, or has come between the last look and `Abort`.
-/

namespace KvBench.Dual

open KvBench.Bench KvBench.Conc KvBench.Events KvBench.Hist KvBench.Lanes KvBench.Manager

/-! ### The state -/

/-- A work request that has been posted at a port. -/
structure PortWr where
  port : ℕ
  wr : Wr
  deriving DecidableEq

/-- The managers. -/
structure Ports where
  lanes : ℕ → SendJettyPool Lane
  workerCount : ℕ → ℕ
  /-- The event slots of each worker of each manager. -/
  events : ℕ → ℕ → SlotView
  /-- The work requests whose completion has not been delivered. -/
  out : List PortWr
  fatal : Bool
  /-- The thread that has registered under a number. -/
  owner : ℕ → ℕ → Option ℕ
  /-- The threads that have taken a lane and not released it. -/
  holders : ℕ → Lane → List ℕ
  /-- What each thread has posted, the last first. -/
  sent : ℕ → List PortWr
  /-- The work requests whose completion has reported success. -/
  delivered : List PortWr

/-- What a step leaves open. -/
structure PortOracle where
  /-- The token that `Acquire` finds. -/
  token : Option ℕ
  ok : Bool
  stop : Bool
  clock : ℕ

/-- The slot of a token that is live becomes free. -/
def takeOut (v : SlotView) (t : ℕ) : SlotView :=
  if (v (index t)).map Prod.fst = some t then Function.update v (index t) none else v

/-- The event slots of one worker change. -/
def Ports.setEvents (s : Ports) (port wid : ℕ) (v : SlotView) : Ports :=
  { s with events := Function.update s.events port (Function.update (s.events port) wid v) }

/-- The threads that hold a lane change. -/
def Ports.setHolders (s : Ports) (port : ℕ) (pool : SendJettyPool Lane) (l : Lane) (ws : List ℕ) :
    Ports :=
  { s with
    lanes := Function.update s.lanes port pool
    holders := Function.update s.holders port (Function.update (s.holders port) l ws) }

/-- `RegisterWorker`, called by the thread `w`. -/
def Ports.register (s : Ports) (w port : ℕ) : Option ℕ × Ports :=
  if kMaxRegisteredWorkers ≤ s.workerCount port then (none, s)
  else
    (some (s.workerCount port),
      { s with
        workerCount := Function.update s.workerCount port (s.workerCount port + 1)
        owner := Function.update s.owner port
          (Function.update (s.owner port) (s.workerCount port) (some w)) })

/-- `AcquireSendLane`. -/
def Ports.acquire (s : Ports) (w port : ℕ) : Option Lane × Ports :=
  match (s.lanes port).popIdle with
  | (none, pool) => (none, { s with lanes := Function.update s.lanes port pool })
  | (some l, pool) => (some l, s.setHolders port pool l (w :: s.holders port l))

/-- `ReleaseSendLane`. -/
def Ports.release (s : Ports) (w port : ℕ) : Option Lane → Ports
  | none => s
  | some l => s.setHolders port ((s.lanes port).release l) l ((s.holders port l).erase w)

/-- `PostEvent`. -/
def Ports.postEvent (s : Ports) (port wid : ℕ) (token : Option ℕ) : (ℕ × ℕ) × Ports :=
  match token with
  | none => ((0, 0), s)
  | some t =>
    ((userCtxOf wid t, t), s.setEvents port wid ((Event.acquired t).apply (s.events port wid)))

/-- The effect of a step of the thread `w`. -/
def Act.runPorts {β : Type} (w : ℕ) (o : PortOracle) : Act β → Ports → β × Ports
  | .registerWorker port, s => s.register w port
  | .acquireSendLane port, s => s.acquire w port
  | .releaseSendLane port lane, s => ((), s.release w port lane)
  | .postEvent port wid, s => s.postEvent port wid o.token
  | .abortEvent port wid token, s => ((), s.setEvents port wid (takeOut (s.events port wid) token))
  | .waitEvent port wid token _, s => (o.ok, s.setEvents port wid (takeOut (s.events port wid) token))
  | .postWrite port wr, s =>
    if o.ok then
      (true, { s with
        out := ⟨port, wr⟩ :: s.out
        sent := Function.update s.sent w (⟨port, wr⟩ :: s.sent w) })
    else (false, s)
  | .now, s => (o.clock, s)
  | .loadStop, s => (o.stop, s)
  | .loadFatal, s => (s.fatal, s)
  | .setFatal, s => ((), { s with fatal := true })
  | .round _, s => ((), s)

/-- What a step may be answered. -/
def Act.AllowedPorts {β : Type} : Act β → Ports → PortOracle → Prop
  | .postEvent port wid, s, o => ∀ t, o.token = some t →
      wid < s.workerCount port ∧ (0 < t ∧ t < 2 ^ 40) ∧ s.events port wid (index t) = none
  | .waitEvent port wid token _, s, o => o.ok = true →
      s.events port wid (index token) = some (token, some true)
  | _, _, _ => True

/-- A completion is delivered. -/
structure Completion where
  r : PortWr
  ok : Bool

/-- `CompleteEvent`. -/
def Completion.run (e : Completion) (s : Ports) : Ports :=
  { s.setEvents e.r.port e.r.wr.wid
      ((Event.completed e.r.wr.token e.ok).apply (s.events e.r.port e.r.wr.wid)) with
    out := s.out.erase e.r
    delivered := if e.ok then e.r :: s.delivered else s.delivered }

/-- The workers of a client with their managers. -/
def ports (n : ℕ) : World (Fin n) DualWorker Ports PortOracle Completion Act where
  run i o e s := e.runPorts i o s
  allowed _ _ _ e s o := e.AllowedPorts s o
  env := Completion.run
  envAllowed e s := e.r ∈ s.out

/-- The managers when the workers start, with `lanes` lanes each. -/
def Ports.initial (lanes : ℕ → ℕ) : Ports where
  lanes port := .ofList (List.range (lanes port))
  workerCount _ := 0
  events _ _ _ := none
  out := []
  fatal := false
  owner _ _ := none
  holders _ _ := []
  sent _ := []
  delivered := []

/-- The client of `run_dual_client` with its managers. -/
def portsClient (ctx : DualContext) (hist : KvHist) (n : ℕ) (lanes : ℕ → ℕ) :
    Conf (Fin n) DualWorker Ports Act (Unit × DualWorker) where
  prog i := dualWorkerMain ctx (createDualWorker ctx.args hist i)
  time _ := 0
  state := .initial lanes

end KvBench.Dual
