import KvBench.Bench.Args
import KvBench.Events.Pool
import KvBench.Hist.Defs
import KvBench.Lanes.Pool

/-!
# The workers of the client and what they share

The worker threads of `run_client` share the lane pool, the event slots of the completion thread,
the work requests under way and two flags. `Sys` is that shared state, `Worker` the part of
`worker_t` that only its own thread touches, and `Act` are the atomic steps a worker makes on the
shared state. The completion thread and the flag `stop` are the environment (`Env`).

`Sys` has some members that no code reads (`holders`, `acquired`, `released`, `posted`, `tally`,
`requests`): they record the history of a run, for statements about it. In the same way
`Worker.lastLook` marks the end of `WaitEvent` past its deadline, `Act.visit` marks a point of the
program and `Act.count` the moment at which an operation is counted.

What liburma does is left open: a post succeeds or fails as the `Oracle` says, a successful one makes
one outstanding work request, and an outstanding work request is completed at most once, with its
own `user_ctx`.
-/

namespace KvBench.Bench

open KvBench.Conc KvBench.Events KvBench.Hist KvBench.Lanes

/-! ### Work requests -/

/-- A jetty of the pool. -/
abbrev Lane := ℕ

/-- One send of a worker, which owns a lane: a send of a pipelined request, or the only send of a
synchronous one. -/
inductive SendId where
  | slot (idx send : ℕ)
  | sync
  deriving DecidableEq

/-- A work request of a worker: of a pipelined request, or one of the two of a synchronous one. -/
inductive WrId where
  | slot (idx wr : ℕ)
  | sync (half : ℕ)
  deriving DecidableEq

/-- The send a work request belongs to. -/
def WrId.send : WrId → SendId
  | .slot idx wr => .slot idx (wr / kvWrPerSend)
  | .sync _ => .sync

/-- The slot of the request a work request belongs to. -/
def WrId.req : WrId → Option ℕ
  | .slot idx _ => some idx
  | .sync _ => none

/-- Whether the work request is the first of its request. -/
def WrId.first : WrId → Bool
  | .slot _ wr => wr = 0
  | .sync half => half = 0

/-- The work requests of the pipelined request in the slot `idx`. -/
def reqIds (idx : ℕ) : List WrId := (List.range kvWrPerReq).map (.slot idx)

/-- `kRidShift`. -/
def kRidShift : ℕ := 40

/-- `kRidMask`. -/
def kRidMask : ℕ := 2 ^ 40 - 1

/-- A work request, as `PostWrite` and `PostRead` hand it to liburma. -/
structure Wr where
  lane : Lane
  localAddr : ℕ
  remoteAddr : ℕ
  len : ℕ
  srcChip : ℕ
  dstChip : ℕ
  userCtx : ℕ
  read : Bool
  deriving DecidableEq

/-- The worker encoded in `user_ctx`. -/
def Wr.wid (r : Wr) : ℕ := r.userCtx >>> kRidShift

/-- The token encoded in `user_ctx`. -/
def Wr.token (r : Wr) : ℕ := r.userCtx &&& kRidMask

/-- A work request whose completion has not been delivered. `request` is the number of its request
among those of the same slot. -/
structure Outstanding extends Wr where
  id : WrId
  request : ℕ
  deriving DecidableEq

/-- What became of a posted work request, as its worker knows it: its completion has been consumed,
with success or not, or its event has been aborted. -/
inductive Fate where
  | pending
  | landed
  | failed
  | aborted
  deriving DecidableEq

/-- A work request that a worker has posted. -/
structure Posted where
  id : WrId
  wr : Wr
  fate : Fate
  deriving DecidableEq

/-- The work request that waits for the token `t` meets its fate. -/
def settle (t : ℕ) (fate : Fate) (l : List Posted) : List Posted :=
  l.map fun p => if p.wr.token = t ∧ p.fate = .pending then { p with fate := fate } else p

/-- What an access to the event slots, with its response, settles: `Probe` clears a word that is
done, `Abort` clears it in any case. -/
def settleBy {β : Type} : SlotAct β → β → List Posted → List Posted
  | .load _, _, l => l
  | .casStrong _ expected desired, r, l =>
    if r = none ∧ desired = 0 then
      settle (expected >>> 2) (if expected = done (expected >>> 2) true then .landed else .failed) l
    else l
  | .casWeak _ expected _, r, l => if r = none then settle (expected >>> 2) .aborted l else l

/-- The work requests last posted under the names `ids`, as far as they completed with success. -/
def landedOf (ids : List WrId) (l : List Posted) : List Wr :=
  ids.filterMap fun id =>
    (l.find? (·.id = id)).bind fun p => if p.fate = .landed then some p.wr else none

/-! ### Shared state -/

/-- What the workers share. -/
structure Sys where
  lanes : SendJettyPool Lane
  /-- `states_` of the event slots of each worker. -/
  states : ℕ → ℕ → ℕ
  out : List Outstanding
  fatal : Bool
  stop : ℕ → Bool
  /-- The sends that have taken a lane and not released it. -/
  holders : Lane → List (ℕ × SendId)
  acquired : ℕ → Lane → ℕ
  released : ℕ → Lane → ℕ
  /-- What each worker has posted, the last first. -/
  posted : ℕ → List Posted
  /-- The operations each worker has counted, with their successful work requests. -/
  tally : ℕ → List (List Wr)
  /-- How many requests each slot of each worker has started to post. -/
  requests : ℕ → Option ℕ → ℕ

/-- The lines the workers print. `op` tells the write from the get variant of a line. -/
inductive Message where
  | exiting (op : Op) (maxPollNs maxPostNs maxProbeNs : ℕ)
  | laneExhausted (op : Op) (reqSeq send : ℕ)
  | eventsExhausted (op : Op) (reqSeq wr : ℕ)
  | postFailed (op : Op) (reqSeq wr send : ℕ)
  | wrFailed (op : Op) (reqSeq wr token : ℕ)
  | rollbackQuarantined (op : Op) (send : ℕ)
  | drainTimeout (op : Op) (reqSeq wr token : ℕ)
  | syncLaneExhausted (op : Op)
  | syncEventsExhausted (op : Op) (half : ℕ)
  | syncPostFailed (op : Op) (half : ℕ)
  | syncWaitFailed (half token : ℕ) (src dst : ℤ)
  | syncQuarantined (op : Op)
  | fatal (op : Op) (id : ℕ)

/-- Points of the program: the head of a round of the main loop, of the harvest at a position of the
active slots and of the sending loop, with `req_active`; the branch for an empty free stack; and a
call of the post function for a slot. -/
inductive Place where
  | head (reqActive : ℕ)
  | harvest (k reqActive : ℕ)
  | send (reqActive : ℕ)
  | noFreeSlot
  | call (idx reqSeq : ℕ)
  deriving DecidableEq

/-- The atomic steps of a worker. -/
inductive Act : Type → Type where
  | load (index : ℕ) : Act ℕ
  | casStrong (index expected desired : ℕ) : Act (Option ℕ)
  | casWeak (index expected desired : ℕ) : Act (Option ℕ)
  /-- `AcquireSendLane`, for the send named. -/
  | popIdle (send : SendId) : Act (Option Lane)
  /-- `ReleaseSendLane` of a lane that is not null. -/
  | release (send : SendId) (lane : Lane) : Act Unit
  | post (id : WrId) (wr : Wr) : Act Bool
  | now : Act ℕ
  | sleep (ns : ℕ) : Act Unit
  | loadStop : Act Bool
  | loadFatal : Act Bool
  | setFatal : Act Unit
  | print (line : Message) : Act Unit
  /-- The worker comes to a point of its program. -/
  | visit (place : Place) : Act Unit
  /-- The operation with the work requests named is counted. -/
  | count (ids : List WrId) : Act Unit

/-- The accesses to the worker's own event slots. -/
def Act.slot {β : Type} : SlotAct β → Act β
  | .load index => .load index
  | .casStrong index expected desired => .casStrong index expected desired
  | .casWeak index expected desired => .casWeak index expected desired

/-- What a step leaves open. -/
structure Oracle where
  clock : ℕ
  postOk : Bool
  spurious : Bool

/-- An access of the worker `w` to its event slots. -/
def Sys.access {β : Type} (s : Sys) (w : ℕ) (o : Oracle) (e : SlotAct β) : β × Sys :=
  ((e.run o.spurious (s.states w)).1,
    { s with
      states := Function.update s.states w (e.run o.spurious (s.states w)).2
      posted := Function.update s.posted w
        (settleBy e (e.run o.spurious (s.states w)).1 (s.posted w)) })

/-- The number of the request of a work request that the worker `w` posts. -/
def Sys.requestOf (s : Sys) (w : ℕ) (id : WrId) : ℕ :=
  s.requests w id.req + if id.first then 1 else 0

/-- The worker `w` has posted `wr`. -/
def Sys.addPost (s : Sys) (w : ℕ) (id : WrId) (wr : Wr) : Sys :=
  { s with
    out := ⟨wr, id, s.requestOf w id⟩ :: s.out
    posted := Function.update s.posted w (⟨id, wr, .pending⟩ :: s.posted w)
    requests := Function.update s.requests w
      (Function.update (s.requests w) id.req (s.requestOf w id)) }

/-- The effect of a step of the worker `w`. -/
def Act.run {β : Type} (w : ℕ) (o : Oracle) : Act β → Sys → β × Sys
  | .load index, s => s.access w o (.load index)
  | .casStrong index expected desired, s => s.access w o (.casStrong index expected desired)
  | .casWeak index expected desired, s => s.access w o (.casWeak index expected desired)
  | .popIdle send, s =>
    (s.lanes.popIdle.1,
      match s.lanes.popIdle.1 with
      | none => { s with lanes := s.lanes.popIdle.2 }
      | some l =>
        { s with
          lanes := s.lanes.popIdle.2
          holders := Function.update s.holders l ((w, send) :: s.holders l)
          acquired := Function.update s.acquired w
            (Function.update (s.acquired w) l (s.acquired w l + 1)) })
  | .release send l, s =>
    ((),
      { s with
        lanes := s.lanes.release l
        holders := Function.update s.holders l ((s.holders l).erase (w, send))
        released := Function.update s.released w
          (Function.update (s.released w) l (s.released w l + 1)) })
  | .post id wr, s => if o.postOk then (true, s.addPost w id wr) else (false, s)
  | .now, s => (o.clock, s)
  | .sleep _, s => ((), s)
  | .loadStop, s => (s.stop w, s)
  | .loadFatal, s => (s.fatal, s)
  | .setFatal, s => ((), { s with fatal := true })
  | .print _, s => ((), s)
  | .visit _, s => ((), s)
  | .count ids, s =>
    ((), { s with
      tally := Function.update s.tally w (landedOf ids (s.posted w) :: s.tally w) })

/-! ### The environment -/

/-- `CompleteEvent`, with `n` registered workers. -/
def completeEvent (n workerId userCtx : ℕ) (ok : Bool) (states : ℕ → ℕ → ℕ) : ℕ → ℕ → ℕ :=
  if userCtx >>> kRidShift ≠ workerId then states
  else if n ≤ workerId then states
  else Function.update states workerId (complete (userCtx &&& kRidMask) ok (states workerId))

/-- The steps of the environment: the completion thread takes the completion of an outstanding work
request, or the worker `w` is told to stop. -/
inductive Env where
  | deliver (r : Outstanding) (ok : Bool)
  | stop (w : ℕ)

/-- The effect of a step of the environment. -/
def Env.run (n : ℕ) : Env → Sys → Sys
  | .deliver r ok, s =>
    { s with
      out := s.out.erase r
      states := completeEvent n (r.userCtx >>> kRidShift % 2 ^ 32) r.userCtx ok s.states }
  | .stop w, s => { s with stop := Function.update s.stop w true }

/-! ### The memory of a worker -/

/-- `wr_slot_t`. -/
structure WrSlot where
  jetty : ℕ → Option Lane
  eventToken : ℕ → ℕ
  wrPostNs : ℕ → ℕ
  done : ℕ → Bool
  doneCnt : ℕ
  reqSeq : ℕ
  postNs : ℕ
  active : Bool

/-- What ends the main loop of a pipeline with `-1`: a completion that is reported as failed, or a
request that could not be posted while `others` requests were active. -/
inductive Fault where
  | probe
  | post (others : ℕ)
  deriving DecidableEq

/-- The members of `worker_t` that the thread itself uses, with the worker's half of its event
slots. `activeSlots` is `active_slots[0 .. active_count)`, `freeSlots` is
`free_slots[0 .. free_count)` from the top of the stack downwards. -/
structure Worker where
  id : ℕ
  hist : KvHist
  histReq : KvHist
  histWr : KvHist
  histPost : KvHist
  ops : ℕ
  bytes : ℕ
  errors : ℕ
  off : ℕ
  nextPostNs : ℕ
  rng : ℕ
  wrSlots : ℕ → WrSlot
  activeSlots : List ℕ
  freeSlots : List ℕ
  ev : EventSlots
  /-- The token of the `WaitEvent` that has passed its deadline: it looks for the last time and then
  aborts the event. -/
  lastLook : Option ℕ
  /-- How often the thread has read the CPU lists. No code looks at it. -/
  reads : ℕ
  /-- The faults that the thread has met, the last first. No code looks at them. -/
  faults : List Fault

/-- A slot as `new worker_t[count]()` leaves it. -/
def WrSlot.zero : WrSlot := ⟨fun _ => none, fun _ => 0, fun _ => 0, fun _ => false, 0, 0, 0, false⟩

/-- The worker `i` of `create_workers`; `hist` is what `kv_hist_init` makes. -/
def createWorker (args : Argument) (hist : KvHist) (i : ℕ) : Worker where
  id := i
  hist := hist
  histReq := hist
  histWr := hist
  histPost := hist
  ops := 0
  bytes := 0
  errors := 0
  off := 0
  nextPostNs := 0
  rng := (args.seed + i * 2654435761) % 2 ^ 32
  wrSlots := fun _ => .zero
  activeSlots := []
  freeSlots := (List.range (slotCount args)).reverse
  ev := .fresh
  lastLook := none
  reads := 0
  faults := []

/-- The shared state when the workers start, with a pool of `lanes` lanes. -/
def Sys.initial (lanes : ℕ) : Sys where
  lanes := .ofList (List.range lanes)
  states := fun _ _ => 0
  out := []
  fatal := false
  stop := fun _ => false
  holders := fun _ => []
  acquired := fun _ _ => 0
  released := fun _ _ => 0
  posted := fun _ => []
  tally := fun _ => []
  requests := fun _ _ => 0

/-! ### Conditions on a run -/

/-- How time passes for a worker: a reading of its clock after `k` steps is at least `floor k`, and
a weak compare-exchange may fail without reason only where `spurious` says so. -/
structure Pace where
  floor : ℕ → ℕ
  spurious : ℕ → Bool

/-- No condition. -/
def Pace.free : Pace := ⟨fun _ => 0, fun _ => true⟩

/-- The clock passes every 64-bit deadline, and a weak compare-exchange does not fail for ever. -/
structure Pace.Live (p : Pace) : Prop where
  floor : ∀ b < 2 ^ 64, ∃ k₀, ∀ k ≥ k₀, b ≤ p.floor k
  spurious : ∃ k₀, ∀ k ≥ k₀, p.spurious k = false

/-- Which faults are excluded for a worker: it never finds the lane pool empty, its posts succeed,
its completions report success, no completion comes after the last look of `WaitEvent`, and the main
loop of the get pipeline does not end between two completions of a request. -/
structure Mode where
  lanesOk : Bool
  postsOk : Bool
  cqesOk : Bool
  timely : Bool
  whole : Bool

/-- No fault is excluded. -/
def Mode.any : Mode := ⟨false, false, false, false, false⟩

/-- Whether the oracle `o` may answer the `k`-th step of the worker `w`. -/
def Act.Allowed (mode : Mode) (pace : Pace) (w k : ℕ) (m : Worker) {β : Type} :
    Act β → Sys → Oracle → Prop
  | .load _, s, _ =>
    mode.timely = true → ∀ r ∈ s.out, r.wid = w → m.lastLook ≠ some r.token
  | .casWeak _ _ _, _, o => o.spurious = true → pace.spurious k = true
  | .popIdle _, s, _ => mode.lanesOk = true → s.lanes.idle ≠ []
  | .post _ _, _, o => mode.postsOk = true → o.postOk = true
  | .now, _, o => pace.floor k ≤ o.clock ∧ o.clock < 2 ^ 64
  | .print (.exiting .get _ _ _), _, _ =>
    mode.whole = true → ∀ idx ∈ m.activeSlots, (m.wrSlots idx).doneCnt = 0
  | _, _, _ => True

/-- Whether a step of the environment may be made. -/
def Env.Allowed (mode : ℕ → Mode) : Env → Sys → Prop
  | .deliver r ok, s => r ∈ s.out ∧ ((mode r.wid).cqesOk = true → ok = true)
  | .stop _, _ => True

/-- The system of `n` workers. -/
def bench (n : ℕ) (mode : ℕ → Mode) (pace : Pace) : World (Fin n) Worker Sys Oracle Env Act where
  run i o e s := e.run i o s
  allowed i k m e s o := e.Allowed (mode i) pace i k m s o
  env := Env.run n
  envAllowed := Env.Allowed mode

instance (mode : Mode) (pace : Pace) (w k : ℕ) (m : Worker) {β : Type} (e : Act β) (s : Sys)
    (o : Oracle) : Decidable (e.Allowed mode pace w k m s o) :=
  match e with
  | .load _ => inferInstanceAs (Decidable (_ → ∀ r ∈ s.out, _ → _))
  | .casStrong _ _ _ => inferInstanceAs (Decidable True)
  | .casWeak _ _ _ => inferInstanceAs (Decidable (_ → _))
  | .popIdle _ => inferInstanceAs (Decidable (_ → _))
  | .post _ _ => inferInstanceAs (Decidable (_ → _))
  | .now => inferInstanceAs (Decidable (_ ∧ _))
  | .print (.exiting .get _ _ _) => inferInstanceAs (Decidable (_ → ∀ idx ∈ m.activeSlots, _))
  | .print (.exiting .write _ _ _) => inferInstanceAs (Decidable True)
  | .print (.exiting .mixed _ _ _) => inferInstanceAs (Decidable True)
  | .print (.laneExhausted _ _ _) => inferInstanceAs (Decidable True)
  | .print (.eventsExhausted _ _ _) => inferInstanceAs (Decidable True)
  | .print (.postFailed _ _ _ _) => inferInstanceAs (Decidable True)
  | .print (.wrFailed _ _ _ _) => inferInstanceAs (Decidable True)
  | .print (.rollbackQuarantined _ _) => inferInstanceAs (Decidable True)
  | .print (.drainTimeout _ _ _ _) => inferInstanceAs (Decidable True)
  | .print (.syncLaneExhausted _) => inferInstanceAs (Decidable True)
  | .print (.syncEventsExhausted _ _) => inferInstanceAs (Decidable True)
  | .print (.syncPostFailed _ _) => inferInstanceAs (Decidable True)
  | .print (.syncWaitFailed _ _ _ _) => inferInstanceAs (Decidable True)
  | .print (.syncQuarantined _) => inferInstanceAs (Decidable True)
  | .print (.fatal _ _) => inferInstanceAs (Decidable True)
  | .release _ _ => inferInstanceAs (Decidable True)
  | .sleep _ => inferInstanceAs (Decidable True)
  | .loadStop => inferInstanceAs (Decidable True)
  | .loadFatal => inferInstanceAs (Decidable True)
  | .setFatal => inferInstanceAs (Decidable True)
  | .visit _ => inferInstanceAs (Decidable True)
  | .count _ => inferInstanceAs (Decidable True)

instance (mode : ℕ → Mode) (e : Env) (s : Sys) : Decidable (e.Allowed mode s) :=
  match e with
  | .deliver _ _ => inferInstanceAs (Decidable (_ ∧ (_ → _)))
  | .stop _ => inferInstanceAs (Decidable True)

end KvBench.Bench
