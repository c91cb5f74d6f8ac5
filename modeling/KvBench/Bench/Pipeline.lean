import KvBench.Bench.Chips
import KvBench.Bench.System

/-!
# The worker threads of the client (`kv_bench.cpp`, `urma_manager.cpp`)

The write pipeline, the get pipeline and the synchronous rounds of mixed mode, as programs over the
atomic steps of `Act`.

`post_one_req` and `post_one_get`, the two rollbacks and the main loops of the two pipelines are the
same code up to sizes, offsets and the lines they print; they are written once, over a `Pipe`. The
two drains differ: the write drain waits for the work requests that are not done, send by send, the
get drain for all of them, request by request.

Local variables of a loop are its loop state. Differences of clock readings wrap at 64 bits. The
steps `visit` and `count` stand for no code.
-/

namespace KvBench.Bench

open KvBench.Conc KvBench.Events KvBench.Hist

/-- A procedure of a worker. -/
abbrev Code := Proc Worker Act

/-! ### The calls into `UrmaManager` -/

/-- `now_ns`. -/
def now : Code ℕ := Proc.act .now

/-- `sleep_ns`. -/
def sleepNs (ns : ℕ) : Code Unit := Proc.act (.sleep ns)

/-- A line on the standard output or the standard error. -/
def say (line : Message) : Code Unit := Proc.act (.print line)

/-- The worker comes to a point of its program. -/
def visit (place : Place) : Code Unit := Proc.act (.visit place)

/-- The operation with the work requests named is counted. -/
def count (ids : List WrId) : Code Unit := Proc.act (.count ids)

/-- The event slots of a worker. -/
def eventPort : Port Worker Act := ⟨Worker.ev, fun ev m => { m with ev := ev }, Act.slot⟩

/-- `PostEvent`: the `user_ctx`, which is `0` when the slots are used up, and the token. -/
def postEvent : Code (ℕ × ℕ) := do
  match ← eventPort.acquire with
  | none => pure (0, 0)
  | some token => do
    let id := (← get).id
    pure (((id <<< kRidShift) % 2 ^ 64) ||| token, token)

/-- `ProbeEvent`. -/
def probeEvent (token : ℕ) : Code ℤ := eventPort.probe token

/-- `AbortEvent`. -/
def abortEvent (token : ℕ) : Code Unit := do
  let _ ← eventPort.abort token
  pure ()

/-- `kPollSleepNs`. -/
def kPollSleepNs : ℕ := 1000

/-- One round of the loop of `WaitEvent`: it ends with the result of the probe, or at the
deadline. -/
def waitRound (token deadline : ℕ) (_ : Unit) : Code (Unit ⊕ Option Bool) := do
  let result ← probeEvent token
  if result ≠ 0 then pure (.inr (some (result = 1)))
  else do
    let t ← now
    if deadline ≤ t then pure (.inr none)
    else do
      sleepNs kPollSleepNs
      pure (.inl ())

/-- The end of `WaitEvent` past the deadline: a last probe, and if that finds nothing, `Abort`. -/
def finalLook (token : ℕ) : Code Bool := do
  modify fun m => { m with lastLook := some token }
  let result ← probeEvent token
  if result = 0 then abortEvent token else pure ()
  modify fun m => { m with lastLook := none }
  pure (result = 1)

/-- `WaitEvent`. -/
def waitEvent (token : ℕ) (timeoutMs : ℤ) : Code Bool := do
  let t ← now
  let deadline := (t + asUInt64 timeoutMs * 1000000) % 2 ^ 64
  match ← Proc.loop (waitRound token deadline) () with
  | some ok => pure ok
  | none => finalLook token

/-- `AcquireSendLane`. -/
def acquireSendLane (send : SendId) : Code (Option Lane) := Proc.act (.popIdle send)

/-- `ReleaseSendLane`. -/
def releaseSendLane (send : SendId) : Option Lane → Code Unit
  | none => pure ()
  | some l => Proc.act (.release send l)

/-- `PostWrite` and `PostRead`, which differ in the opcode; both refuse a null jetty. The work
request is the one named `id`. -/
def postRw (id : WrId) (read : Bool) (jetty : Option Lane) (localAddr remoteAddr len : ℕ)
    (src dst : ℤ) (userCtx : ℕ) : Code Bool :=
  match jetty with
  | none => pure false
  | some l =>
    Proc.act (.post id ⟨l, localAddr % 2 ^ 64, remoteAddr % 2 ^ 64, len % 2 ^ 32,
      (src % 2 ^ 32).toNat, (dst % 2 ^ 32).toNat, userCtx, read⟩)

/-! ### Local state -/

/-- What the threads of one client have in common and do not change. -/
structure Context where
  args : Argument
  /-- The CPU lists as the worker `w` reads them for the `k`-th time. Each choice of chips parses the
  options anew, with a `strtok` whose position all threads share, so two readings may differ. -/
  cpus : (w k : ℕ) → Cpus
  /-- The address of the client's data region. -/
  clientData : ℕ
  /-- The address of the segment the server registered. -/
  remoteSegVa : ℕ
  /-- The destination chip the server announced. -/
  peerDstChip : ℕ

namespace Worker

/-- The slot `idx` changes. -/
def setSlot (idx : ℕ) (f : WrSlot → WrSlot) (m : Worker) : Worker :=
  { m with wrSlots := Function.update m.wrSlots idx (f (m.wrSlots idx)) }

/-- `s->jetty[send] = jetty`, for the slot `idx`. -/
def setJetty (idx send : ℕ) (jetty : Option Lane) : Worker → Worker :=
  setSlot idx fun s => { s with jetty := Function.update s.jetty send jetty }

/-- `s->wr_post_ns[wr] = ns`. -/
def stamp (idx wr ns : ℕ) : Worker → Worker :=
  setSlot idx fun s => { s with wrPostNs := Function.update s.wrPostNs wr ns }

/-- `s->event_token[wr] = token; s->done[wr] = false`. -/
def markPosted (idx wr token : ℕ) : Worker → Worker :=
  setSlot idx fun s =>
    { s with
      eventToken := Function.update s.eventToken wr token
      done := Function.update s.done wr false }

/-- `s->done[wr] = true; s->done_cnt++`. -/
def markDone (idx wr : ℕ) : Worker → Worker :=
  setSlot idx fun s => { s with done := Function.update s.done wr true, doneCnt := s.doneCnt + 1 }

/-- `s->active = false`. -/
def deactivate (idx : ℕ) : Worker → Worker := setSlot idx fun s => { s with active := false }

/-- A sample for `hist_wr`. -/
def recordWr (ns : ℕ) (m : Worker) : Worker := { m with histWr := kvHistRecord m.histWr ns }

/-- A sample for `hist_req`. -/
def recordReq (ns : ℕ) (m : Worker) : Worker := { m with histReq := kvHistRecord m.histReq ns }

/-- A sample for `hist_post`. -/
def recordPost (ns : ℕ) (m : Worker) : Worker := { m with histPost := kvHistRecord m.histPost ns }

end Worker

open Worker

/-- What distinguishes the two pipelines. -/
structure Pipe where
  op : Op
  /-- `send_size` or `value_size`. -/
  size : ℕ
  /-- Where the data of a send of a request lies in the client's region: worker, slot, send. -/
  localOff : ℕ → ℕ → ℕ → ℕ
  /-- Which nonzero results of the post function end the run. -/
  fatalRc : ℤ → Bool

/-- The write pipeline: all sends of a request use one `send_size` buffer. -/
def writePipe (args : Argument) : Pipe where
  op := .write
  size := args.sendSize
  localOff := fun _ idx _ => idx * args.sendSize
  fatalRc := fun rc => rc ≠ 0

/-- The get pipeline: every send has a buffer of its own, and every worker its own region. -/
def getPipe (args : Argument) : Pipe where
  op := .get
  size := args.valueSize
  localOff := fun id idx send =>
    id * ((if 1 ≤ args.concurrency then args.concurrency.toNat else 1) *
      (args.valueSize * kvSendsPerReq)) + idx * (args.valueSize * kvSendsPerReq) +
      send * args.valueSize
  fatalRc := fun rc => rc < 0

/-! ### Posting a request -/

/-- One wait of a rollback; `completed` is `send_completed`. -/
def rollbackWr (timeoutMs : ℤ) (idx wr : ℕ) (completed : Bool) : Code Bool := do
  let s := (← get).wrSlots idx
  if ← waitEvent (s.eventToken wr) timeoutMs then do
    let t ← now
    modify (recordWr (sub64 t (s.wrPostNs wr)))
    pure completed
  else pure false

/-- One send of a rollback: its lane is released when all its work requests completed, and
quarantined otherwise. -/
def rollbackSend (op : Op) (timeoutMs : ℤ) (idx postedWrCount send : ℕ) : Code Unit := do
  let firstWr := send * kvWrPerSend
  let endWr := min (firstWr + kvWrPerSend) postedWrCount
  let completed ← Proc.each (rollbackWr timeoutMs idx) firstWr (endWr - firstWr) true
  if completed then releaseSendLane (.slot idx send) (((← get).wrSlots idx).jetty send)
  else say (.rollbackQuarantined op send)
  modify (setJetty idx send none)

/-- What `drain_posted_wrs` and `rollback_get_wrs` do. -/
def rollback (op : Op) (timeoutMs : ℤ) (idx postedWrCount : ℕ) : Code Unit :=
  Proc.each (fun send _ => rollbackSend op timeoutMs idx postedWrCount send) 0
    ((postedWrCount + kvWrPerSend - 1) / kvWrPerSend) ()

/-- `drain_posted_wrs`. -/
def drainPostedWrs (timeoutMs : ℤ) (idx postedWrCount : ℕ) : Code Unit :=
  rollback .write timeoutMs idx postedWrCount

/-- `rollback_get_wrs`. -/
def rollbackGetWrs (timeoutMs : ℤ) (idx postedWrCount : ℕ) : Code Unit :=
  rollback .get timeoutMs idx postedWrCount

/-- The rollback of the pipeline. -/
def rollbackOf : Op → ℤ → ℕ → ℕ → Code Unit
  | .write => drainPostedWrs
  | _ => rollbackGetWrs

section Post

variable (ctx : Context) (p : Pipe)

/-- Giving up a request of which `wr` work requests have been posted. -/
def giveUp (idx wr : ℕ) : Code (Option ℤ) := do
  rollbackOf p.op ctx.args.timeoutMs idx wr
  modify (deactivate idx)
  pure (some (-1))

/-- The lane just taken for the first half of a send goes back. -/
def returnLane (idx wr : ℕ) (jetty : Option Lane) : Code Unit :=
  if wr % kvWrPerSend = 0 then do
    releaseSendLane (.slot idx (wr / kvWrPerSend)) jetty
    modify (setJetty idx (wr / kvWrPerSend) none)
  else pure ()

/-- The work request `wr` once its send has the lane `jetty`. -/
def postOnLane (idx reqSeq wr : ℕ) (src dst : ℤ) (jetty : Option Lane) : Code (Option ℤ) := do
  let send := wr / kvWrPerSend
  let half := wr % kvWrPerSend
  let (ue, token) ← postEvent
  if ue = 0 then do
    say (.eventsExhausted p.op reqSeq wr)
    returnLane idx wr jetty
    giveUp ctx p idx wr
  else do
    let t ← now
    modify (stamp idx wr t)
    let t0 ← now
    let id := (← get).id
    let ok ← postRw (.slot idx wr) (p.op = .get) jetty
      (ctx.clientData + p.localOff id idx send + half * (p.size / 2))
      (ctx.remoteSegVa + idx * (p.size * kvSendsPerReq) + send * p.size + half * (p.size / 2))
      (p.size / 2) src dst ue
    let t1 ← now
    modify (recordPost (sub64 t1 t0))
    if ok then do
      modify (markPosted idx wr token)
      pure none
    else do
      say (.postFailed p.op reqSeq wr send)
      abortEvent token
      returnLane idx wr jetty
      giveUp ctx p idx wr

/-- The chips of a send; the random state of the worker changes. -/
def chooseChips (send : ℕ) : Code (ℤ × ℤ) := do
  let m ← get
  let (chips, rng) := pickSendChip ctx.args (ctx.cpus m.id m.reads) m.id m.rng send
  set { m with rng := rng, reads := m.reads + 1 }
  pure chips

/-- The work request `wr` of a request: `some rc` when the post function returns with `rc`. -/
def postWr (idx reqSeq wr : ℕ) : Code (Option ℤ) := do
  let send := wr / kvWrPerSend
  let (src, dst) ← chooseChips ctx send
  if wr % kvWrPerSend = 0 then do
    match ← acquireSendLane (.slot idx send) with
    | none => do
      say (.laneExhausted p.op reqSeq send)
      giveUp ctx p idx wr
    | some l => do
      modify (setJetty idx send (some l))
      postOnLane ctx p idx reqSeq wr src dst (some l)
  else do
    let jetty := ((← get).wrSlots idx).jetty send
    postOnLane ctx p idx reqSeq wr src dst jetty

/-- What `post_one_req` and `post_one_get` do. -/
def postOne (idx reqSeq : ℕ) : Code ℤ := do
  visit (.call idx reqSeq)
  modify (setSlot idx fun s => { s with reqSeq := reqSeq, doneCnt := 0, active := true })
  let t ← now
  modify (setSlot idx fun s => { s with postNs := t })
  match ← Proc.search (postWr ctx p idx reqSeq) 0 kvWrPerReq with
  | some rc => pure rc
  | none => do
    modify fun m => { m with activeSlots := m.activeSlots ++ [idx] }
    pure 0

/-- `post_one_req`. -/
def postOneReq (idx reqSeq : ℕ) : Code ℤ := postOne ctx (writePipe ctx.args) idx reqSeq

/-- `post_one_get`. -/
def postOneGet (idx reqSeq : ℕ) : Code ℤ := postOne ctx (getPipe ctx.args) idx reqSeq

end Post

/-! ### The main loop of the pipelines -/

/-- The local variables of a pipeline. -/
structure Locals where
  nextReqNs : ℕ
  reqSeq : ℕ
  reqActive : ℕ
  lastPollNs : ℕ
  maxPollNs : ℕ
  maxProbeNs : ℕ
  maxPostNs : ℕ

/-- `interval_ns`, the pause between two requests of a thread. -/
def intervalNs (args : Argument) : ℕ :=
  if 0 < args.qps then
    let perThread := if args.qps / args.threads = 0 then 1 else args.qps / args.threads
    1000000000 / perThread
  else 0

/-- `active_slots[k] = active_slots[active_count - 1]; active_count--`. -/
def swapRemove (l : List ℕ) (k : ℕ) : List ℕ := (l.set k (l.getLastD 0)).dropLast

/-- The finished slot leaves the list of active slots and goes back to the free stack. -/
def Worker.retire (idx k : ℕ) (m : Worker) : Worker :=
  { m with freeSlots := idx :: m.freeSlots, activeSlots := swapRemove m.activeSlots k }

/-- A fault is noted. -/
def Worker.note (f : Fault) (m : Worker) : Worker := { m with faults := f :: m.faults }

section Main

variable (ctx : Context) (p : Pipe)

/-- The probe of one work request; `some` when the pipeline returns `-1`. -/
def harvestWr (idx wr : ℕ) : Code (Option Unit) := do
  let s := (← get).wrSlots idx
  if s.done wr then pure none
  else do
    let r ← probeEvent (s.eventToken wr)
    if r = -1 then do
      modify (Worker.note .probe)
      say (.wrFailed p.op s.reqSeq wr (s.eventToken wr))
      pure (some ())
    else if r = 1 then do
      modify (markDone idx wr)
      let t ← now
      modify (recordWr (sub64 t (s.wrPostNs wr)))
      pure none
    else pure none

/-- The lane of a send of a finished request goes back. -/
def releaseSend (idx send : ℕ) : Code Unit := do
  releaseSendLane (.slot idx send) (((← get).wrSlots idx).jetty send)
  modify (setJetty idx send none)

/-- A request all of whose work requests are done. -/
def finishReq (idx k : ℕ) : Code Unit := do
  modify fun m => { m with bytes := m.bytes + p.size * kvSendsPerReq }
  Proc.each (fun send _ => releaseSend idx send) 0 kvSendsPerReq ()
  modify (deactivate idx)
  let t ← now
  modify fun m => recordReq (sub64 t (m.wrSlots idx).postNs) m
  modify fun m => { m with ops := m.ops + 1 }
  count (reqIds idx)
  modify (retire idx k)

/-- One round of the harvest, at position `k` of the active slots: `none` when the pipeline returns
`-1`. -/
def harvestRound (kl : ℕ × Locals) : Code ((ℕ × Locals) ⊕ Option Locals) := do
  visit (.harvest kl.1 kl.2.reqActive)
  match (← get).activeSlots[kl.1]? with
  | none => pure (.inr (some kl.2))
  | some idx => do
    let t0 ← now
    match ← Proc.search (harvestWr p idx) 0 kvWrPerReq with
    | some _ => pure (.inr none)
    | none => do
      let t1 ← now
      let l := { kl.2 with maxProbeNs := max kl.2.maxProbeNs (sub64 t1 t0) }
      if ((← get).wrSlots idx).doneCnt < kvWrPerReq then pure (.inl (kl.1 + 1, l))
      else do
        finishReq p idx kl.1
        pure (.inl (kl.1, { l with reqActive := l.reqActive - 1 }))

/-- `while (now_ns() < until) {}`. -/
def spinRound (wakeNs : ℕ) (_ : Unit) : Code (Unit ⊕ Unit) := do
  let t ← now
  if t < wakeNs then pure (.inl ()) else pure (.inr ())

/-- Waiting for the moment of the next request: asleep, but for the last 50 microseconds. -/
def waitUntil (wakeNs t : ℕ) : Code Unit := do
  let left := sub64 wakeNs t
  if 50000 < left then sleepNs (left - 50000) else pure ()
  Proc.loop (spinRound wakeNs) ()

/-- The pause before a request: the new `next_req_ns`. -/
def pause (nextReqNs : ℕ) : Code ℕ :=
  if 0 < intervalNs ctx.args then do
    let t ← now
    if t < nextReqNs then do
      let t' ← now
      waitUntil nextReqNs t'
    else pure ()
    let t ← now
    pure ((t + intervalNs ctx.args) % 2 ^ 64)
  else pure nextReqNs

/-- Posting one request from the free stack: `inl` to go on sending, `inr none` when the pipeline
returns `-1`. The function `post` is `post_one_req` or `post_one_get`. -/
def sendOne (post : ℕ → ℕ → Code ℤ) (l : Locals) : Code (Locals ⊕ Option Locals) := do
  match (← get).freeSlots with
  | [] => do
    visit .noFreeSlot
    pure (.inr (some l))
  | slot :: rest => do
    modify fun m => { m with freeSlots := rest }
    let t0 ← now
    let rc ← post slot l.reqSeq
    if rc ≠ 0 then do
      modify fun m =>
        { m with freeSlots := slot :: m.freeSlots, faults := .post m.activeSlots.length :: m.faults }
      if p.fatalRc rc then pure (.inr none) else pure (.inr (some l))
    else do
      let t1 ← now
      pure (.inl { l with
        maxPostNs := max l.maxPostNs (sub64 t1 t0)
        reqActive := l.reqActive + 1
        reqSeq := l.reqSeq + 1 })

/-- One round of the sending loop. -/
def sendRound (post : ℕ → ℕ → Code ℤ) (deadline : ℕ) (l : Locals) :
    Code (Locals ⊕ Option Locals) := do
  visit (.send l.reqActive)
  let t ← now
  if deadline ≤ t then pure (.inr (some l))
  else do
    let fatal ← Proc.act .loadFatal
    if fatal then pure (.inr (some l))
    else if slotCount ctx.args ≤ l.reqActive then pure (.inr (some l))
    else do
      let nextReqNs ← pause ctx l.nextReqNs
      sendOne p post { l with nextReqNs := nextReqNs }

/-- The body of the main loop: harvest, then send. -/
def workRound (post : ℕ → ℕ → Code ℤ) (deadline : ℕ) (l : Locals) :
    Code (Locals ⊕ Option Locals) := do
  match ← Proc.loop (harvestRound p) (0, l) with
  | none => pure (.inr none)
  | some l => do
    match ← Proc.loop (sendRound ctx p post deadline) l with
    | none => pure (.inr none)
    | some l => do
      let t ← now
      let l := if l.lastPollNs ≠ 0 then
        { l with maxPollNs := max l.maxPollNs (sub64 t l.lastPollNs) } else l
      pure (.inl { l with lastPollNs := t })

/-- `!w->stop && !ctx->fatal && now_ns() < deadline`. -/
def keepsRunning (deadline : ℕ) : Code Bool := do
  let stop ← Proc.act .loadStop
  if stop then pure false
  else do
    let fatal ← Proc.act .loadFatal
    if fatal then pure false
    else do
      let t ← now
      pure (t < deadline)

/-- One round of the main loop. -/
def mainRound (post : ℕ → ℕ → Code ℤ) (deadline : ℕ) (l : Locals) :
    Code (Locals ⊕ Option Locals) := do
  visit (.head l.reqActive)
  if ← keepsRunning deadline then workRound ctx p post deadline l
  else pure (.inr (some l))

/-- The pipeline up to the line printed after the main loop: `false` when it returns `-1`. -/
def mainLoop (post : ℕ → ℕ → Code ℤ) (deadline : ℕ) : Code Bool := do
  let t ← now
  match ← Proc.loop (mainRound ctx p post deadline) ⟨t, 0, 0, 0, 0, 0, 0⟩ with
  | none => pure false
  | some l => do
    say (.exiting p.op l.maxPollNs l.maxPostNs l.maxProbeNs)
    pure true

end Main

/-! ### The drains -/

/-- `remaining_ms`. -/
def remainingMs (drainDeadline t : ℕ) : ℤ :=
  if t < drainDeadline then asInt32 ((drainDeadline - t + 999999) % 2 ^ 64 / 1000000) else 0

/-- `drain_deadline`. -/
def drainDeadlineOf (args : Argument) : Code ℕ := do
  let t ← now
  pure ((t + asUInt64 args.timeoutMs * 1000000) % 2 ^ 64)

/-- The failures of a drain are added to `errors`. -/
def reportFailures (failures : ℕ) : Code Unit :=
  if 0 < failures then modify fun m => { m with errors := m.errors + failures } else pure ()

/-- The local variables of the write drain. -/
structure WriteDrain where
  sendCompleted : Bool
  requestCompleted : Bool
  failures : ℕ

/-- One work request of the write drain. -/
def drainWriteWr (drainDeadline idx wr : ℕ) (d : WriteDrain) : Code WriteDrain := do
  let s := (← get).wrSlots idx
  if s.done wr then pure d
  else do
    let t ← now
    if ← waitEvent (s.eventToken wr) (remainingMs drainDeadline t) then do
      let t ← now
      modify (recordWr (sub64 t (s.wrPostNs wr)))
      pure d
    else do
      say (.drainTimeout .write s.reqSeq wr (s.eventToken wr))
      pure ⟨false, false, d.failures + 1⟩

/-- One send of the write drain. -/
def drainWriteSend (drainDeadline idx send : ℕ) (d : WriteDrain) : Code WriteDrain := do
  let d ← Proc.each (drainWriteWr drainDeadline idx) (send * kvWrPerSend) kvWrPerSend
    { d with sendCompleted := true }
  if d.sendCompleted then releaseSendLane (.slot idx send) (((← get).wrSlots idx).jetty send)
  else pure ()
  modify (setJetty idx send none)
  pure d

/-- A request that a drain has completed is counted. -/
def countDrained (size idx : ℕ) : Code Unit := do
  let t ← now
  modify fun m => recordReq (sub64 t (m.wrSlots idx).postNs) m
  modify fun m => { m with ops := m.ops + 1, bytes := m.bytes + size * kvSendsPerReq }
  count (reqIds idx)

/-- One request of the write drain. -/
def drainWriteRound (args : Argument) (drainDeadline failures : ℕ) : Code (ℕ ⊕ ℕ) := do
  match (← get).activeSlots with
  | [] => pure (.inr failures)
  | idx :: _ => do
    let d ← Proc.each (drainWriteSend drainDeadline idx) 0 kvSendsPerReq ⟨true, true, failures⟩
    if d.requestCompleted then countDrained args.sendSize idx else pure ()
    modify (deactivate idx)
    modify (retire idx 0)
    pure (.inl d.failures)

/-- `client_write_pipeline`. -/
def clientWritePipeline (ctx : Context) (deadline : ℕ) : Code ℤ := do
  if ← mainLoop ctx (writePipe ctx.args) (postOneReq ctx) deadline then do
    let drainDeadline ← drainDeadlineOf ctx.args
    let failures ← Proc.loop (drainWriteRound ctx.args drainDeadline) 0
    reportFailures failures
    pure 0
  else pure (-1)

/-- One work request of the get drain; `allOk` is `all_ok`. -/
def drainGetWr (remaining : ℤ) (idx wr : ℕ) (allOk : Bool) : Code Bool := do
  let s := (← get).wrSlots idx
  if ← waitEvent (s.eventToken wr) remaining then do
    let t ← now
    modify (recordWr (sub64 t (s.wrPostNs wr)))
    pure allOk
  else do
    say (.drainTimeout .get s.reqSeq wr (s.eventToken wr))
    pure false

/-- A request of the get drain all of whose work requests completed: it is counted and its lanes go
back. -/
def closeGet (size idx : ℕ) : Code Unit := do
  countDrained size idx
  Proc.each (fun send _ => do
    releaseSendLane (.slot idx send) (((← get).wrSlots idx).jetty send)) 0 kvSendsPerReq ()

/-- One request of the get drain. -/
def drainGetRound (args : Argument) (drainDeadline failures : ℕ) : Code (ℕ ⊕ ℕ) := do
  match (← get).activeSlots with
  | [] => pure (.inr failures)
  | idx :: _ => do
    let t ← now
    let allOk ← Proc.each (drainGetWr (remainingMs drainDeadline t) idx) 0 kvWrPerReq true
    if allOk then closeGet args.valueSize idx else pure ()
    modify (setSlot idx fun s => { s with jetty := fun _ => none, active := false })
    modify (retire idx 0)
    pure (.inl (if allOk then failures else failures + 1))

/-- `client_get_pipeline`. -/
def clientGetPipeline (ctx : Context) (deadline : ℕ) : Code ℤ := do
  if ← mainLoop ctx (getPipe ctx.args) (postOneGet ctx) deadline then do
    let drainDeadline ← drainDeadlineOf ctx.args
    let failures ← Proc.loop (drainGetRound ctx.args drainDeadline) 0
    reportFailures failures
    pure 0
  else pure (-1)

/-! ### Synchronous rounds -/

section Sync

variable (ctx : Context)

/-- The end of `client_do_write`, once both work requests have been posted. -/
def awaitBoth (jetty : Lane) (tokenA tokenB postA postB : ℕ) (srcA srcB dst : ℤ) : Code ℤ := do
  let okA ← waitEvent tokenA ctx.args.timeoutMs
  if okA then do
    let t ← now
    modify (recordWr (sub64 t postA))
  else pure ()
  let okB ← waitEvent tokenB ctx.args.timeoutMs
  if okB then do
    let t ← now
    modify (recordWr (sub64 t postB))
  else pure ()
  if okA then pure () else say (.syncWaitFailed 0 tokenA srcA dst)
  if okB then pure () else say (.syncWaitFailed 1 tokenB srcB dst)
  if okA && okB then do
    releaseSendLane .sync (some jetty)
    count [.sync 0, .sync 1]
  else say (.syncQuarantined .write)
  pure (if okA && okB then 0 else -1)

/-- `client_do_write` when the second post has failed. -/
def awaitFirst (jetty : Lane) (tokenA tokenB postA : ℕ) : Code ℤ := do
  say (.syncPostFailed .write 1)
  abortEvent tokenB
  if ← waitEvent tokenA ctx.args.timeoutMs then do
    let t ← now
    modify (recordWr (sub64 t postA))
    releaseSendLane .sync (some jetty)
  else say (.syncQuarantined .write)
  pure (-1)

/-- A timed post of the work request `half` of a synchronous write: whether it succeeded, and the
time before it. -/
def postHalf (half : ℕ) (jetty : Lane) (off : ℕ) (src dst : ℤ) (ue : ℕ) : Code (Bool × ℕ) := do
  let size := ctx.args.valueSize % 2 ^ 32
  let postNs ← now
  let t0 ← now
  let ok ← postRw (.sync half) false (some jetty) (ctx.clientData + off)
    (ctx.remoteSegVa + off % (serverDataWindow * size)) size src dst ue
  let t1 ← now
  modify (recordPost (sub64 t1 t0))
  pure (ok, postNs)

/-- `client_do_write` once it has both tokens. -/
def postBoth (jetty : Lane) (ua tokenA ub tokenB : ℕ) (srcA srcB dst : ℤ) : Code ℤ := do
  let size := ctx.args.valueSize % 2 ^ 32
  let off := (← get).off
  let (okA, postA) ← postHalf ctx 0 jetty off srcA dst ua
  if okA then do
    let (okB, postB) ← postHalf ctx 1 jetty ((off + size) % 2 ^ 64) srcB dst ub
    if okB then awaitBoth ctx jetty tokenA tokenB postA postB srcA srcB dst
    else awaitFirst ctx jetty tokenA tokenB postA
  else do
    say (.syncPostFailed .write 0)
    abortEvent tokenA
    abortEvent tokenB
    releaseSendLane .sync (some jetty)
    pure (-1)

/-- `client_do_write`. -/
def clientDoWrite (srcA srcB dst : ℤ) : Code ℤ := do
  match ← acquireSendLane .sync with
  | none => do
    say (.syncLaneExhausted .write)
    pure (-1)
  | some jetty => do
    let (ua, tokenA) ← postEvent
    if ua = 0 then do
      say (.syncEventsExhausted .write 0)
      releaseSendLane .sync (some jetty)
      pure (-1)
    else do
      let (ub, tokenB) ← postEvent
      if ub = 0 then do
        say (.syncEventsExhausted .write 1)
        abortEvent tokenA
        releaseSendLane .sync (some jetty)
        pure (-1)
      else postBoth ctx jetty ua tokenA ub tokenB srcA srcB dst

/-- `client_do_get` once it has its token. -/
def readOne (jetty : Lane) (ue token : ℕ) (src dst : ℤ) : Code ℤ := do
  let size := ctx.args.valueSize % 2 ^ 32
  let off := (← get).off % (ctx.args.threads * dataWindowPerThread * size % 2 ^ 64)
  let postNs ← now
  let ok ← postRw (.sync 0) true (some jetty) (ctx.clientData + off)
    (ctx.remoteSegVa + off % (serverDataWindow * size)) size src dst ue
  if ok then do
    let done ← waitEvent token ctx.args.timeoutMs
    if done then do
      let t ← now
      modify (recordWr (sub64 t postNs))
      releaseSendLane .sync (some jetty)
      count [.sync 0]
    else say (.syncQuarantined .get)
    pure (if done then 0 else -1)
  else do
    say (.syncPostFailed .get 0)
    abortEvent token
    releaseSendLane .sync (some jetty)
    pure (-1)

/-- `client_do_get`. -/
def clientDoGet (src dst : ℤ) : Code ℤ := do
  match ← acquireSendLane .sync with
  | none => do
    say (.syncLaneExhausted .get)
    pure (-1)
  | some jetty => do
    let (ue, token) ← postEvent
    if ue = 0 then do
      say (.syncEventsExhausted .get 0)
      releaseSendLane .sync (some jetty)
      pure (-1)
    else readOne ctx jetty ue token src dst

/-- The chips of a round of mixed mode. -/
def chooseRoundChips : Code (ℤ × ℤ × ℤ) := do
  let m ← get
  let ((srcA, srcB, dst), rng) := pickRoundChips ctx.args (ctx.cpus m.id m.reads) m.id m.rng
  set { m with rng := rng, reads := m.reads + 1 }
  if ctx.args.drvExt then
    pure (srcA, srcB, if ctx.peerDstChip ≠ invalidChip then (ctx.peerDstChip : ℤ) else dst)
  else pure ((invalidChip : ℤ), (invalidChip : ℤ), (invalidChip : ℤ))

/-- The round itself: a write with the probability `mixed_ratio`, else a read. -/
def roundOp (srcA srcB dst : ℤ) : Code ℤ := do
  if ctx.args.op = .get then clientDoGet ctx srcA dst
  else do
    modify fun m => { m with rng := rngNext m.rng }
    if (← get).rng % 100 < ctx.args.mixedRatio then clientDoWrite ctx srcA srcB dst
    else clientDoGet ctx srcA dst

/-- `if (!ctx->fatal) { ctx->fatal = true; ... }`. -/
def raiseFatal : Code Unit := do
  let fatal ← Proc.act .loadFatal
  if fatal then pure ()
  else do
    Proc.act .setFatal
    say (.fatal ctx.args.op (← get).id)

/-- An error of the worker. -/
def countError : Code Unit := do
  modify fun m => { m with errors := m.errors + 1 }
  raiseFatal ctx

/-- `round_bytes`. -/
def roundBytes (args : Argument) : ℕ :=
  if args.op = .get then args.valueSize else 2 * args.valueSize

theorem roundBytes_mixed {args : Argument} (hop : args.op = .mixed) :
    roundBytes args = 2 * args.valueSize := by
  unfold roundBytes
  rw [hop, if_neg (by decide)]

/-- `window`. -/
def offWindow (args : Argument) : ℕ :=
  args.threads * dataWindowPerThread * args.valueSize % 2 ^ 64

/-- A round of mixed mode after the wait for its start. -/
def timedRound : Code (Unit ⊕ Unit) := do
  let (srcA, srcB, dst) ← chooseRoundChips ctx
  let t0 ← now
  let rc ← roundOp ctx srcA srcB dst
  let t1 ← now
  if rc = 0 then do
    modify fun m =>
      { m with
        hist := kvHistRecord m.hist (sub64 t1 t0)
        ops := m.ops + 1
        bytes := m.bytes + roundBytes ctx.args
        off := if ctx.args.fixedOffset then m.off
          else (m.off + roundBytes ctx.args) % 2 ^ 64 % offWindow ctx.args
        nextPostNs := (t0 + intervalNs ctx.args) % 2 ^ 64 }
    pure (.inl ())
  else do
    countError ctx
    pure (.inr ())

/-- One round of mixed mode. -/
def syncRound (deadline : ℕ) (_ : Unit) : Code (Unit ⊕ Unit) := do
  if ← keepsRunning deadline then do
    let t ← now
    let nextPostNs := (← get).nextPostNs
    if 0 < intervalNs ctx.args ∧ t < nextPostNs then waitUntil nextPostNs t else pure ()
    timedRound ctx
  else pure (.inr ())

/-- The end of `client_worker_main` in write and get mode, after the pipeline returned `rc`. -/
def pipelineDone (rc : ℤ) : Code Unit :=
  if rc ≠ 0 then countError ctx else pure ()

/-- `client_worker_main`, without the pinning of the thread to a CPU. -/
def clientWorkerMain : Code Unit := do
  let t ← now
  let deadline := (t + ctx.args.durationSec * 1000000000) % 2 ^ 64
  let t ← now
  modify fun m =>
    { m with
      nextPostNs := t
      off := m.id * dataWindowPerThread * ctx.args.valueSize % 2 ^ 64 }
  match ctx.args.op with
  | .write => do
    let rc ← clientWritePipeline ctx deadline
    pipelineDone ctx rc
  | .get => do
    let rc ← clientGetPipeline ctx deadline
    pipelineDone ctx rc
  | .mixed => Proc.loop (syncRound ctx deadline) ()

end Sync

end KvBench.Bench
