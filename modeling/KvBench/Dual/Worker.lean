import KvBench.Bench.System
import KvBench.Conc.Local

/-!
# Dual-device mode (`kv_bench.cpp`)

Each round of a worker writes four work requests, one for each port, to consecutive places from an
offset that walks through a window: the part of the client's buffer that belongs to all its workers.
The same offsets are used in the segment of the server.

The four managers are not looked into here: what they answer to a call is left open. Of a run there
are recorded the offsets of the rounds (`Act.round`, which stands for no code) and the calls of
`PostWrite`.
-/

namespace KvBench.Dual

open KvBench.Bench KvBench.Conc KvBench.Hist

/-! ### Buffers -/

/-- `DUAL_PORTS`. -/
def dualPorts : ℕ := 4

/-- `wr_size`. -/
def wrSize (args : Argument) : ℕ := args.sendSize / 2

/-- `round_bytes`. -/
def roundBytes (args : Argument) : ℕ := dualPorts * wrSize args % 2 ^ 64

/-- `window`. -/
def window (args : Argument) : ℕ := args.threads * roundBytes args % 2 ^ 64

/-- `buf_len` of `run_dual_client` and `run_dual_server`, for the options of that end. -/
def bufLen (args : Argument) : ℕ := roundUp (window args) pageSize

/-! ### The worker -/

/-- The members of `dual_worker_t` that the thread uses. -/
structure DualWorker where
  wid : ℕ → ℕ
  eventToken : ℕ → ℕ
  jetty : ℕ → Option Lane
  histReq : KvHist
  histPost : KvHist
  ops : ℕ
  bytes : ℕ
  errors : ℕ
  off : ℕ

/-- What the workers of a client have in common and do not change. -/
structure DualContext where
  args : Argument
  clientData : ℕ
  /-- The address of the segment behind each port. -/
  remoteSegVa : ℕ → ℕ

/-- The steps of a worker. -/
inductive Act : Type → Type where
  /-- `RegisterWorker`: the number of the worker, unless it fails. -/
  | registerWorker (port : ℕ) : Act (Option ℕ)
  | acquireSendLane (port : ℕ) : Act (Option Lane)
  | releaseSendLane (port : ℕ) (lane : Option Lane) : Act Unit
  /-- `PostEvent`: the `user_ctx` and the token. -/
  | postEvent (port wid : ℕ) : Act (ℕ × ℕ)
  | abortEvent (port wid token : ℕ) : Act Unit
  | waitEvent (port wid token : ℕ) (timeoutMs : ℤ) : Act Bool
  | postWrite (port : ℕ) (wr : Wr) : Act Bool
  | now : Act ℕ
  | loadStop : Act Bool
  | loadFatal : Act Bool
  | setFatal : Act Unit
  /-- A round begins at the offset `off`. -/
  | round (off : ℕ) : Act Unit

/-- A procedure of a worker. -/
abbrev Code := Proc DualWorker Act

section Code

variable (ctx : DualContext)

/-- `while (!dw->stop && !ctx->fatal && now_ns() < deadline)`. -/
def keepsRunning (deadline : ℕ) : Code Bool := do
  let stop ← Proc.act .loadStop
  if stop then pure false
  else do
    let fatal ← Proc.act .loadFatal
    if fatal then pure false
    else do
      let t ← Proc.act .now
      pure (t < deadline)

/-- The work request of one port: `some port` when the loop is left there. -/
def postPort (off port : ℕ) : Code (Option ℕ) := do
  match ← Proc.act (.acquireSendLane port) with
  | none => pure (some port)
  | some lane => do
    let (ue, token) ← Proc.act (.postEvent port ((← get).wid port))
    modify fun m => { m with eventToken := Function.update m.eventToken port token }
    if ue = 0 then do
      Proc.act (.releaseSendLane port (some lane))
      pure (some port)
    else do
      let t0 ← Proc.act .now
      let ok ← Proc.act (.postWrite port
        { lane := lane
          localAddr := (ctx.clientData + off + port * wrSize ctx.args) % 2 ^ 64
          remoteAddr := (ctx.remoteSegVa port + off + port * wrSize ctx.args) % 2 ^ 64
          len := wrSize ctx.args % 2 ^ 32
          srcChip := invalidChip
          dstChip := invalidChip
          userCtx := ue
          read := false })
      let t1 ← Proc.act .now
      modify fun m => { m with histPost := kvHistRecord m.histPost (sub64 t1 t0) }
      if ok then do
        modify fun m => { m with jetty := Function.update m.jetty port (some lane) }
        pure none
      else do
        Proc.act (.abortEvent port ((← get).wid port) token)
        Proc.act (.releaseSendLane port (some lane))
        pure (some port)

/-- The completion of one port. -/
def waitPort (port : ℕ) (ok : Bool) : Code Bool := do
  let m ← get
  let done ← Proc.act (.waitEvent port (m.wid port) (m.eventToken port) ctx.args.timeoutMs)
  if done then Proc.act (.releaseSendLane port (m.jetty port)) else pure ()
  modify fun m => { m with jetty := Function.update m.jetty port none }
  pure (if done then ok else false)

/-- One round. -/
def dualRound (deadline : ℕ) (_ : Unit) : Code (Unit ⊕ Unit) := do
  if ← keepsRunning deadline then do
    let t0 ← Proc.act .now
    let off := (← get).off
    Proc.act (.round off)
    let left ← Proc.search (postPort ctx off) 0 dualPorts
    let ok ← Proc.each (waitPort ctx) 0 (left.getD dualPorts) left.isNone
    if ok then do
      let t1 ← Proc.act .now
      modify fun m =>
        { m with
          bytes := m.bytes + roundBytes ctx.args
          histReq := kvHistRecord m.histReq (sub64 t1 t0)
          ops := m.ops + 1
          off := (m.off + roundBytes ctx.args) % 2 ^ 64 % window ctx.args }
      pure (.inl ())
    else do
      modify fun m => { m with errors := m.errors + 1 }
      let fatal ← Proc.act .loadFatal
      if fatal then pure () else Proc.act .setFatal
      pure (.inr ())
  else pure (.inr ())

/-- The worker registers with one manager; `some` when it cannot. -/
def register (port : ℕ) : Code (Option Unit) := do
  match ← Proc.act (.registerWorker port) with
  | none => pure (some ())
  | some wid => do
    modify fun m => { m with wid := Function.update m.wid port wid }
    pure none

/-- `dual_worker_main`. -/
def dualWorkerMain : Code Unit := do
  let t ← Proc.act .now
  let deadline := (t + ctx.args.durationSec * 1000000000) % 2 ^ 64
  match ← Proc.search register 0 dualPorts with
  | some _ => pure ()
  | none => Proc.loop (dualRound ctx deadline) ()

end Code

/-! ### Runs -/

/-- What is known of a run: the flags, the rounds and the calls of `PostWrite` of each worker. -/
structure Run where
  fatal : Bool
  rounds : ℕ → List ℕ
  posts : ℕ → List (ℕ × Wr)

/-- What the managers and the clock answer. -/
structure Oracle where
  wid : Option ℕ
  lane : Option Lane
  event : ℕ × ℕ
  ok : Bool
  stop : Bool
  clock : ℕ

/-- The effect of a step of the worker `w`. -/
def Act.run {β : Type} (w : ℕ) (o : Oracle) : Act β → Run → β × Run
  | .registerWorker _, s => (o.wid, s)
  | .acquireSendLane _, s => (o.lane, s)
  | .releaseSendLane _ _, s => ((), s)
  | .postEvent _ _, s => (o.event, s)
  | .abortEvent _ _ _, s => ((), s)
  | .waitEvent _ _ _ _, s => (o.ok, s)
  | .postWrite port wr, s =>
    (o.ok, { s with posts := Function.update s.posts w ((port, wr) :: s.posts w) })
  | .now, s => (o.clock, s)
  | .loadStop, s => (o.stop, s)
  | .loadFatal, s => (s.fatal, s)
  | .setFatal, s => ((), { s with fatal := true })
  | .round off, s => ((), { s with rounds := Function.update s.rounds w (off :: s.rounds w) })

/-- The workers of a client. -/
def dual (n : ℕ) : World (Fin n) DualWorker Run Oracle Empty Act where
  run i o e s := e.run i o s
  allowed _ _ _ _ _ _ := True
  env := fun x _ => x.elim
  envAllowed := fun x _ => x.elim

/-- The worker `i` as `run_dual_client` sets it up; `hist` is what `kv_hist_init` makes. -/
def createDualWorker (args : Argument) (hist : KvHist) (i : ℕ) : DualWorker where
  wid := fun _ => 0
  eventToken := fun _ => 0
  jetty := fun _ => none
  histReq := hist
  histPost := hist
  ops := 0
  bytes := 0
  errors := 0
  off := i * roundBytes args % 2 ^ 64

/-- The client of `run_dual_client`. -/
def dualClient (ctx : DualContext) (hist : KvHist) (n : ℕ) :
    Conf (Fin n) DualWorker Run Act (Unit × DualWorker) where
  prog i := dualWorkerMain ctx (createDualWorker ctx.args hist i)
  time _ := 0
  state := ⟨false, fun _ => [], fun _ => []⟩

end KvBench.Dual
