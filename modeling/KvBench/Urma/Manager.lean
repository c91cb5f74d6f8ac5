import KvBench.Urma.Resource

/-!
# The life of the manager (`urma_manager.cpp`, `kv_bench.cpp`)

`Init` builds up the handles, `Stop` and the destructor take them down again, and `destroy_context`
is how a run ends in any case. Between them the buffer is registered, connections are made and closed,
and workers take lanes and give them back or put them in quarantine; each of these is a step here. The message that
`SockSyncData` receives is only looked at for its `send_size`.
-/

namespace KvBench.Urma

open KvBench.Lanes KvBench.Own

/-- Assigns to members of the manager. -/
def assignManager (f : UrmaManager → UrmaManager) : Code Unit :=
  modify fun s => { s with mgr := f s.mgr }

/-- A call that may fail, made under a condition. -/
def askIf (c : Bool) (f : Failure) : Code Unit := if c then ask f else pure ()

/-- `InitUrmaLib`. -/
def initUrmaLib : Code Unit := do
  ask .init
  note .init

/-- `EnsurePollThread`. -/
def ensurePollThread : Code Unit := do
  let s ← get
  if s.mgr.pollStarted then pure ()
  else
    ask .pollThread
    assignManager fun m => { m with pollStarted := true }
    note .pollStart

/-- The arguments of `Init` that decide what it does. -/
structure InitArgs where
  jettyCount : ℕ
  threadsMin : ℕ
  eventMode : Bool
  /-- No `eidIndex` was given. -/
  autoEid : Bool

/-- `UrmaManager::Init`. -/
def managerInit (a : InitArgs) : Code Unit := do
  let s ← get
  if s.mgr.initialized then pure ()
  else
    assignManager fun m => { m with eventMode := a.eventMode }
    initUrmaLib
    ask .getDeviceByName
    askIf a.autoEid .getEidIndex
    resourceInit a.jettyCount a.threadsMin a.eventMode
    askIf a.eventMode .rearmJfc
    assignManager fun m => { m with initialized := true }
    ensurePollThread

/-- `RegisterBuffer`. -/
def registerBuffer : Code Unit := do
  let seg ← registerSegment
  let s ← get
  assignManager fun m => { m with localSeg := some seg }
  modify fun t => { t with store := t.store.dropAll s.mgr.localSeg.toList }

/-- What `Exchange` is called with and finds in the message of the other end. -/
structure ExchangeArgs where
  sendSize : ℕ
  transMode : ℕ
  preferRtp : Bool
  remoteSendSize : ℕ

/-- The import of the jetty of the other end: as a bonding device first, unless told otherwise. -/
def importRemoteJetty (preferRtp : Bool) : Code ℕ :=
  if preferRtp then importTargetJetty
  else tryCatch importTargetJetty fun _ => importTargetJetty

/-- The loop that binds the jettys of the pool to the target jetty. -/
def bindJettys (target : ℕ) : List ℕ → Code Unit
  | [] => pure ()
  | jetty :: jettys => do
    ask .bindJetty
    note (.bind jetty target)
    bindJettys target jettys

/-- In the connected modes all jettys of the pool are bound. -/
def bindPool (a : ExchangeArgs) (target : ℕ) : Code Unit := do
  let s ← get
  if a.transMode = 1 ∨ a.transMode = 3 then
    bindJettys target s.mgr.resource.sendJettyPool.jettys
  else pure ()

/-- `Exchange` after the jetty has been imported. -/
def finishExchange (a : ExchangeArgs) (target : ℕ) : Code UrmaConnection := do
  let seg ← importSegment
  tryCatch (bindPool a target) fun e => do
    unref seg
    throw e
  pure ⟨target, seg⟩

/-- `Exchange`. The connection is dropped when it fails, and given to the caller when it does not. -/
def exchange (a : ExchangeArgs) : Code Unit := do
  let s ← get
  if s.mgr.localSeg = none ∨ s.mgr.resource.context = none then throw .notRegistered
  else
    ask .sockSyncData
    if a.sendSize ≠ 0 ∧ a.remoteSendSize ≠ 0 ∧ a.remoteSendSize ≠ a.sendSize then
      throw .sendSizeMismatch
    else
      let target ← importRemoteJetty a.preferRtp
      let conn ← tryCatch (finishExchange a target) fun e => do
        unref target
        throw e
      modify fun s => { s with conns := s.conns ++ [conn] }

/-- The connection is reset. -/
def closeConn (i : ℕ) : Code Unit :=
  modify fun s => { s with
    store := s.store.dropAll ((s.conns[i]?.elim [] UrmaConnection.refs).map Prod.snd)
    conns := s.conns.eraseIdx i }

/-- `AcquireSendLane` into a slot of a worker. -/
def acquireSendLane : Code Unit :=
  modify fun s =>
    match s.mgr.resource.sendJettyPool.popIdle with
    | (none, pool) => { s with mgr.resource.sendJettyPool := pool }
    | (some jetty, pool) =>
      { s with
        store := s.store.copy jetty
        mgr.resource.sendJettyPool := pool
        lanes := jetty :: s.lanes }

/-- `ReleaseSendLane` of the lane in a slot, which is reset. -/
def releaseSendLane (jetty : ℕ) : Code Unit :=
  modify fun s =>
    if jetty ∈ s.lanes then
      { s with
        mgr.resource.sendJettyPool := s.mgr.resource.sendJettyPool.release jetty
        lanes := s.lanes.erase jetty
        store := s.store.drop jetty }
    else s

/-- A slot is reset without `ReleaseSendLane`, because a completion is missing: the lane stays taken. -/
def quarantineLane (jetty : ℕ) : Code Unit :=
  modify fun s =>
    if jetty ∈ s.lanes then
      { s with
        lanes := s.lanes.erase jetty
        store := s.store.drop jetty }
    else s

/-! ### Teardown -/

/-- The poll thread is told to stop and joined. -/
def Sys.joinPoll (s : Sys) : Sys :=
  if s.mgr.pollStarted then { s with store := s.store.note .pollJoin, mgr.pollStarted := false }
  else s

/-- `localSeg_.reset()` of the manager. -/
def Sys.resetLocalSeg (s : Sys) : Sys :=
  { s with store := s.store.dropAll s.mgr.localSeg.toList, mgr.localSeg := none }

/-- `urma_uninit`, with the flag reset. -/
def Sys.uninit (s : Sys) : Sys := { s with store := s.store.note .uninit, mgr.initialized := false }

/-- `Stop`. -/
def Sys.stop (s : Sys) : Sys :=
  if s.mgr.initialized then s.joinPoll.clear.resetLocalSeg.uninit else s

/-- `delete mgr`: `~UrmaManager` calls `Stop`, and then the members are destroyed, the one declared last
first. -/
def Sys.deleteManager (s : Sys) : Sys := s.stop.resetLocalSeg.clear

/-- `ctx->conn.reset()`. A server has no connection left when it gets there. -/
def Sys.resetConns (s : Sys) : Sys :=
  { s with store := s.store.dropAll ((s.conns.flatMap UrmaConnection.refs).map Prod.snd), conns := [] }

/-- `free_bench_workers`, as far as lanes are concerned that are still in slots. -/
def Sys.freeBenchWorkers (s : Sys) : Sys := { s with store := s.store.dropAll s.lanes, lanes := [] }

/-- `destroy_context`. -/
def Sys.destroyContext (s : Sys) : Sys := s.resetConns.stop.deleteManager.freeBenchWorkers

/-! ### Runs -/

/-- The steps between `Init` and the teardown. -/
inductive Op where
  | registerBuffer
  | exchange (a : ExchangeArgs)
  | closeConn (i : ℕ)
  | acquireSendLane
  | releaseSendLane (jetty : ℕ)
  | quarantineLane (jetty : ℕ)

/-- The code of a step. -/
def Op.code : Op → Code Unit
  | .registerBuffer => Urma.registerBuffer
  | .exchange a => Urma.exchange a
  | .closeConn i => Urma.closeConn i
  | .acquireSendLane => Urma.acquireSendLane
  | .releaseSendLane jetty => Urma.releaseSendLane jetty
  | .quarantineLane jetty => Urma.quarantineLane jetty

/-- The state after a step, whether it fails or not. -/
def Op.run (op : Op) (s : Sys) : Sys := (Fallible.exec op.code s).2

/-- A process that has just started. -/
def Sys.start (answers : ℕ → Bool) : Sys where
  store := .empty
  answers := answers
  asked := 0
  mgr := ⟨.empty, false, false, false, none⟩
  conns := []
  lanes := []

/-- `Init` in a new process. -/
def initialRun (answers : ℕ → Bool) (a : InitArgs) : Except Failure Unit × Sys :=
  Fallible.exec (managerInit a) (Sys.start answers)

end KvBench.Urma
