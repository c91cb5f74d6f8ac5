import KvBench.Lanes.Pool
import KvBench.Own.Fallible
import KvBench.Own.Kinds

/-!
# The handles of liburma (`urma_resource.cpp`)

Each handle of liburma is in an object whose destructor gives it back. The members of `UrmaResource`
and `UrmaManager`, the connections, and the lanes that the workers have taken are the references to
these objects. A JFR is the only handle that is held by other objects: every jetty has a reference to
its own.

Any call of the library may fail. Which do is left open by `answers`, and a procedure that fails keeps
what it has done up to there, as the code does when it returns `false`.

The configurations passed to the library are left out, and so are the copies of a reference that are
dropped before anything else happens.
-/

namespace KvBench.Urma

open KvBench.Lanes KvBench.Own

/-- The kinds of handles. -/
inductive Kind where
  | context | jfce | jfc | jfr | jetty | localSegment | targetJetty | remoteSegment
  deriving DecidableEq

/-- The kinds of the handles that are arguments of the call which makes one. -/
def Kind.uses : Kind → List Kind
  | .context => []
  | .jfce => [.context]
  | .jfc => [.context, .jfce]
  | .jfr => [.context, .jfc]
  | .jetty => [.context, .jfc, .jfr]
  | .localSegment => [.context]
  | .targetJetty => [.context]
  | .remoteSegment => [.context]

/-- A handle of kind `a` may be made from one of kind `b`. -/
def Kind.MayUse (a b : Kind) : Prop := b ∈ a.uses

instance (a b : Kind) : Decidable (Kind.MayUse a b) := inferInstanceAs (Decidable (b ∈ a.uses))

/-- A jetty has a reference to its JFR (`jfr_`). -/
def Kind.Shared (k : Kind) : Prop := k = .jfr

instance (k : Kind) : Decidable (Kind.Shared k) := inferInstanceAs (Decidable (k = .jfr))

/-- Calls that make no handle, and the life of the thread that polls. -/
inductive Call where
  | init
  | uninit
  | pollStart
  | pollJoin
  | bind (jetty target : ℕ)
  deriving DecidableEq

/-- Why a procedure returns `false`. -/
inductive Failure where
  | noContext
  | queryDevice
  | createContext
  | createJfce
  | createJfc
  | createJfr
  | createJetty
  | registerSeg
  | importJetty
  | importSeg
  | init
  | getDeviceByName
  | getEidIndex
  | rearmJfc
  | pollThread
  | notRegistered
  | sockSyncData
  | sendSizeMismatch
  | bindJetty
  deriving DecidableEq

/-! ### State -/

/-- `UrmaResource`. -/
structure UrmaResource where
  context : Option ℕ
  jfce : Option ℕ
  jfc : Option ℕ
  sharedJettyJfr : Option ℕ
  sendJettyPool : SendJettyPool ℕ
  sharedRecvJetty : Option ℕ
  localSeg : Option ℕ

/-- `UrmaConnection`, with the members that own something. -/
structure UrmaConnection where
  targetJetty : ℕ
  remoteSeg : ℕ
  deriving DecidableEq

/-- `UrmaManager`, without the tables of event slots. -/
structure UrmaManager where
  resource : UrmaResource
  initialized : Bool
  pollStarted : Bool
  eventMode : Bool
  localSeg : Option ℕ

/-- The handles and who has references to them. -/
structure Sys where
  store : Store Kind Call
  /-- Whether the `n`-th call succeeds. -/
  answers : ℕ → Bool
  asked : ℕ
  mgr : UrmaManager
  /-- The connection of a client, or those in the table of a server. -/
  conns : List UrmaConnection
  /-- The lanes in the slots of the workers. -/
  lanes : List ℕ

/-- References with their kind. -/
def ofKind (k : Kind) (hs : List ℕ) : List (Kind × ℕ) := hs.map (k, ·)

/-- The members of the resource that are references, in the order in which `Clear` resets them. -/
def UrmaResource.members (r : UrmaResource) : List (Kind × List ℕ) :=
  [(.localSegment, r.localSeg.toList), (.jetty, r.sendJettyPool.jettys),
    (.jetty, r.sharedRecvJetty.toList), (.jfr, r.sharedJettyJfr.toList), (.jfc, r.jfc.toList),
    (.jfce, r.jfce.toList), (.context, r.context.toList)]

/-- The references of the resource. -/
def UrmaResource.refs (r : UrmaResource) : List (Kind × ℕ) :=
  r.members.flatMap fun m => ofKind m.1 m.2

/-- The references of a connection, in the order in which they are dropped: the member declared last
goes first. -/
def UrmaConnection.refs (c : UrmaConnection) : List (Kind × ℕ) :=
  [(.remoteSegment, c.remoteSeg), (.targetJetty, c.targetJetty)]

/-- All references of the program. -/
def Sys.refs (s : Sys) : Multiset (Kind × ℕ) :=
  s.mgr.resource.refs + ofKind .localSegment s.mgr.localSeg.toList +
    s.conns.flatMap UrmaConnection.refs + ofKind .jetty s.lanes

/-- Procedures of the program. -/
abbrev Code := Fallible Sys Failure

/-- A call that may fail. -/
def ask (f : Failure) : Code Unit := do
  let s ← get
  modify fun s => { s with asked := s.asked + 1 }
  if s.answers s.asked then pure () else throw f

/-- A call that makes a handle. -/
def make (o : Obj Kind) (f : Failure) : Code ℕ := do
  ask f
  let s ← get
  modify fun s => { s with store := s.store.new o }
  pure s.store.objs.length

/-- One more reference. -/
def share (h : ℕ) : Code Unit := modify fun s => { s with store := s.store.copy h }

/-- A local reference goes out of scope. -/
def unref (h : ℕ) : Code Unit := modify fun s => { s with store := s.store.drop h }

/-- Another call. -/
def note (x : Call) : Code Unit := modify fun s => { s with store := s.store.note x }

/-- Assigns to members of the resource. -/
def assign (f : UrmaResource → UrmaResource) : Code Unit :=
  modify fun s => { s with mgr := { s.mgr with resource := f s.mgr.resource } }

/-! ### The code -/

/-- `UrmaContext::Create`. -/
def UrmaContext.create : Code ℕ := make ⟨.context, [], []⟩ .createContext

/-- `UrmaJfce::Create`. -/
def UrmaJfce.create (ctx : ℕ) : Code ℕ := make ⟨.jfce, [ctx], []⟩ .createJfce

/-- `UrmaJfc::Create`. The JFCE is passed in event mode only. -/
def UrmaJfc.create (ctx : ℕ) (jfce : Option ℕ) : Code ℕ :=
  make ⟨.jfc, ctx :: jfce.toList, []⟩ .createJfc

/-- `UrmaJfr::Create`. -/
def UrmaJfr.create (ctx jfc : ℕ) : Code ℕ := make ⟨.jfr, [ctx, jfc], []⟩ .createJfr

/-- The JFR that all send jettys share, which is created with the first of them. -/
def sharedJfr (ctx jfc : ℕ) : Code ℕ := do
  let s ← get
  match s.mgr.resource.sharedJettyJfr with
  | some jfr =>
    share jfr
    pure jfr
  | none =>
    let jfr ← UrmaJfr.create ctx jfc
    assign fun r => { r with sharedJettyJfr := some jfr }
    share jfr
    pure jfr

/-- The JFR of a new jetty: a receiving one has its own. -/
def jettyJfr (isSend : Bool) (ctx jfc : ℕ) : Code ℕ :=
  if isSend then sharedJfr ctx jfc else UrmaJfr.create ctx jfc

/-- `UrmaJetty::Create`. -/
def UrmaJetty.create (isSend : Bool) : Code ℕ := do
  let s ← get
  match s.mgr.resource.context, s.mgr.resource.jfc with
  | some ctx, some jfc =>
    let jfr ← jettyJfr isSend ctx jfc
    -- the local reference is moved into the jetty, or dropped
    tryCatch (make ⟨.jetty, [ctx, jfc, jfr], [jfr]⟩ .createJetty) fun e => do
      unref jfr
      throw e
  | _, _ => throw .noContext

/-- `CreateSendJetty`. -/
def createSendJetty : Code ℕ := UrmaJetty.create true

/-- `PreFillSendJettyPool`. -/
def preFillSendJettyPool : ℕ → Code Unit
  | 0 => pure ()
  | count + 1 => do
    let jetty ← createSendJetty
    assign fun r => { r with sendJettyPool := r.sendJettyPool.add jetty }
    preFillSendJettyPool count

/-- `GetOrCreateSharedRecvJetty`. -/
def getOrCreateSharedRecvJetty : Code Unit := do
  let s ← get
  match s.mgr.resource.sharedRecvJetty with
  | some _ => pure ()
  | none =>
    let jetty ← UrmaJetty.create false
    assign fun r => { r with sharedRecvJetty := some jetty }

/-- A resource as constructed. -/
def UrmaResource.empty : UrmaResource := ⟨none, none, none, none, .empty, none, none⟩

/-- `Clear`. -/
def Sys.clear (s : Sys) : Sys :=
  { s with
    store := s.store.dropAll (s.mgr.resource.refs.map Prod.snd)
    mgr := { s.mgr with resource := .empty } }

/-- `UrmaResource::Init` on a device. -/
def resourceInit (jettyCount minJettys : ℕ) (eventMode : Bool) : Code Unit := do
  modify Sys.clear
  ask .queryDevice
  let context ← UrmaContext.create
  assign fun r => { r with context := some context }
  let jfce ← UrmaJfce.create context
  assign fun r => { r with jfce := some jfce }
  let jfc ← UrmaJfc.create context (if eventMode then some jfce else none)
  assign fun r => { r with jfc := some jfc }
  let count := if minJettys < jettyCount then jettyCount else minJettys
  preFillSendJettyPool (if count < 1 then 1 else count)
  getOrCreateSharedRecvJetty

/-- `RegisterSegment`. The new segment is assigned to the member, which drops the one before; the
reference that is returned is a copy. -/
def registerSegment : Code ℕ := do
  let s ← get
  match s.mgr.resource.context with
  | none => throw .noContext
  | some ctx =>
    let seg ← make ⟨.localSegment, [ctx], []⟩ .registerSeg
    let s ← get
    assign fun r => { r with localSeg := some seg }
    modify fun t => { t with store := t.store.dropAll s.mgr.resource.localSeg.toList }
    share seg
    pure seg

/-- What `ImportTargetJetty` and `ImportSegment` do. -/
def importHandle (k : Kind) (f : Failure) : Code ℕ := do
  let s ← get
  match s.mgr.resource.context with
  | none => throw .noContext
  | some ctx => make ⟨k, [ctx], []⟩ f

/-- `ImportTargetJetty`. -/
def importTargetJetty : Code ℕ := importHandle .targetJetty .importJetty

/-- `ImportSegment`. -/
def importSegment : Code ℕ := importHandle .remoteSegment .importSeg

end KvBench.Urma
