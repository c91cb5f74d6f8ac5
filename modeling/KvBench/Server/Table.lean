import KvBench.Conc.Prog

/-!
# The connections of a server (`kv_bench.cpp`)

`run_server` waits for a key and then winds up. Meanwhile one thread accepts connections and puts each
into a slot of the table `conns`, and one thread for each connection makes the handshake and waits for
the client to go away. The table has no lock: a slot is free when its flag `used` is clear, the thread
that accepts sets the flag, and the thread of the connection clears it as the last thing it does.

The threads of connections are numbered in the order of their creation. An open descriptor is recorded
with the thread that has to close it, which the code does not do; the same goes for the slots that
threads serve and for what the accepting thread is in the middle of.
-/

namespace KvBench.Server

open KvBench.Conc

/-- `MAX_CLIENT_CNT`. -/
def maxClientCnt : ℕ := 10

/-- The threads of the server. -/
inductive Thread where
  | main
  /-- `server_sock_thread_main`. -/
  | acceptor
  /-- `server_conn_main`. -/
  | conn (k : ℕ)
  deriving DecidableEq

/-- `conn_t`. -/
structure Slot where
  used : Bool
  fd : ℕ
  /-- `tid`, which is 0 at first. -/
  tid : Option ℕ
  /-- There are handles of the other end. -/
  conn : Bool
  deriving DecidableEq

/-- A slot after `memset`. -/
def Slot.zero : Slot := ⟨false, 0, none, false⟩

/-- The state that the threads share. -/
structure Table where
  serverStop : Bool
  conns : ℕ → Slot
  /-- Which thread has to close a descriptor that is open. -/
  fds : ℕ → Option Thread
  /-- The number of threads created for connections. -/
  threads : ℕ
  ended : Thread → Bool
  destroyed : Bool
  /-- The slot that a thread serves. -/
  serving : ℕ → Option ℕ
  /-- The slot that is being filled. -/
  pending : Option ℕ
  /-- The slot whose thread has been created and not been noted in `tid`. -/
  naming : Option (ℕ × ℕ)

/-- What `accept` returns. -/
inductive Accepted where
  | again
  | failed
  | socket (fd : ℕ)
  deriving DecidableEq

/-- The steps of the threads. -/
inductive Act : Type → Type where
  | stopRequested : Act Bool
  | requestStop : Act Unit
  | getchar : Act Unit
  | accept : Act Accepted
  | readUsed (i : ℕ) : Act Bool
  | readTid (i : ℕ) : Act (Option ℕ)
  | readFd (i : ℕ) : Act ℕ
  | memset (i : ℕ) : Act Unit
  | setUsed (i : ℕ) (used : Bool) : Act Unit
  | setFd (i fd : ℕ) : Act Unit
  | setTid (i k : ℕ) : Act Unit
  /-- `pthread_create` of a thread for the slot, which may fail. -/
  | create (i : ℕ) : Act (Option ℕ)
  /-- The thread starts with the slot it has been created for. -/
  | start : Act ℕ
  | exchange (i fd : ℕ) : Act Bool
  /-- `read`: whether something has been received. -/
  | read (fd : ℕ) : Act Bool
  | resetConn (i : ℕ) : Act Unit
  | close (fd : ℕ) : Act Unit
  | exit : Act Unit
  | join (t : Thread) : Act Unit
  | closeListen : Act Unit
  | destroyContext : Act Unit

/-- What is left open: whether a call succeeds, and the number of a new descriptor. -/
inductive Oracle where
  | yes
  | no
  | again
  | fd (n : ℕ)
  deriving DecidableEq

/-- Changes a slot. -/
def Table.update (s : Table) (i : ℕ) (f : Slot → Slot) : Table :=
  { s with conns := Function.update s.conns i (f (s.conns i)) }

/-- The effect of a step of the thread `t`. -/
def Act.run {β : Type} (t : Thread) (o : Oracle) : Act β → Table → β × Table
  | .stopRequested, s => (s.serverStop, s)
  | .requestStop, s => ((), { s with serverStop := true })
  | .getchar, s => ((), s)
  | .accept, s =>
    match o with
    | .fd n => (.socket n, { s with fds := Function.update s.fds n (some t) })
    | .again => (.again, s)
    | _ => (.failed, s)
  | .readUsed i, s => ((s.conns i).used, s)
  | .readTid i, s => ((s.conns i).tid, s)
  | .readFd i, s => ((s.conns i).fd, s)
  | .memset i, s => ((), s.update i fun _ => .zero)
  | .setUsed i used, s =>
    let s := s.update i ({ · with used := used })
    match t with
    | .conn k => ((), { s with serving := Function.update s.serving k none })
    | _ => ((), { s with pending := if used then some i else none })
  | .setFd i fd, s => ((), s.update i ({ · with fd := fd }))
  | .setTid i k, s => ((), { s.update i ({ · with tid := some k }) with naming := none })
  | .create i, s =>
    match o with
    | .yes =>
      (some s.threads,
        { s with
          threads := s.threads + 1
          serving := Function.update s.serving s.threads (some i)
          fds := Function.update s.fds (s.conns i).fd (some (.conn s.threads))
          pending := none
          naming := some (i, s.threads) })
    | _ => (none, s)
  | .start, s =>
    match t with
    | .conn k => ((s.serving k).getD 0, s)
    | _ => (0, s)
  | .exchange i _, s =>
    match o with
    | .yes => (true, s.update i ({ · with conn := true }))
    | _ => (false, s)
  | .read _, s => (decide (o = .yes), s)
  | .resetConn i, s => ((), s.update i ({ · with conn := false }))
  | .close fd, s => ((), { s with fds := Function.update s.fds fd none })
  | .exit, s => ((), { s with ended := Function.update s.ended t true })
  | .join _, s => ((), s)
  | .closeListen, s => ((), s)
  | .destroyContext, s => ((), { s with destroyed := true })

/-- A new descriptor is one that is not open; a thread starts once it has been created; `pthread_join`
waits for the end of a thread. -/
def Act.Allowed {β : Type} (t : Thread) : Act β → Table → Oracle → Prop
  | .accept, s, .fd n => s.fds n = none
  | .start, s, _ =>
    match t with
    | .conn k => s.serving k ≠ none
    | _ => False
  | .join t', s, _ => s.ended t' = true
  | _, _, _ => True

instance {β : Type} (t : Thread) (a : Act β) (s : Table) (o : Oracle) : Decidable (a.Allowed t s o) := by
  cases a <;> cases o <;> cases t <;> unfold Act.Allowed <;> infer_instance

/-- The server as a system of threads without memory of their own. -/
def server : World Thread Unit Table Oracle Empty Act where
  run t o a s := a.run t o s
  allowed t _ _ a s o := a.Allowed t s o
  env := fun x _ => x.elim
  envAllowed := fun x _ => x.elim

instance : server.Effective where
  allowed t _ _ a s o := inferInstanceAs (Decidable (a.Allowed t s o))
  env := fun x _ => x.elim

/-! ### The code -/

/-- A procedure of a thread. -/
abbrev Code := Proc Unit Act

/-- The loop that waits for the end of the client. -/
def waitForClient (conn : ℕ) : Code Unit :=
  Proc.loop (fun _ => do
    let stop ← Proc.act .stopRequested
    if stop then pure (.inr ())
    else
      let fd ← Proc.act (.readFd conn)
      let more ← Proc.act (.read fd)
      pure (if more then .inl () else .inr ())) ()

/-- The part of `server_conn_main` that is left out when the handshake fails. -/
def serveClient (conn : ℕ) (ok : Bool) : Code Unit := if ok then waitForClient conn else pure ()

/-- `server_conn_main`. -/
def serverConnMain : Code Unit := do
  let conn ← Proc.act .start
  let fd ← Proc.act (.readFd conn)
  let ok ← Proc.act (.exchange conn fd)
  serveClient conn ok
  Proc.act (.resetConn conn)
  let fd ← Proc.act (.readFd conn)
  Proc.act (.close fd)
  Proc.act (.setUsed conn false)
  Proc.act .exit

/-- The search for a free slot. -/
def findSlot : Code (Option ℕ) :=
  Proc.search (fun i => do
    let used ← Proc.act (.readUsed i)
    pure (if used then none else some i)) 0 maxClientCnt

/-- A new connection is put into the slot `i`. -/
def fillSlot (i fd : ℕ) : Code Unit := do
  Proc.act (.memset i)
  Proc.act (.setUsed i true)
  Proc.act (.setFd i fd)
  match ← Proc.act (.create i) with
  | some k => Proc.act (.setTid i k)
  | none =>
    Proc.act (.setUsed i false)
    Proc.act (.close fd)

/-- What is done with a new connection. -/
def admitClient (fd : ℕ) : Code Unit := do
  match ← findSlot with
  | some i => fillSlot i fd
  | none => Proc.act (.close fd)

/-- A round of the loop of `server_sock_thread_main`. -/
def acceptRound : Code (Unit ⊕ Unit) := do
  let stop ← Proc.act .stopRequested
  if stop then pure (.inr ())
  else
    match ← Proc.act .accept with
    | .again => pure (.inl ())
    | .failed => pure (.inr ())
    | .socket fd =>
      admitClient fd
      pure (.inl ())

/-- `server_sock_thread_main`. -/
def serverSockThreadMain : Code Unit := do
  Proc.loop (fun _ => acceptRound) ()
  Proc.act .exit

/-- The end of the connection in the slot `i` is waited for. -/
def joinSlot (i : ℕ) : Code Unit := do
  let used ← Proc.act (.readUsed i)
  if used then
    match ← Proc.act (.readTid i) with
    | some k => Proc.act (.join (.conn k))
    | none => pure ()
  else pure ()

/-- `run_server` from where the server listens. -/
def runServer : Code Unit := do
  Proc.act .getchar
  Proc.act .requestStop
  Proc.act (.join .acceptor)
  Proc.each (fun i _ => joinSlot i) 0 maxClientCnt ()
  Proc.act .closeListen
  Proc.act .destroyContext

/-- What a thread runs. -/
def Thread.code : Thread → Code Unit
  | .main => runServer
  | .acceptor => serverSockThreadMain
  | .conn _ => serverConnMain

/-- A server that has just begun to listen. -/
def Table.initial : Table where
  serverStop := false
  conns := fun _ => .zero
  fds := fun _ => none
  threads := 0
  ended := fun _ => false
  destroyed := false
  serving := fun _ => none
  pending := none
  naming := none

/-- The threads and their state at that time. -/
def start : Conf Thread Unit Table Act (Unit × Unit) where
  prog t := t.code ()
  time _ := 0
  state := .initial

end KvBench.Server
