import KvBench.Bench.Clients
import KvBench.Dual.Worker

/-!
# Where the dual workers write

The offset of a worker is at any time a multiple of `round_bytes` inside the window. The window is
the client's own buffer, so local accesses are in bounds. The server sizes its segment by its own
number of threads: remote accesses are in bounds in all runs exactly when the client does not have more
threads than the server. The handshake transmits the number of threads but does not compare it.
-/

namespace KvBench.Dual

open KvBench.Bench KvBench.Conc KvBench.Hist

/-! ### Histories -/

/-- The rounds and the calls of `PostWrite` of a worker, the last first. -/
structure History where
  rounds : List ℕ
  posts : List (ℕ × Wr)

/-- How a step is recorded. -/
def History.add {β : Type} : Act β → History → History
  | .round off, h => { h with rounds := off :: h.rounds }
  | .postWrite port wr, h => { h with posts := (port, wr) :: h.posts }
  | _, h => h

/-- The four ranges of a round at `off` lie in buffers of the lengths given. -/
def RoundIn (args : Argument) (len off : ℕ) : Prop :=
  ∀ p < dualPorts, off + p * wrSize args + wrSize args ≤ len

/-- The work request lies in the client's buffer and in the segment behind its port. -/
def PostIn (ctx : DualContext) (server : Argument) (port : ℕ) (wr : Wr) : Prop :=
  (ctx.clientData ≤ wr.localAddr ∧ wr.localAddr + wr.len ≤ ctx.clientData + bufLen ctx.args) ∧
    ctx.remoteSegVa port ≤ wr.remoteAddr ∧
    wr.remoteAddr + wr.len ≤ ctx.remoteSegVa port + bufLen server

/-- Every round is in bounds, and so is what it posts. -/
def inBounds (ctx : DualContext) (server : Argument) : Private DualWorker History Act where
  step e _ h := h.add e
  fact _ _ _ _ := True
  duty {_} _ _ e :=
    match e with
    | .round off => RoundIn ctx.args (bufLen ctx.args) off ∧ RoundIn ctx.args (bufLen server) off
    | .postWrite port wr => PostIn ctx server port wr
    | _ => True

/-! ### Sizes -/

section Sizes

variable {args server : Argument}

theorem roundBytes_eq (h : Accepted args) :
    roundBytes args = 4 * wrSize args ∧ 0 < wrSize args ∧ wrSize args < 2 ^ 31 := by
  have hpos := h.sendSize_pos
  have hlt := h.sendSize_lt
  have heven := h.sendSize_even
  unfold roundBytes wrSize dualPorts
  omega

theorem window_eq (h : Accepted args) :
    window args = args.threads * roundBytes args ∧ window args ≤ 2 ^ 42 := by
  obtain ⟨hround, -, hsmall⟩ := roundBytes_eq h
  have hle : args.threads * roundBytes args ≤ 512 * 2 ^ 33 :=
    Nat.mul_le_mul h.threads_le (by omega)
  unfold window
  rw [Nat.mod_eq_of_lt (by omega)]
  exact ⟨rfl, by omega⟩

theorem window_le_bufLen (h : Accepted args) : window args ≤ bufLen args := by
  have hsmall := (window_eq h).2
  unfold bufLen roundUp pageSize
  omega

/-- The work requests are whole pages, so the buffer is the window. -/
theorem bufLen_eq_window (h : validateInputParams args = .ok ()) : bufLen args = window args := by
  have hacc := validateInputParams_accepted h
  have hpage : wrSize args % 4096 = 0 := by
    unfold validateInputParams at h
    obtain ⟨-, h⟩ := check_ok h
    obtain ⟨hsend, -⟩ := check_ok h
    push Not at hsend
    exact hsend.2.2.1
  obtain ⟨hwindow, hsmall⟩ := window_eq hacc
  have hround := (roundBytes_eq hacc).1
  obtain ⟨q, hq⟩ : 4096 ∣ window args := by
    rw [hwindow, hround]
    exact Dvd.dvd.mul_left (Dvd.dvd.mul_left (Nat.dvd_of_mod_eq_zero hpage) 4) _
  unfold bufLen roundUp pageSize
  omega

theorem roundBytes_congr (hsize : server.sendSize = args.sendSize) :
    roundBytes server = roundBytes args := by
  unfold roundBytes wrSize
  rw [hsize]

/-- With the same `send_size`, more threads have a larger window. -/
theorem window_mono (h : Accepted args) (hs : Accepted server)
    (hsize : server.sendSize = args.sendSize) (hthreads : args.threads ≤ server.threads) :
    window args ≤ window server := by
  rw [(window_eq h).1, (window_eq hs).1, roundBytes_congr hsize]
  exact Nat.mul_le_mul_right _ hthreads

/-- The offsets of a worker. -/
def OffIn (args : Argument) (off : ℕ) : Prop := ∃ k < args.threads, off = k * roundBytes args

theorem OffIn.room (h : Accepted args) {off : ℕ} (hoff : OffIn args off) :
    off + roundBytes args ≤ window args := by
  obtain ⟨k, hk, rfl⟩ := hoff
  rw [(window_eq h).1, ← Nat.succ_mul]
  exact Nat.mul_le_mul_right _ hk

theorem OffIn.next (h : Accepted args) {off : ℕ} (hoff : OffIn args off) :
    OffIn args ((off + roundBytes args) % 2 ^ 64 % window args) := by
  have hroom := hoff.room h
  obtain ⟨hwindow, hsmall⟩ := window_eq h
  obtain ⟨k, hk, rfl⟩ := hoff
  have hfits : (k * roundBytes args + roundBytes args) % 2 ^ 64 = (k + 1) * roundBytes args := by
    rw [Nat.mod_eq_of_lt (by omega), Nat.succ_mul]
  rw [hfits, hwindow, Nat.mul_mod_mul_right]
  exact ⟨_, Nat.mod_lt _ h.threads_pos, rfl⟩

theorem OffIn.start (h : Accepted args) {i : ℕ} (hi : i < args.threads) :
    OffIn args (i * roundBytes args % 2 ^ 64) := by
  have hoff : OffIn args (i * roundBytes args) := ⟨i, hi, rfl⟩
  have hroom := hoff.room h
  have hsmall := (window_eq h).2
  rwa [Nat.mod_eq_of_lt (by omega)]

theorem OffIn.roundIn (h : Accepted args) {off len : ℕ} (hoff : OffIn args off)
    (hlen : window args ≤ len) : RoundIn args len off := by
  intro p hp
  have hroom := hoff.room h
  have hround := (roundBytes_eq h).1
  unfold dualPorts at hp
  have hport : p * wrSize args ≤ 3 * wrSize args := Nat.mul_le_mul_right _ (by omega)
  omega

end Sizes

/-! ### The worker -/

section Worker

variable {ctx : DualContext} {server : Argument} {off : ℕ}

/-- What is assumed of the client and the server. -/
structure Placed (ctx : DualContext) (server : Argument) : Prop where
  accepted : Accepted ctx.args
  segment : window ctx.args ≤ bufLen server
  client : ctx.clientData + bufLen ctx.args ≤ 2 ^ 64
  server : ∀ port, ctx.remoteSegVa port + bufLen server ≤ 2 ^ 64

/-- A step that is not recorded and owes nothing. -/
theorem keeps_quiet {β : Type} {e : Act β} {P : DualWorker → Prop}
    (hduty : ∀ m h, (inBounds ctx server).duty m h e) :
    Keeps (inBounds ctx server) (fun m _ => P m) (Proc.act e) (fun _ m _ => P m) :=
  Keeps.act (fun m h _ => hduty m h) fun _ _ _ hP _ => hP

theorem keepsRunning_keeps {P : DualWorker → Prop} (deadline : ℕ) :
    Keeps (inBounds ctx server) (fun m _ => P m) (keepsRunning deadline) (fun _ m _ => P m) := by
  unfold keepsRunning
  refine Spec.bind (keeps_quiet fun _ _ => trivial) fun stop => Spec.ite (fun _ => ?_) fun _ => ?_
  · exact Spec.pure fun _ _ h => h
  refine Spec.bind (keeps_quiet fun _ _ => trivial) fun fatal => Spec.ite (fun _ => ?_) fun _ => ?_
  · exact Spec.pure fun _ _ h => h
  exact Spec.bind (keeps_quiet fun _ _ => trivial) fun t => Spec.pure fun _ _ h => h

theorem postIn_of_offIn (hp : Placed ctx server) (hoff : OffIn ctx.args off) {port : ℕ}
    (hport : port < dualPorts) {wr : Wr}
    (hlocal : wr.localAddr = (ctx.clientData + off + port * wrSize ctx.args) % 2 ^ 64)
    (hremote : wr.remoteAddr = (ctx.remoteSegVa port + off + port * wrSize ctx.args) % 2 ^ 64)
    (hlen : wr.len = wrSize ctx.args % 2 ^ 32) : PostIn ctx server port wr := by
  have hclient := hoff.roundIn hp.accepted (window_le_bufLen hp.accepted) port hport
  have hserver := hoff.roundIn hp.accepted hp.segment port hport
  have hva := hp.client
  have hseg := hp.server port
  obtain ⟨-, hpos, hsmall⟩ := roundBytes_eq hp.accepted
  rw [Nat.mod_eq_of_lt (by omega)] at hlocal hremote hlen
  unfold PostIn
  omega

theorem postPort_keeps (hp : Placed ctx server) (hoff : OffIn ctx.args off) {port : ℕ}
    (hport : port < dualPorts) :
    Keeps (inBounds ctx server) (fun m _ => m.off = off) (postPort ctx off port)
      (fun _ m _ => m.off = off) := by
  unfold postPort
  refine Spec.bind (keeps_quiet fun _ _ => trivial) fun lane => ?_
  cases lane with
  | none => exact Spec.pure fun _ _ h => h
  | some lane =>
    refine Spec.get_bind fun m₀ => ?_
    refine Spec.bind (Spec.pre (keeps_quiet fun _ _ => trivial) fun m h hm => hm.2) fun ⟨ue, token⟩ => ?_
    refine Spec.modify_bind (fun m _ => m.off = off) (fun _ _ h => h) ?_
    refine Spec.ite (fun _ => ?_) fun _ => ?_
    · exact Spec.bind (keeps_quiet fun _ _ => trivial) fun _ => Spec.pure fun _ _ h => h
    refine Spec.bind (keeps_quiet fun _ _ => trivial) fun t0 => ?_
    refine Spec.bind (Q := fun _ m _ => m.off = off) (Keeps.act (fun m h _ => ?_)
      fun m h r hm _ => hm) fun ok => ?_
    · exact postIn_of_offIn hp hoff hport rfl rfl rfl
    refine Spec.bind (keeps_quiet fun _ _ => trivial) fun t1 => ?_
    refine Spec.modify_bind (fun m _ => m.off = off) (fun _ _ h => h) ?_
    refine Spec.ite (fun _ => ?_) fun _ => ?_
    · exact Spec.modify_bind (fun m _ => m.off = off) (fun _ _ h => h) (Spec.pure fun _ _ h => h)
    · refine Spec.get_bind fun m₀ => ?_
      refine Spec.bind (Spec.pre (keeps_quiet fun _ _ => trivial) fun m h hm => hm.2) fun _ => ?_
      exact Spec.bind (keeps_quiet fun _ _ => trivial) fun _ => Spec.pure fun _ _ h => h

theorem postPorts_keeps (hp : Placed ctx server) (hoff : OffIn ctx.args off) :
    Keeps (inBounds ctx server) (fun m _ => m.off = off)
      (Proc.search (postPort ctx off) 0 dualPorts) (fun _ m _ => m.off = off) := by
  refine (Spec.search (fun _ (m : DualWorker) _ => m.off = off) (fun _ m _ => m.off = off)
    fun port _ hport => (postPort_keeps hp hoff (by omega)).post ?_).post ?_
  · intro r m h hm
    cases r <;> exact hm
  · intro r m h hm
    cases r <;> exact hm

theorem waitPort_keeps (port : ℕ) (ok : Bool) :
    Keeps (inBounds ctx server) (fun m _ => m.off = off) (waitPort ctx port ok)
      (fun _ m _ => m.off = off) := by
  unfold waitPort
  refine Spec.get_bind fun m₀ => ?_
  refine Spec.bind (Spec.pre (keeps_quiet fun _ _ => trivial) fun m h hm => hm.2) fun done => ?_
  have hend : Keeps (inBounds ctx server) (fun m _ => m.off = off)
      (modify (fun m => { m with jetty := Function.update m.jetty port none }) >>=
        fun _ => pure (if done then ok else false)) (fun _ m _ => m.off = off) :=
    Spec.modify_bind (fun m _ => m.off = off) (fun _ _ h => h) (Spec.pure fun _ _ h => h)
  refine Spec.ite (fun _ => ?_) fun _ => hend
  exact Spec.bind (keeps_quiet fun _ _ => trivial) fun _ => hend

theorem dualRound_keeps (hp : Placed ctx server) (deadline : ℕ) :
    Keeps (inBounds ctx server) (fun m _ => OffIn ctx.args m.off) (dualRound ctx deadline ())
      (Sum.elim (fun _ m _ => OffIn ctx.args m.off) fun _ _ _ => True) := by
  unfold dualRound
  refine Spec.bind (keepsRunning_keeps deadline) fun runs => Spec.ite (fun _ => ?_) fun _ => ?_
  swap
  · exact Spec.pure fun _ _ _ => trivial
  refine Spec.bind (keeps_quiet fun _ _ => trivial) fun t0 => Spec.get_bind fun m₀ => ?_
  refine Spec.of_fact (p := OffIn ctx.args m₀.off) (fun m h hm => hm.1 ▸ hm.2) fun hoff => ?_
  refine Spec.bind (Q := fun _ m _ => m.off = m₀.off) (Keeps.act (fun m h _ => ?_)
    fun m h r hm _ => by rw [hm.1]) fun _ => ?_
  · exact ⟨hoff.roundIn hp.accepted (window_le_bufLen hp.accepted),
      hoff.roundIn hp.accepted hp.segment⟩
  refine Spec.bind (postPorts_keeps hp hoff) fun left => ?_
  refine Spec.bind (Spec.each (fun _ _ (m : DualWorker) _ => m.off = m₀.off)
    (fun port ok _ _ => waitPort_keeps port ok) _) fun ok => Spec.ite (fun _ => ?_) fun _ => ?_
  · refine Spec.bind (keeps_quiet fun _ _ => trivial) fun t1 => ?_
    refine Spec.modify_bind (fun m _ => OffIn ctx.args m.off) (fun m h hm => ?_) ?_
    · rw [show m.off = m₀.off from hm]
      exact hoff.next hp.accepted
    · exact Spec.pure fun _ _ hm => hm
  · refine Spec.modify_bind (fun m _ => m.off = m₀.off) (fun _ _ h => h) ?_
    refine Spec.bind (keeps_quiet fun _ _ => trivial) fun fatal => ?_
    refine Spec.ite (fun _ => Spec.pure fun _ _ _ => trivial) fun _ => ?_
    exact Spec.bind (keeps_quiet fun _ _ => trivial) fun _ => Spec.pure fun _ _ _ => trivial

theorem register_keeps (port : ℕ) :
    Keeps (inBounds ctx server) (fun m _ => OffIn ctx.args m.off) (register port)
      (fun _ m _ => OffIn ctx.args m.off) := by
  unfold register
  refine Spec.bind (keeps_quiet fun _ _ => trivial) fun wid => ?_
  cases wid with
  | none => exact Spec.pure fun _ _ h => h
  | some wid =>
    exact Spec.modify_bind (fun m _ => OffIn ctx.args m.off) (fun _ _ h => h)
      (Spec.pure fun _ _ h => h)

theorem registers_keeps :
    Keeps (inBounds ctx server) (fun m _ => OffIn ctx.args m.off)
      (Proc.search register 0 dualPorts) (fun _ m _ => OffIn ctx.args m.off) := by
  refine (Spec.search (fun _ (m : DualWorker) _ => OffIn ctx.args m.off)
    (fun _ m _ => OffIn ctx.args m.off) fun port _ _ => (register_keeps port).post ?_).post ?_
  · intro r m h hm
    cases r <;> exact hm
  · intro r m h hm
    cases r <;> exact hm

theorem dualWorkerMain_keeps (hp : Placed ctx server) :
    Keeps (inBounds ctx server) (fun m _ => OffIn ctx.args m.off) (dualWorkerMain ctx)
      (fun _ _ _ => True) := by
  unfold dualWorkerMain
  refine Spec.bind (keeps_quiet fun _ _ => trivial) fun t => ?_
  refine Spec.bind registers_keeps fun failed => ?_
  cases failed with
  | some _ => exact Spec.pure fun _ _ _ => trivial
  | none =>
    exact Spec.loop (fun _ (m : DualWorker) _ => OffIn ctx.args m.off)
      (fun _ => dualRound_keeps hp _) ()

end Worker

/-! ### All runs -/

section Runs

variable {n : ℕ}

/-- The history of the worker `i`. -/
def log (i : Fin n) (s : Run) : History := ⟨s.rounds i, s.posts i⟩

theorem log_recorded (ctx : DualContext) (server : Argument) :
    Recorded (inBounds ctx server) (dual n) log where
  own i o e s := by
    cases e with
    | round off =>
      show (⟨Function.update s.rounds i _ i, s.posts i⟩ : History) = _
      rw [Function.update_self]
      rfl
    | postWrite port wr =>
      show (⟨s.rounds i, Function.update s.posts i _ i⟩ : History) = _
      rw [Function.update_self]
      rfl
    | _ => rfl
  other i j o e s hj := by
    have hne : (j : ℕ) ≠ i := fun h => hj (Fin.ext h)
    cases e with
    | round off =>
      show (⟨Function.update s.rounds i _ j, s.posts j⟩ : History) = _
      rw [Function.update_of_ne hne]
      rfl
    | postWrite port wr =>
      show (⟨s.rounds j, Function.update s.posts i _ j⟩ : History) = _
      rw [Function.update_of_ne hne]
      rfl
    | _ => rfl
  env i e := e.elim

/-- Everything recorded is in bounds. -/
structure History.Within (ctx : DualContext) (server : Argument) (h : History) : Prop where
  rounds : ∀ off ∈ h.rounds,
    RoundIn ctx.args (bufLen ctx.args) off ∧ RoundIn ctx.args (bufLen server) off
  posts : ∀ x ∈ h.posts, PostIn ctx server x.1 x.2

theorem History.Within.add {ctx : DualContext} {server : Argument} {h : History} {β : Type}
    {m : DualWorker} {e : Act β} (hh : h.Within ctx server)
    (hduty : (inBounds ctx server).duty m h e) : (h.add e).Within ctx server := by
  cases e with
  | round off =>
    refine ⟨fun off' hoff' => ?_, hh.posts⟩
    rcases List.mem_cons.1 hoff' with rfl | hmem
    · exact hduty
    · exact hh.rounds off' hmem
  | postWrite port wr =>
    refine ⟨hh.rounds, fun x hx => ?_⟩
    rcases List.mem_cons.1 hx with rfl | hmem
    · exact hduty
    · exact hh.posts x hmem
  | _ => exact hh

theorem dualClient_safe {ctx : DualContext} {server : Argument} (hp : Placed ctx server)
    (hist : KvHist) (hn : ctx.args.threads = n) :
    (dualClient ctx hist n).Safe (inBounds ctx server) log fun _ _ _ => True := by
  intro i
  refine (dualWorkerMain_keeps hp).holds (createDualWorker ctx.args hist i) _ ?_
  exact OffIn.start hp.accepted (by omega)

/-- Everything that a client with no more threads than the server does is in bounds. -/
theorem dualClient_within {ctx : DualContext} {server : Argument} (hp : Placed ctx server)
    (hist : KvHist) (hn : ctx.args.threads = n) {c : Conf (Fin n) DualWorker Run Act (Unit × DualWorker)}
    (hr : Reachable (dual n) (dualClient ctx hist n) c) (i : Fin n) :
    (log i c.state).Within ctx server := by
  refine hr.history (dualClient_safe hp hist hn) (log_recorded ctx server)
    (fun _ _ _ _ _ _ _ _ _ _ => trivial) (G := fun h => h.Within ctx server)
    (fun m h e r hduty _ hh => hh.add hduty) (fun _ => ⟨?_, ?_⟩) i
  · exact fun off hoff => absurd hoff List.not_mem_nil
  · exact fun x hx => absurd hx List.not_mem_nil

/-! ### The first round -/

/-- The managers grant everything, and the clock shows `t`. -/
def granting (t : ℕ) : Oracle := ⟨some 0, some 0, (1, 1), true, false, t⟩

/-- A worker whose time is not over begins a round. -/
theorem round_canReach {ctx : DualContext} {i : Fin n}
    {c₀ : Conf (Fin n) DualWorker Run Act (Unit × DualWorker)} {left : ℕ} {m : DualWorker} {s : Run}
    (hs : s.fatal = false)
    (h : c₀.CanReach (dual n) i (Proc.loop (dualRound ctx (left + 1)) () m) s) :
    ∃ c, Reachable (dual n) c₀ c ∧ c.state.rounds i = m.off :: s.rounds i := by
  obtain ⟨fatal, rounds, posts⟩ := s
  obtain rfl : fatal = false := hs
  have hstop := (h.loop (granting 0)).act (granting 0) fun _ => trivial
  have hfatal := hstop.act (granting 0) fun _ => trivial
  have hclock := hfatal.act (granting 0) fun _ => trivial
  have hnow := hclock.act (granting 0) fun _ => trivial
  obtain ⟨c, hr, -, hstate⟩ := hnow.act (granting 0) fun _ => trivial
  refine ⟨c, hr, ?_⟩
  rw [hstate]
  exact Function.update_self _ _ _

/-- A deadline that is not over on a clock that stands still, unless the duration wraps to zero. -/
theorem exists_time_left (d : ℕ) : ∃ t left, (t + d) % 2 ^ 64 = left + 1 := by
  by_cases h0 : d % 2 ^ 64 = 0
  · exact ⟨1, 0, by omega⟩
  · exact ⟨0, d % 2 ^ 64 - 1, by omega⟩

/-- Every worker can begin a round at its first offset. -/
theorem exists_first_round (ctx : DualContext) (hist : KvHist) (i : Fin n) :
    ∃ c, Reachable (dual n) (dualClient ctx hist n) c ∧
      c.state.rounds i = [i * roundBytes ctx.args % 2 ^ 64] := by
  obtain ⟨t, left, ht⟩ := exists_time_left (ctx.args.durationSec * 1000000000)
  have hstart := Conf.CanReach.start (dual n) (dualClient ctx hist n) i
  have hnow := hstart.act (granting t) fun _ => trivial
  have hport0 := hnow.act (granting 0) fun _ => trivial
  have hport1 := hport0.act (granting 0) fun _ => trivial
  have hport2 := hport1.act (granting 0) fun _ => trivial
  have hport3 := hport2.act (granting 0) fun _ => trivial
  have hloop : (dualClient ctx hist n).CanReach (dual n) i
    (Proc.loop (dualRound ctx ((t + ctx.args.durationSec * 1000000000) % 2 ^ 64)) () _) _ := hport3
  rw [ht] at hloop
  exact round_canReach rfl hloop

/-- **The rounds stay in bounds** in every run, and with them the local and the remote range of every
work request that is posted, exactly when the client does not have more threads than the server: the
worker number `server.threads` starts at the end of the server's segment. -/
theorem dual_rounds_in_bounds (ctx : DualContext) (server : Argument)
    (hargs : validateInputParams ctx.args = .ok ()) (hserver : validateInputParams server = .ok ())
    (hhandshake : handshake ctx.args server = true)
    (hva : ctx.clientData + bufLen ctx.args ≤ 2 ^ 64)
    (hseg : ∀ port, ctx.remoteSegVa port + bufLen server ≤ 2 ^ 64) (hist : KvHist)
    (hn : ctx.args.threads = n) :
    (∀ c, Reachable (dual n) (dualClient ctx hist n) c → ∀ i : Fin n,
      (∀ off ∈ c.state.rounds i, ∀ p < dualPorts,
        off + (p + 1) * wrSize ctx.args ≤ bufLen ctx.args ∧
        off + (p + 1) * wrSize ctx.args ≤ bufLen server) ∧
      ∀ x ∈ c.state.posts i, PostIn ctx server x.1 x.2) ↔ ctx.args.threads ≤ server.threads := by
  have hacc := validateInputParams_accepted hargs
  have hacc' := validateInputParams_accepted hserver
  have hsize := sendSize_of_handshake hacc hacc' hhandshake
  constructor
  · intro hall
    by_contra hmore
    obtain ⟨c, hr, hrounds⟩ := exists_first_round ctx hist (⟨server.threads, by omega⟩ : Fin n)
    have hfirst := ((hall c hr _).1 _ (hrounds ▸ List.mem_singleton_self _) 0 (by decide)).2
    obtain ⟨hwindow, hsmall⟩ := window_eq hacc'
    rw [roundBytes_congr hsize] at hwindow
    have hpos := (roundBytes_eq hacc).2.1
    rw [bufLen_eq_window hserver] at hfirst
    dsimp only at hfirst
    rw [← hwindow, Nat.mod_eq_of_lt (by omega)] at hfirst
    omega
  · intro hthreads c hr i
    have hp : Placed ctx server :=
      ⟨hacc, (window_mono hacc hacc' hsize hthreads).trans (window_le_bufLen hacc'), hva, hseg⟩
    have hwithin := dualClient_within hp hist hn hr i
    refine ⟨fun off hoff p hport => ?_, hwithin.posts⟩
    obtain ⟨hclient, hremote⟩ := hwithin.rounds off hoff
    have h₁ := hclient p hport
    have h₂ := hremote p hport
    rw [Nat.succ_mul, ← Nat.add_assoc]
    exact ⟨h₁, h₂⟩

end Runs

/-! ### Two threads against one -/

instance (n : ℕ) : (dual n).Effective where
  allowed _ _ _ _ _ _ := inferInstanceAs (Decidable True)
  env := fun x => x.elim

/-- A small accepted set of options with two devices. -/
def dualArgs (threads : ℕ) : Argument :=
  { smallArgs .write threads 1 with dualDev := true, devName2 := some ['d', 'e', 'w'] }

def dualContext (threads : ℕ) : DualContext := ⟨dualArgs threads, 0x100000, fun _ => 0x4000000⟩

/-- Both workers have registered, and each has posted the work requests of its first round. -/
def firstRounds : Conf (Fin 2) DualWorker Run Act (Unit × DualWorker) :=
  (dualClient (dualContext 2) freshHist 2).plays (dual 2)
    (List.replicate 31 (.thread 0 ⟨some 0, some 0, (1, 1), true, false, 0⟩) ++
      List.replicate 31 (.thread 1 ⟨some 1, some 1, (1, 1), true, false, 0⟩))

theorem firstRounds_reachable :
    Reachable (dual 2) (dualClient (dualContext 2) freshHist 2) firstRounds :=
  Reachable.of_plays (by decide +kernel)

theorem dual_rounds_in_bounds_two :
    (firstRounds.state.rounds 1 = [16384] ∧ (firstRounds.state.posts 1).length = 4) ∧
    ∀ i : Fin 2, (∀ off ∈ firstRounds.state.rounds i, ∀ p < dualPorts,
      off + (p + 1) * wrSize (dualArgs 2) ≤ bufLen (dualArgs 2) ∧
      off + (p + 1) * wrSize (dualArgs 2) ≤ bufLen (dualArgs 2)) ∧
    ∀ x ∈ firstRounds.state.posts i, PostIn (dualContext 2) (dualArgs 2) x.1 x.2 := by
  have hva : (dualContext 2).clientData + bufLen (dualArgs 2) ≤ 2 ^ 64 := by decide
  have hseg : ∀ port, (dualContext 2).remoteSegVa port + bufLen (dualArgs 2) ≤ 2 ^ 64 := by
    intro port
    show 0x4000000 + bufLen (dualArgs 2) ≤ 2 ^ 64
    decide
  refine ⟨by decide +kernel, fun i => ?_⟩
  exact (dual_rounds_in_bounds (dualContext 2) (dualArgs 2) rfl rfl (by decide) hva hseg freshHist
    (n := 2) rfl).2 le_rfl firstRounds firstRounds_reachable i

/-- A server with one thread passes the handshake with that client. Its segment ends where the
second worker begins. -/
theorem dual_round_out_of_bounds : ∃ c,
    validateInputParams (dualArgs 2) = .ok () ∧ validateInputParams (dualArgs 1) = .ok () ∧
    handshake (dualArgs 2) (dualArgs 1) = true ∧
    Reachable (dual 2) (dualClient (dualContext 2) freshHist 2) c ∧
    ∃ off ∈ c.state.rounds 1, ∀ p < dualPorts,
      bufLen (dualArgs 1) < off + (p + 1) * wrSize (dualArgs 2) := by
  refine ⟨firstRounds, rfl, rfl, by decide, firstRounds_reachable, 16384, by decide +kernel, ?_⟩
  decide

end KvBench.Dual
