import KvBench.Bench.Frames
import KvBench.Bench.Remote

/-!
# The offsets of mixed mode

A worker of mixed mode advances its offset by two values a round, modulo a window of four values per
thread. The offset therefore stays a multiple of two values with room for two more (`Aligned`), and
from that every range of a synchronous write or read is inside the buffers of both ends.

The offset belongs to one thread alone, so this is a proof about one thread without any history: what
it owes is alignment at every step, and ranges inside the buffers at a post.
-/

namespace KvBench.Bench

open KvBench.Conc KvBench.Events KvBench.Hist Worker

/-- The `n` bytes at `addr` lie in the `len` bytes at `base`; addresses wrap at 64 bits. -/
def RangeIn (base len addr n : ℕ) : Prop := ∃ o, addr = (base + o) % 2 ^ 64 ∧ o + n ≤ len

/-- A multiple of two values, with room for two values in the window of all threads. -/
def Aligned (args : Argument) (off : ℕ) : Prop :=
  2 * args.valueSize ∣ off ∧ off + 2 * args.valueSize ≤ 4 * args.threads * args.valueSize

/-- Both ranges of the work request are inside: the local one in the client's data, the remote one in
four values. -/
def Wr.InWindows (ctx : Context) (r : Wr) : Prop :=
  RangeIn ctx.clientData (4 * ctx.args.threads * ctx.args.valueSize) r.localAddr r.len ∧
    RangeIn ctx.remoteSegVa (4 * ctx.args.valueSize) r.remoteAddr r.len

/-- What a worker owes before a step. -/
def aligned (ctx : Context) : Private Worker Unit Act where
  step _ _ h := h
  fact _ _ _ _ := True
  duty m _ e := Aligned ctx.args m.off ∧ match e with
    | .post _ r => r.InWindows ctx
    | _ => True

section Offsets

variable {ctx : Context}

/-- The offset is aligned. -/
abbrev OffAligned (ctx : Context) (m : Worker) (_ : Unit) : Prop := Aligned ctx.args m.off

theorem offAligned_framed : Unbooked (aligned ctx) (OffAligned ctx) where
  memory {m m' h} hm hP := by
    have hoff : m'.off = m.off := congrArg Frame.off hm
    show Aligned ctx.args m'.off
    rw [hoff]
    exact hP
  counters _ _ hP := hP
  owed hP := ⟨hP, trivial⟩
  counted hP _ := hP
  duty {β e m h} he hP := by
    refine ⟨hP, ?_⟩
    cases e with
    | post id r => simp [Act.quiet] at he
    | _ => trivial
  step _ hP _ := hP

/-! ### Arithmetic -/

theorem aligned_zero (hacc : Accepted ctx.args) : Aligned ctx.args 0 := by
  have hthreads := hacc.threads_pos
  refine ⟨Nat.dvd_zero _, ?_⟩
  have hle : 4 * 1 * ctx.args.valueSize ≤ 4 * ctx.args.threads * ctx.args.valueSize :=
    Nat.mul_le_mul_right _ (by omega)
  omega

/-- A multiple of `d` that is less than a multiple of `d` leaves room for another `d`. -/
theorem add_le_of_dvd_lt {d x y : ℕ} (hx : d ∣ x) (hy : d ∣ y) (hlt : x < y) : x + d ≤ y := by
  obtain ⟨a, rfl⟩ := hx
  obtain ⟨b, rfl⟩ := hy
  have hab : a + 1 ≤ b := Nat.lt_of_mul_lt_mul_left hlt
  calc d * a + d = d * (a + 1) := by ring
    _ ≤ d * b := Nat.mul_le_mul_left d hab

theorem offWindow_eq_four (hacc : Accepted ctx.args) :
    offWindow ctx.args = 4 * ctx.args.threads * ctx.args.valueSize := by
  rw [(offWindow_eq hacc).1]
  ring

theorem two_values_dvd_window (args : Argument) :
    2 * args.valueSize ∣ 4 * args.threads * args.valueSize :=
  ⟨2 * args.threads, by ring⟩

theorem Aligned.of_even (hacc : Accepted ctx.args) {off : ℕ} (hlt : off < offWindow ctx.args)
    (heven : 2 * ctx.args.valueSize ∣ off) : Aligned ctx.args off := by
  rw [offWindow_eq_four hacc] at hlt
  exact ⟨heven, add_le_of_dvd_lt heven (two_values_dvd_window _) hlt⟩

/-- The worker `w` starts at an aligned offset. -/
theorem aligned_start (hacc : Accepted ctx.args) {w : ℕ} (hw : w < ctx.args.threads) :
    Aligned ctx.args (w * dataWindowPerThread * ctx.args.valueSize % 2 ^ 64) := by
  have hstart := RoundOff.start hacc hw
  exact .of_even hacc hstart.lt hstart.even

/-- A round leads from an aligned offset to an aligned offset. -/
theorem Aligned.next (hacc : Accepted ctx.args) (hop : ctx.args.op = .mixed) {off : ℕ}
    (hoff : Aligned ctx.args off) :
    Aligned ctx.args ((off + roundBytes ctx.args) % 2 ^ 64 % offWindow ctx.args) := by
  have hpos := hacc.valueSize_pos
  have hroom := hoff.2
  have hlt : off < offWindow ctx.args := by
    rw [offWindow_eq_four hacc]
    omega
  obtain ⟨hnext, heven⟩ := nextOff_even hacc hop hlt hoff.1
  exact .of_even hacc hnext heven

/-- The ranges of a synchronous work request at an offset with room for one value. -/
theorem inWindows_of_off (hacc : Accepted ctx.args) {off : ℕ} {r : Wr}
    (hdvd : ctx.args.valueSize ∣ off)
    (hroom : off + ctx.args.valueSize ≤ 4 * ctx.args.threads * ctx.args.valueSize)
    (hlocal : r.localAddr = (ctx.clientData + off) % 2 ^ 64)
    (hremote : r.remoteAddr =
      (ctx.remoteSegVa + off % (serverDataWindow * ctx.args.valueSize)) % 2 ^ 64)
    (hlen : r.len = ctx.args.valueSize) : r.InWindows ctx := by
  refine ⟨⟨off, hlocal, hlen ▸ hroom⟩, ⟨_, hremote, ?_⟩⟩
  have hpos := hacc.valueSize_pos
  have hwindow : ctx.args.valueSize ∣ serverDataWindow * ctx.args.valueSize := Nat.dvd_mul_left _ _
  rw [hlen]
  exact add_le_of_dvd_lt ((Nat.dvd_mod_iff hwindow).2 hdvd) hwindow (Nat.mod_lt _ (by
    unfold serverDataWindow
    omega))

/-! ### The rounds -/

section Rounds

variable (hacc : Accepted ctx.args)
include hacc

theorem postRw_aligned {id : WrId} {read : Bool} {jetty : Lane} {off : ℕ} (src dst : ℤ) (ue : ℕ)
    (hdvd : ctx.args.valueSize ∣ off)
    (hroom : off + ctx.args.valueSize ≤ 4 * ctx.args.threads * ctx.args.valueSize) :
    Quiet (aligned ctx) (OffAligned ctx) (postRw id read (some jetty) (ctx.clientData + off)
      (ctx.remoteSegVa + off % (serverDataWindow * (ctx.args.valueSize % 2 ^ 32)))
      (ctx.args.valueSize % 2 ^ 32) src dst ue) := by
  refine Keeps.act (fun m h hP => ⟨hP, ?_⟩) fun m h r hP _ => hP
  have hvalue := hacc.valueSize_lt
  refine inWindows_of_off hacc hdvd hroom rfl ?_ ?_
  · show (_ + off % (serverDataWindow * (ctx.args.valueSize % 2 ^ 32))) % 2 ^ 64 = _
    rw [Nat.mod_eq_of_lt hvalue]
  · show ctx.args.valueSize % 2 ^ 32 % 2 ^ 32 = _
    rw [Nat.mod_mod, Nat.mod_eq_of_lt hvalue]

theorem postHalf_aligned {half : ℕ} {jetty : Lane} {off : ℕ} (src dst : ℤ) (ue : ℕ)
    (hdvd : ctx.args.valueSize ∣ off)
    (hroom : off + ctx.args.valueSize ≤ 4 * ctx.args.threads * ctx.args.valueSize) :
    Quiet (aligned ctx) (OffAligned ctx) (postHalf ctx half jetty off src dst ue) := by
  have hF : Unbooked (aligned ctx) (OffAligned ctx) := offAligned_framed
  refine Quiet.bind hF.now fun postNs => Quiet.bind hF.now fun t0 => ?_
  refine Quiet.bind (postRw_aligned hacc src dst ue hdvd hroom) fun ok => ?_
  refine Quiet.bind hF.now fun t1 => ?_
  exact hF.update_bind (fun _ => rfl) (Quiet.pure _)

theorem postBoth_aligned (jetty : Lane) (ua tokenA ub tokenB : ℕ) (srcA srcB dst : ℤ) :
    Quiet (aligned ctx) (OffAligned ctx) (postBoth ctx jetty ua tokenA ub tokenB srcA srcB dst) := by
  have hF : Unbooked (aligned ctx) (OffAligned ctx) := offAligned_framed
  refine Spec.get_bind fun m₀ => ?_
  refine Spec.of_fact (p := Aligned ctx.args m₀.off) (fun m h hP => hP.1 ▸ hP.2) fun hoff => ?_
  refine Spec.pre (P := OffAligned ctx) ?_ fun m h hP => hP.2
  have hdvd : ctx.args.valueSize ∣ m₀.off := (Nat.dvd_mul_left _ 2).trans hoff.1
  have hroom := hoff.2
  have hvalue := hacc.valueSize_lt
  have hsmall := (offWindow_eq hacc).2
  rw [offWindow_eq_four hacc] at hsmall
  have hsecond : (m₀.off + ctx.args.valueSize % 2 ^ 32) % 2 ^ 64 = m₀.off + ctx.args.valueSize := by
    rw [Nat.mod_eq_of_lt hvalue, Nat.mod_eq_of_lt (by omega)]
  refine Quiet.bind (postHalf_aligned hacc srcA dst ua hdvd (by omega)) fun r => ?_
  obtain ⟨okA, postA⟩ := r
  refine Spec.ite (fun _ => ?_) fun _ => ?_
  · rw [hsecond]
    refine Quiet.bind (postHalf_aligned hacc srcB dst ub (Nat.dvd_add hdvd (Nat.dvd_refl _))
      (by omega)) fun r => ?_
    obtain ⟨okB, postB⟩ := r
    exact Spec.ite (fun _ => hF.awaitBoth ctx _ _ _ _ _ _ _ _) fun _ => hF.awaitFirst ctx _ _ _ _
  · refine Quiet.bind (hF.say _) fun _ => Quiet.bind (hF.abortEvent _) fun _ => ?_
    refine Quiet.bind (hF.abortEvent _) fun _ => Quiet.bind (hF.releaseSendLane _ _) fun _ => ?_
    exact Quiet.pure _

theorem clientDoWrite_aligned (srcA srcB dst : ℤ) :
    Quiet (aligned ctx) (OffAligned ctx) (clientDoWrite ctx srcA srcB dst) := by
  have hF : Unbooked (aligned ctx) (OffAligned ctx) := offAligned_framed
  refine Quiet.bind (hF.act rfl) fun jetty => ?_
  cases jetty with
  | none => exact Quiet.bind (hF.say _) fun _ => Quiet.pure _
  | some jetty =>
    refine Quiet.bind hF.postEvent fun a => Spec.ite (fun _ => ?_) fun _ => ?_
    · refine Quiet.bind (hF.say _) fun _ => Quiet.bind (hF.releaseSendLane _ _) fun _ => ?_
      exact Quiet.pure _
    refine Quiet.bind hF.postEvent fun b => Spec.ite (fun _ => ?_) fun _ => ?_
    · refine Quiet.bind (hF.say _) fun _ => Quiet.bind (hF.abortEvent _) fun _ => ?_
      exact Quiet.bind (hF.releaseSendLane _ _) fun _ => Quiet.pure _
    exact postBoth_aligned hacc jetty _ _ _ _ srcA srcB dst

theorem readOne_aligned (jetty : Lane) (ue token : ℕ) (src dst : ℤ) :
    Quiet (aligned ctx) (OffAligned ctx) (readOne ctx jetty ue token src dst) := by
  have hF : Unbooked (aligned ctx) (OffAligned ctx) := offAligned_framed
  refine Spec.get_bind fun m₀ => ?_
  refine Spec.of_fact (p := Aligned ctx.args m₀.off) (fun m h hP => hP.1 ▸ hP.2) fun hoff => ?_
  refine Spec.pre (P := OffAligned ctx) ?_ fun m h hP => hP.2
  -- the offset is inside the window already
  have hpos := hacc.valueSize_pos
  have hroom := hoff.2
  have hwindow : ctx.args.threads * dataWindowPerThread * (ctx.args.valueSize % 2 ^ 32) % 2 ^ 64 =
      4 * ctx.args.threads * ctx.args.valueSize := by
    rw [Nat.mod_eq_of_lt hacc.valueSize_lt]
    exact offWindow_eq_four hacc
  have hself : m₀.off % (ctx.args.threads * dataWindowPerThread * (ctx.args.valueSize % 2 ^ 32) %
      2 ^ 64) = m₀.off := by
    rw [hwindow, Nat.mod_eq_of_lt (by omega)]
  dsimp only
  rw [hself]
  have hdvd : ctx.args.valueSize ∣ m₀.off := (Nat.dvd_mul_left _ 2).trans hoff.1
  refine Quiet.bind hF.now fun postNs => ?_
  refine Quiet.bind (postRw_aligned hacc src dst ue hdvd (by omega)) fun ok => ?_
  refine Spec.ite (fun _ => hF.awaitRead ctx jetty token postNs) fun _ => ?_
  refine Quiet.bind (hF.say _) fun _ => Quiet.bind (hF.abortEvent _) fun _ => ?_
  exact Quiet.bind (hF.releaseSendLane _ _) fun _ => Quiet.pure _

theorem clientDoGet_aligned (src dst : ℤ) :
    Quiet (aligned ctx) (OffAligned ctx) (clientDoGet ctx src dst) := by
  have hF : Unbooked (aligned ctx) (OffAligned ctx) := offAligned_framed
  refine Quiet.bind (hF.act rfl) fun jetty => ?_
  cases jetty with
  | none => exact Quiet.bind (hF.say _) fun _ => Quiet.pure _
  | some jetty =>
    refine Quiet.bind hF.postEvent fun a => Spec.ite (fun _ => ?_) fun _ => ?_
    · refine Quiet.bind (hF.say _) fun _ => Quiet.bind (hF.releaseSendLane _ _) fun _ => ?_
      exact Quiet.pure _
    exact readOne_aligned hacc jetty _ _ src dst

theorem roundOp_aligned (srcA srcB dst : ℤ) :
    Quiet (aligned ctx) (OffAligned ctx) (roundOp ctx srcA srcB dst) := by
  refine Spec.ite (fun _ => clientDoGet_aligned hacc _ _) fun _ => ?_
  refine Spec.modify_bind (OffAligned ctx) (fun m h hP => hP) (Quiet.get_bind fun m₀ => ?_)
  exact Spec.ite (fun _ => clientDoWrite_aligned hacc _ _ _) fun _ => clientDoGet_aligned hacc _ _

omit hacc in
theorem chooseRoundChips_aligned :
    Quiet (aligned ctx) (OffAligned ctx) (chooseRoundChips ctx) := by
  refine Spec.get_bind fun m₀ => Spec.set_bind (OffAligned ctx) (fun m h hP => ?_) ?_
  · exact hP.1 ▸ hP.2
  · exact Spec.ite (fun _ => Quiet.pure _) fun _ => Quiet.pure _

theorem timedRound_aligned (hop : ctx.args.op = .mixed) :
    Quiet (aligned ctx) (OffAligned ctx) (timedRound ctx) := by
  have hF : Unbooked (aligned ctx) (OffAligned ctx) := offAligned_framed
  refine Quiet.bind chooseRoundChips_aligned fun chips => Quiet.bind hF.now fun t0 => ?_
  refine Quiet.bind (roundOp_aligned hacc _ _ _) fun rc => Quiet.bind hF.now fun t1 => ?_
  refine Spec.ite (fun _ => ?_) fun _ => Quiet.bind (hF.countError ctx) fun _ => Quiet.pure _
  refine Spec.modify_bind (OffAligned ctx) (fun m h hP => ?_) (Quiet.pure _)
  show Aligned ctx.args (if ctx.args.fixedOffset then m.off
    else (m.off + roundBytes ctx.args) % 2 ^ 64 % offWindow ctx.args)
  split
  · exact hP
  · exact hP.next hacc hop

theorem syncRound_aligned (hop : ctx.args.op = .mixed) (deadline : ℕ) (u : Unit) :
    Quiet (aligned ctx) (OffAligned ctx) (syncRound ctx deadline u) := by
  have hF : Unbooked (aligned ctx) (OffAligned ctx) := offAligned_framed
  have hround := timedRound_aligned hacc hop
  refine Quiet.bind (hF.keepsRunning deadline) fun b => Spec.ite (fun _ => ?_) fun _ => Quiet.pure _
  refine Quiet.bind hF.now fun t => Quiet.get_bind fun m₀ => Spec.ite (fun _ => ?_) fun _ => hround
  exact Quiet.bind (hF.waitUntil _ _) fun _ => hround

theorem clientWorkerMain_aligned (hop : ctx.args.op = .mixed) {w : ℕ} (hw : w < ctx.args.threads) :
    Keeps (aligned ctx) (fun m h => m.id = w ∧ OffAligned ctx m h) (clientWorkerMain ctx)
      fun _ => OffAligned ctx := by
  have hF : Framed (aligned ctx) fun m h => m.id = w ∧ OffAligned ctx m h :=
    { memory := fun hm hP => ⟨(congrArg Frame.id hm).trans hP.1, offAligned_framed.memory hm hP.2⟩
      duty := fun he hP => offAligned_framed.duty he hP.2
      step := fun he hP hr => ⟨hP.1, offAligned_framed.step he hP.2 hr⟩ }
  refine Spec.bind hF.now fun t => Spec.bind hF.now fun t' => ?_
  refine Spec.modify_bind (OffAligned ctx) (fun m h hP => ?_) ?_
  · show Aligned ctx.args (m.id * dataWindowPerThread * ctx.args.valueSize % 2 ^ 64)
    rw [hP.1]
    exact aligned_start hacc hw
  · rw [hop]
    exact Quiet.loop (syncRound_aligned hacc hop _) ()

end Rounds

end Offsets

/-- **The offsets of mixed mode.** In every run the offset of a worker is a multiple of two values
with room for two values in the client's data, and every work request that a worker is about to post
has its local range in the client's data and its remote range in the data of a mixed server with the
same value size. -/
theorem mixed_offsets (ctx : Context) (hargs : validateInputParams ctx.args = .ok ())
    (hop : ctx.args.op = .mixed) (server : Argument) (hserver : server.op = .mixed)
    (hvalue : server.valueSize = ctx.args.valueSize) (hist : KvHist) {n : ℕ}
    (hthreads : ctx.args.threads = n) (lanes : ℕ)
    {c : Conf (Fin n) Worker Sys Act (Unit × Worker)}
    (hr : Reachable (bench n (fun _ => .any) .free) (client ctx hist n lanes) c) :
    clientDataLen ctx.args = 4 * ctx.args.threads * ctx.args.valueSize ∧
    serverDataLen server = 4 * ctx.args.valueSize ∧
    (∀ w m (β : Type) (e : Act β) k, c.prog w = .act m e k →
      2 * ctx.args.valueSize ∣ m.off ∧
        m.off + 2 * ctx.args.valueSize ≤ 4 * ctx.args.threads * ctx.args.valueSize) ∧
    ∀ w m id r k, c.prog w = .act m (.post id r) k →
      RangeIn ctx.clientData (clientDataLen ctx.args) r.localAddr r.len ∧
        RangeIn ctx.remoteSegVa (serverDataLen server) r.remoteAddr r.len := by
  have hacc := validateInputParams_accepted hargs
  have hclient : clientDataLen ctx.args = 4 * ctx.args.threads * ctx.args.valueSize := by
    unfold clientDataLen
    rw [hop]
    exact offWindow_eq_four hacc
  have hdata : serverDataLen server = 4 * ctx.args.valueSize := by
    have hlt := hacc.valueSize_lt
    unfold serverDataLen serverDataWindow
    rw [hserver, hvalue]
    exact Nat.mod_eq_of_lt (by omega)
  have hsafe : c.Safe (aligned ctx) (fun _ _ => ()) fun _ _ _ => True := by
    refine hr.safe (fun w => ?_) ⟨fun _ _ _ _ => rfl, fun _ _ _ _ _ _ => rfl, fun _ _ _ => rfl⟩
      fun _ _ => fun _ _ _ _ _ _ _ => trivial
    have hw : (w : ℕ) < ctx.args.threads := by
      rw [hthreads]
      exact w.2
    exact (aligned ctx).safe.mono ((clientWorkerMain_aligned hacc hop hw).holds
      (createWorker ctx.args hist w) () ⟨rfl, aligned_zero hacc⟩) fun _ _ _ => trivial
  refine ⟨hclient, hdata, fun w m β e k hp => ?_, fun w m id r k hp => ?_⟩
  · have hduty := hsafe w 1
    rw [hp] at hduty
    exact hduty.1.1
  · have hduty := hsafe w 1
    rw [hp] at hduty
    rw [hclient, hdata]
    exact hduty.1.2

/-- A worker in mixed mode that has posted in its first round. -/
def firstRound : Conf (Fin 1) Worker Sys Act (Unit × Worker) :=
  (client (smallContext .mixed 1 1) freshHist 1 1).plays (bench 1 (fun _ => .any) .free)
    (steps 0 0 20)

theorem mixed_offsets_first : firstRound.state.posted 0 ≠ [] ∧
    (∀ w m (β : Type) (e : Act β) k, firstRound.prog w = .act m e k →
      2 * 8192 ∣ m.off ∧ m.off + 2 * 8192 ≤ 4 * 1 * 8192) ∧
    ∀ w m id r k, firstRound.prog w = .act m (.post id r) k →
      RangeIn 0x100000 32768 r.localAddr r.len ∧ RangeIn 0x4000000 32768 r.remoteAddr r.len := by
  obtain ⟨-, -, hoff, hpost⟩ := mixed_offsets (smallContext .mixed 1 1) rfl rfl
    (smallArgs .mixed 1 1) rfl rfl freshHist (n := 1) rfl 1 (c := firstRound)
    (Reachable.of_plays (by decide +kernel))
  exact ⟨by decide +kernel, hoff, hpost⟩

end KvBench.Bench
