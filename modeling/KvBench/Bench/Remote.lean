import KvBench.Bench.Layout

/-!
# What the client does to the server's memory

The client computes remote addresses from its own options, and from the slot of a request but not
from the worker. Two consequences:

* A work request lies inside the segment of the server when the part that the client's options reach
  fits into the buffer that the server's options provide (`remote_inside_segment`). The handshake
  ensures that only for two ends that both write: it compares `send_size`, but neither `op` nor
  `value_size`.
* Two requests in flight have disjoint targets exactly when their slots differ
  (`requests_disjoint_iff`). Requests of one worker do; those of two workers need not.
-/

namespace KvBench.Bench

open KvBench.Conc KvBench.Events KvBench.Hist KvBench.Words

/-! ### Bounds -/

/-- How far into the segment the work requests of a client reach. In mixed mode the rounds start at the
segment's begin and, unless the offset is fixed, two values behind it; a write takes two values and a
read one. -/
def remoteReach (args : Argument) : ℕ :=
  match args.op with
  | .mixed =>
    ((if args.fixedOffset then 0 else 2) + if 0 < args.mixedRatio then 2 else 1) * args.valueSize
  | _ => slotCount args * (pipelineSize args * kvSendsPerReq)

theorem remoteReach_pipeline {args : Argument} (hop : args.op ≠ .mixed) :
    remoteReach args = slotCount args * (pipelineSize args * kvSendsPerReq) := by
  unfold remoteReach
  split
  · contradiction
  · rfl

/-- The remote range of the work request lies in the segment of `len` bytes at `va`. -/
def Wr.Inside (va len : ℕ) (r : Wr) : Prop := va ≤ r.remoteAddr ∧ r.remoteAddr + r.len ≤ va + len

section Bounds

variable {ctx : Context} {len : ℕ}

theorem Pipe.Posts.inside {p : Pipe} {idx wr : ℕ} {r : Wr} (h : p.Posts ctx idx wr r)
    (hidx : idx < slotCount ctx.args) (hwr : wr < kvWrPerReq) (hpos : 0 < p.size / 2)
    (hva : ctx.remoteSegVa + len ≤ 2 ^ 64)
    (hreach : slotCount ctx.args * (p.size * kvSendsPerReq) ≤ len) :
    r.Inside ctx.remoteSegVa len := by
  have haddr := h.remoteAddr
  have hlen := h.len
  unfold kvWrPerReq at hwr
  unfold kvSendsPerReq at hreach haddr
  unfold kvWrPerSend at haddr
  have hslot : (idx + 1) * (p.size * 10) ≤ slotCount ctx.args * (p.size * 10) :=
    Nat.mul_le_mul_right _ hidx
  rw [Nat.add_mul, Nat.one_mul] at hslot
  have hsend : wr / 2 * p.size ≤ 9 * p.size := Nat.mul_le_mul_right _ (by omega)
  have hhalf : wr % 2 * (p.size / 2) ≤ 1 * (p.size / 2) := Nat.mul_le_mul_right _ (by omega)
  rw [Nat.mod_eq_of_lt (by omega)] at haddr
  have htrunc : p.size / 2 % 2 ^ 32 ≤ p.size / 2 := Nat.mod_le _ _
  unfold Wr.Inside
  omega

/-- The offsets of the synchronous rounds. -/
structure RoundOff (args : Argument) (off : ℕ) : Prop where
  lt : off < offWindow args
  even : 2 * args.valueSize ∣ off
  fixed : args.fixedOffset = true → 4 * args.valueSize ∣ off

/-- Where a round starts in the segment. -/
theorem RoundOff.mod_le {args : Argument} {off : ℕ} (h : RoundOff args off) :
    off % (serverDataWindow * args.valueSize) ≤ (if args.fixedOffset then 0 else 2) * args.valueSize := by
  unfold serverDataWindow
  by_cases hfixed : args.fixedOffset = true
  · rw [Nat.mod_eq_zero_of_dvd (h.fixed hfixed)]
    exact Nat.zero_le _
  · obtain ⟨q, hq⟩ := h.even
    rw [if_neg hfixed, hq, show 4 * args.valueSize = 2 * args.valueSize * 2 by ring,
      Nat.mul_mod_mul_left]
    exact (Nat.mul_le_mul_left _ (Nat.lt_succ_iff.1 (Nat.mod_lt q two_pos))).trans (Nat.mul_one _).le

/-- The second value of a round is behind the first one. -/
theorem RoundOff.mod_second {args : Argument} {off : ℕ} (hpos : 0 < args.valueSize)
    (h : RoundOff args off) : (off + args.valueSize) % (serverDataWindow * args.valueSize) =
      off % (serverDataWindow * args.valueSize) + args.valueSize := by
  unfold serverDataWindow
  obtain ⟨q, hq⟩ := h.even
  have hoff : off % (4 * args.valueSize) = 2 * args.valueSize * (q % 2) := by
    rw [hq, show 4 * args.valueSize = 2 * args.valueSize * 2 by ring, Nat.mul_mod_mul_left]
  have hle : 2 * args.valueSize * (q % 2) ≤ 2 * args.valueSize * 1 :=
    Nat.mul_le_mul_left _ (Nat.lt_succ_iff.1 (Nat.mod_lt q two_pos))
  rw [Nat.add_mod, Nat.mod_eq_of_lt (show args.valueSize < 4 * args.valueSize by omega),
    Nat.mod_eq_of_lt (by rw [hoff]; omega)]

theorem offWindow_eq {args : Argument} (hacc : Accepted args) :
    offWindow args = args.threads * 4 * args.valueSize ∧ offWindow args ≤ 2 ^ 43 := by
  have hthreads := hacc.threads_le
  have hvalue := hacc.valueSize_lt
  have hle : args.threads * 4 * args.valueSize ≤ 512 * 4 * 2 ^ 32 :=
    Nat.mul_le_mul (by omega) (by omega)
  unfold offWindow dataWindowPerThread
  rw [Nat.mod_eq_of_lt (by omega)]
  exact ⟨rfl, by omega⟩

theorem Round.covers_inside {B : Setup} (hacc : Accepted ctx.args)
    (hB : B.good = fun _ r => r.Inside ctx.remoteSegVa len)
    (hva : ctx.remoteSegVa + len ≤ 2 ^ 64) {off : ℕ}
    (hroom : off % (serverDataWindow * ctx.args.valueSize) + ctx.args.valueSize ≤ len) :
    Round.Covers ctx B off := by
  intro half r haddr hlen
  rw [Nat.mod_eq_of_lt hacc.valueSize_lt] at haddr hlen
  have hpos := hacc.valueSize_pos
  rw [Nat.mod_eq_of_lt (by omega)] at haddr
  rw [hB]
  unfold Wr.Inside
  omega

/-- A worker starts at the begin of its window. -/
theorem RoundOff.start {args : Argument} (hacc : Accepted args) {w : ℕ} (hw : w < args.threads) :
    RoundOff args (w * dataWindowPerThread * args.valueSize % 2 ^ 64) := by
  obtain ⟨hwindow, hsmall⟩ := offWindow_eq hacc
  have hpos := hacc.valueSize_pos
  have hstep : (w + 1) * 4 * args.valueSize ≤ args.threads * 4 * args.valueSize :=
    Nat.mul_le_mul_right _ (by omega)
  have hexpand : (w + 1) * 4 * args.valueSize = w * 4 * args.valueSize + 4 * args.valueSize := by ring
  have hfour : 4 * args.valueSize ∣ w * 4 * args.valueSize := ⟨w, by ring⟩
  unfold dataWindowPerThread
  rw [Nat.mod_eq_of_lt (by omega)]
  exact ⟨by omega, (Nat.mul_dvd_mul_right (by decide) _).trans hfour, fun _ => hfour⟩

/-- An offset moves on by two values, around the window. -/
theorem nextOff_even {args : Argument} (hacc : Accepted args) (hop : args.op = .mixed) {off : ℕ}
    (hlt : off < offWindow args) (heven : 2 * args.valueSize ∣ off) :
    (off + roundBytes args) % 2 ^ 64 % offWindow args < offWindow args ∧
      2 * args.valueSize ∣ (off + roundBytes args) % 2 ^ 64 % offWindow args := by
  obtain ⟨hwindow, hsmall⟩ := offWindow_eq hacc
  have hvalue := hacc.valueSize_lt
  have htwo : 2 * args.valueSize ∣ offWindow args := ⟨args.threads * 2, hwindow.trans (by ring)⟩
  rw [roundBytes_mixed hop, Nat.mod_eq_of_lt (show off + 2 * args.valueSize < 2 ^ 64 by omega)]
  refine ⟨Nat.mod_lt _ (by omega), ?_⟩
  exact (Nat.dvd_mod_iff htwo).2 (Nat.dvd_add heven (Nat.dvd_refl _))

theorem RoundOff.next {args : Argument} (hacc : Accepted args) (hop : args.op = .mixed)
    (hmoves : args.fixedOffset = false) {off : ℕ} (h : RoundOff args off) :
    RoundOff args ((off + roundBytes args) % 2 ^ 64 % offWindow args) := by
  obtain ⟨hlt, heven⟩ := nextOff_even hacc hop h.lt h.even
  exact ⟨hlt, heven, fun hfixed => absurd hfixed (by simp [hmoves])⟩

theorem Pipe.inside_fits {p : Pipe} (hacc : Accepted ctx.args) (hop : ctx.args.op ≠ .mixed)
    (hp : p.fatalRc (-1) = true) (hsize : p.size = pipelineSize ctx.args)
    (hva : ctx.remoteSegVa + len ≤ 2 ^ 64) (hreach : remoteReach ctx.args ≤ len) (n lanes N : ℕ) :
    p.Fits (.demanding ctx.args n lanes N fun _ r => r.Inside ctx.remoteSegVa len) ctx := by
  have hpos := (hacc.halves hop).pos
  rw [remoteReach_pipeline hop, ← hsize] at hreach
  rw [← hsize] at hpos
  exact Pipe.demanding_fits hp fun r idx wr _ hidx hwr hr => hr.inside hidx hwr hpos hva hreach

theorem Context.inside_fits (hacc : Accepted ctx.args) {n : ℕ} (hthreads : ctx.args.threads = n)
    (hva : ctx.remoteSegVa + len ≤ 2 ^ 64) (hreach : remoteReach ctx.args ≤ len) (lanes N : ℕ) :
    ctx.Fits (.demanding ctx.args n lanes N fun _ r => r.Inside ctx.remoteSegVa len)
      (RoundOff ctx.args) where
  write hop := by
    refine Pipe.inside_fits hacc (by rw [hop]; decide) rfl ?_ hva hreach n lanes N
    unfold pipelineSize
    rw [hop]
    rfl
  get hop := by
    refine Pipe.inside_fits hacc (by rw [hop]; decide) rfl ?_ hva hreach n lanes N
    unfold pipelineSize
    rw [hop]
    rfl
  mixed hop := by
    unfold remoteReach at hreach
    rw [hop] at hreach
    dsimp only at hreach
    rw [Nat.add_mul] at hreach
    obtain ⟨-, hsmall⟩ := offWindow_eq hacc
    have hvalue := hacc.valueSize_lt
    refine ⟨id, fun w hw => .start hacc (hthreads ▸ hw), fun hmoves off hoff => hoff.next hacc hop hmoves,
      fun hratio off hoff => ?_, fun hratio off hoff => ?_, fun off hoff => ?_⟩
    · have hle := hoff.mod_le
      rw [if_pos hratio] at hreach
      exact Round.covers_inside hacc rfl hva (by omega)
    · have hlt := hoff.lt
      have hle := hoff.mod_le
      have hsecond := hoff.mod_second hacc.valueSize_pos
      rw [if_pos hratio] at hreach
      rw [Nat.mod_eq_of_lt hvalue, Nat.mod_eq_of_lt (by omega)]
      exact Round.covers_inside hacc rfl hva (by omega)
    · have hle := hoff.mod_le
      have hone : ctx.args.valueSize ≤
          (if 0 < ctx.args.mixedRatio then 2 else 1) * ctx.args.valueSize := by
        split <;> omega
      have hwhole : offWindow ctx.args =
          ctx.args.threads * dataWindowPerThread * ctx.args.valueSize % 2 ^ 64 := rfl
      rw [Nat.mod_eq_of_lt hvalue, ← hwhole, Nat.mod_eq_of_lt hoff.lt]
      exact Round.covers_inside hacc rfl hva (by omega)

end Bounds

/-- The handshake makes two ends that both write agree: the segment is large enough. -/
theorem handshake_write {client server : Argument} (hc : Accepted client) (hs : Accepted server)
    (hcop : client.op = .write) (hsop : server.op = .write)
    (hh : handshake client server = true) : remoteReach client ≤ serverBufLen server := by
  have hsize := sendSize_of_handshake hc hs hh
  have hlt := hc.sendSize_lt
  have hslots : slotCount client * (client.sendSize * 10) ≤ 10 * (client.sendSize * 10) :=
    Nat.mul_le_mul_right _ (slotCount_le client)
  have hreach : remoteReach client = slotCount client * (client.sendSize * 10) := by
    rw [remoteReach_pipeline (by rw [hcop]; decide)]
    unfold pipelineSize
    rw [hcop]
    rfl
  have hdata : serverDataLen server = 100 * client.sendSize := by
    unfold serverDataLen
    rw [hsop, hsize]
    show 10 * 10 * client.sendSize % 2 ^ 64 = 100 * client.sendSize
    rw [Nat.mod_eq_of_lt (by omega)]
  unfold serverBufLen roundUp pageSize
  rw [hreach, hdata]
  omega

/-- **Remote accesses stay inside the segment** when the client's options reach no further than the
server's buffer, as they do after the handshake of two ends that both write. -/
theorem remote_inside_segment (ctx : Context) (server : Argument)
    (hargs : validateInputParams ctx.args = .ok ())
    (hva : ctx.remoteSegVa + serverBufLen server ≤ 2 ^ 64)
    (hfits : remoteReach ctx.args ≤ serverBufLen server ∨
      validateInputParams server = .ok () ∧ handshake ctx.args server = true ∧
        ctx.args.op = .write ∧ server.op = .write) (hist : KvHist) {n : ℕ}
    (hthreads : ctx.args.threads = n) (lanes : ℕ)
    {c : Conf (Fin n) Worker Sys Act (Unit × Worker)}
    (hr : Reachable (bench n (fun _ => .any) .free) (client ctx hist n lanes) c) :
    ∀ w, ∀ p ∈ c.state.posted w, p.wr.Inside ctx.remoteSegVa (serverBufLen server) := by
  have hacc := validateInputParams_accepted hargs
  have hreach : remoteReach ctx.args ≤ serverBufLen server := by
    rcases hfits with hreach | ⟨hserver, hhandshake, hop, hop'⟩
    · exact hreach
    · exact handshake_write hacc (validateInputParams_accepted hserver) hop hop' hhandshake
  have hn : n ≤ 1024 := by
    have := hacc.threads_le
    omega
  obtain ⟨N, hinv⟩ :=
    client_inv ctx hist hn lanes (ctx.inside_fits hacc hthreads hva hreach lanes) hr
  exact hinv.good

/-- A server of the same options, and a client that has posted two work requests. -/
def twoPosted : Conf (Fin 1) Worker Sys Act (Unit × Worker) :=
  (client (smallContext .write 1 1) freshHist 1 10).plays (bench 1 (fun _ => .any) .free)
    (steps 0 0 30)

theorem twoPosted_reachable : Reachable (bench 1 (fun _ => .any) .free)
    (client (smallContext .write 1 1) freshHist 1 10) twoPosted :=
  Reachable.of_plays (by decide +kernel)

theorem remote_inside_segment_two : (twoPosted.state.posted 0).length = 2 ∧
    ∀ w, ∀ p ∈ twoPosted.state.posted w,
      p.wr.Inside 0x4000000 (serverBufLen (smallArgs .write 1 1)) := by
  have hva : (smallContext .write 1 1).remoteSegVa + serverBufLen (smallArgs .write 1 1) ≤ 2 ^ 64 := by
    decide
  refine ⟨by decide +kernel, ?_⟩
  exact remote_inside_segment (smallContext .write 1 1) (smallArgs .write 1 1) rfl hva
    (.inr ⟨rfl, by decide, rfl, rfl⟩) freshHist (n := 1) rfl 10 twoPosted_reachable

/-- A server in mixed mode with values of 1 KiB: it registers one page. -/
def smallServer : Argument := { smallArgs .mixed 1 1 with valueSize := 1024 }

/-- The same client passes the handshake with that server, and writes behind its segment. -/
theorem remote_outside_segment : ∃ c,
    validateInputParams (smallArgs .write 1 1) = .ok () ∧ validateInputParams smallServer = .ok () ∧
    handshake (smallArgs .write 1 1) smallServer = true ∧
    Reachable (bench 1 (fun _ => .any) .free) (client (smallContext .write 1 1) freshHist 1 10) c ∧
    ∃ p ∈ c.state.posted 0, ¬ p.wr.Inside 0x4000000 (serverBufLen smallServer) := by
  have hmem : ∃ p ∈ twoPosted.state.posted 0, p.wr.remoteAddr = 0x4001000 ∧ p.wr.len = 4096 := by
    decide +kernel
  obtain ⟨p, hp, haddr, hlen⟩ := hmem
  refine ⟨twoPosted, rfl, rfl, by decide, twoPosted_reachable, p, hp, ?_⟩
  have hserver : serverBufLen smallServer = 4096 := by decide
  rintro ⟨-, hle⟩
  rw [haddr, hlen, hserver] at hle
  omega

/-! ### Collisions -/

/-- The bytes of the segment that a request in the slot `j` writes. -/
def targetOf (ctx : Context) (j : ℕ) : Set ℕ :=
  ⋃ wr ∈ Set.Iio kvWrPerReq,
    rangeAt (remoteAddrOf ctx (pipelineSize ctx.args) j wr) (pipelineSize ctx.args)

/-- The remote bytes of a work request. -/
def Wr.remoteRange (r : Wr) : Set ℕ := Set.Ico r.remoteAddr (r.remoteAddr + r.len)

/-- The request a work request belongs to: the worker, the slot and the number. -/
def Outstanding.owner (r : Outstanding) : ℕ × Option ℕ × ℕ := (r.wid, r.id.req, r.request)

theorem LaidOut.disjoint_targets {ctx : Context} (h : LaidOut ctx) {j j' : ℕ}
    (hj : j < ctx.args.concurrency.toNat) (hj' : j' < ctx.args.concurrency.toNat)
    (hpos : 0 < pipelineSize ctx.args) : Disjoint (targetOf ctx j) (targetOf ctx j') ↔ j ≠ j' := by
  unfold targetOf
  rw [h.cover j hj, h.cover j' hj', Set.disjoint_left]
  constructor
  · rintro hdis rfl
    refine hdis (a := ctx.remoteSegVa + j * 10 * pipelineSize ctx.args) ?_ ?_ <;>
      exact Set.mem_Ico.2 ⟨le_rfl, by rw [Nat.add_mul j, Nat.add_mul]; omega⟩
  · intro hne x hx hx'
    rw [Set.mem_Ico] at hx hx'
    have hstep : ∀ {a b : ℕ}, a < b →
        (a + 1) * 10 * pipelineSize ctx.args ≤ b * 10 * pipelineSize ctx.args :=
      fun hlt => Nat.mul_le_mul_right _ (Nat.mul_le_mul_right 10 hlt)
    rcases Nat.lt_or_gt_of_ne hne with hlt | hlt
    · have := hstep hlt
      omega
    · have := hstep hlt
      omega

theorem Addressed.remote_subset {ctx : Context} {n : ℕ} (hl : LaidOut ctx)
    (hthreads : ctx.args.threads = n) {id : WrId} {r : Wr} (h : Addressed ctx n id r) :
    ∃ j < ctx.args.concurrency.toNat, id.req = some j ∧ r.remoteRange ⊆ targetOf ctx j := by
  obtain ⟨j, wr, rfl, hw, hj, hwr, -, haddr, hlen⟩ := h
  refine ⟨j, hj, rfl, ?_⟩
  have hfits := (hl.fits r.wid (by omega) j hj wr hwr).2
  rw [hfits.eval] at haddr
  rw [hl.whole] at hlen
  have hrange : r.remoteRange =
      rangeAt (remoteAddrOf ctx (pipelineSize ctx.args) j wr) (pipelineSize ctx.args) := by
    unfold Wr.remoteRange rangeAt
    rw [haddr, hlen]
  rw [hrange]
  exact Set.subset_iUnion₂_of_subset wr (Set.mem_Iio.2 hwr) subset_rfl

/-- **Requests in flight collide exactly when they use the same slot.** An outstanding work request
writes into the target of its slot, the targets of two requests are disjoint when their slots differ
and only then, and two requests of one worker are never in the same slot. -/
theorem requests_disjoint_iff (ctx : Context) (hargs : validateInputParams ctx.args = .ok ())
    (hop : ctx.args.op = .write) (hdata : ctx.clientData + clientDataLen ctx.args ≤ 2 ^ 64)
    (hva : ctx.remoteSegVa + serverDataLen ctx.args ≤ 2 ^ 64) (hist : KvHist) {n : ℕ}
    (hthreads : ctx.args.threads = n) (lanes : ℕ)
    {c : Conf (Fin n) Worker Sys Act (Unit × Worker)}
    (hr : Reachable (bench n (fun _ => .any) .free) (client ctx hist n lanes) c)
    {r r' : Outstanding} (hmem : r ∈ c.state.out) (hmem' : r' ∈ c.state.out)
    (hne : r.owner ≠ r'.owner) :
    ∃ j j', r.id.req = some j ∧ r'.id.req = some j' ∧ r.remoteRange ⊆ targetOf ctx j ∧
      r'.remoteRange ⊆ targetOf ctx j' ∧
      (Disjoint (targetOf ctx j) (targetOf ctx j') ↔ j ≠ j') ∧ (r.wid = r'.wid → j ≠ j') := by
  have hacc := validateInputParams_accepted hargs
  have hmixed : ctx.args.op ≠ .mixed := by
    rw [hop]
    decide
  have hh := hacc.halves hmixed
  have hslots : slotCount ctx.args = ctx.args.concurrency.toNat :=
    slotCount_of_concurrency ⟨hh.one_le, hh.le_ten⟩ hh.concurrency
  have hlaid := hh.laidOut hdata hva
  have hn : n ≤ 1024 := by
    have := hacc.threads_le
    omega
  obtain ⟨N, hinv⟩ := client_inv ctx hist hn lanes (ctx.addressed_fits hmixed hslots lanes) hr
  obtain ⟨j, hj, hreq, hsub⟩ := (hinv.outGood r hmem).remote_subset hlaid hthreads
  obtain ⟨j', hj', hreq', hsub'⟩ := (hinv.outGood r' hmem').remote_subset hlaid hthreads
  have hpos := hh.pos
  refine ⟨j, j', hreq, hreq', hsub, hsub', hlaid.disjoint_targets hj hj' (by omega), ?_⟩
  -- a slot has one request under way: all its outstanding work requests carry the last number
  rintro hw rfl
  refine hne ?_
  unfold Outstanding.owner
  rw [hinv.outRequest r hmem, hinv.outRequest r' hmem', hreq, hreq', hw]

/-- One worker with two requests in flight. -/
def twoInFlight : Conf (Fin 1) Worker Sys Act (Unit × Worker) :=
  (client (smallContext .write 1 2) freshHist 1 20).plays (bench 1 (fun _ => .any) .free)
    (steps 0 0 200)

theorem requests_disjoint_iff_alone : ∃ r ∈ twoInFlight.state.out, ∃ r' ∈ twoInFlight.state.out,
    r.owner ≠ r'.owner ∧ Disjoint r.remoteRange r'.remoteRange := by
  obtain ⟨hreach, r, hr, r', hr', hne, hw⟩ := Reachable.of_replay (d := twoInFlight) rfl
    (fun c => ∃ r ∈ c.state.out, ∃ r' ∈ c.state.out, r.owner ≠ r'.owner ∧ r.wid = r'.wid)
    (by decide +kernel)
  have hdata : (smallContext .write 1 2).clientData + clientDataLen (smallArgs .write 1 2) ≤ 2 ^ 64 := by
    decide
  have hva : (smallContext .write 1 2).remoteSegVa + serverDataLen (smallArgs .write 1 2) ≤ 2 ^ 64 := by
    decide
  obtain ⟨j, j', -, -, hsub, hsub', hiff, hdiff⟩ := requests_disjoint_iff (smallContext .write 1 2)
    rfl rfl hdata hva freshHist (n := 1) rfl 20 hreach hr hr' hne
  exact ⟨r, hr, r', hr', hne, (hiff.2 (hdiff hw)).mono hsub hsub'⟩

/-- Two workers, each with the first work requests of its slot `0` in flight. -/
def twoWorkers : Conf (Fin 2) Worker Sys Act (Unit × Worker) :=
  (client (smallContext .write 2 1) freshHist 2 (poolSize (smallArgs .write 2 1))).plays
    (bench 2 (fun _ => .any) .free) sharedRun

/-- Their requests write to the same bytes. -/
theorem requests_collide : ∃ c, validateInputParams (smallArgs .write 2 1) = .ok () ∧
    Reachable (bench 2 (fun _ => .any) .free)
      (client (smallContext .write 2 1) freshHist 2 (poolSize (smallArgs .write 2 1))) c ∧
    ∃ r ∈ c.state.out, ∃ r' ∈ c.state.out,
      r.owner ≠ r'.owner ∧ ¬ Disjoint r.remoteRange r'.remoteRange := by
  obtain ⟨hreach, r, hr, r', hr', hne, haddr, hlen, hlen'⟩ :=
    Reachable.of_replay (d := twoWorkers) rfl
      (fun c => ∃ r ∈ c.state.out, ∃ r' ∈ c.state.out, r.owner ≠ r'.owner ∧
        r.remoteAddr = r'.remoteAddr ∧ 0 < r.len ∧ 0 < r'.len) (by decide +kernel)
  refine ⟨twoWorkers, rfl, hreach, r, hr, r', hr', hne, ?_⟩
  rw [Set.not_disjoint_iff]
  refine ⟨r.remoteAddr, Set.mem_Ico.2 ?_, Set.mem_Ico.2 ?_⟩ <;> omega

end KvBench.Bench
