import KvBench.Bench.Posts
import KvBench.Words.Expr

/-!
# The addresses of the pipelines

The address expressions of `post_one_req`, `post_one_get` and of the two layout functions, operation
by operation, so that one can say whether an intermediate result wraps. The pipelines post what
these expressions evaluate to (`Posts.localAddr`, `Posts.remoteAddr`).

With `S = 2 * h`, all ranges are cells of length `h`. The work request `wr` of the slot `j` goes to the
cell `j * 20 + wr` of the segment. A read of the worker `id` goes to the cell
`(id * concurrency + j) * 20 + wr` of the client's region; a write comes from one of the two cells of
the slot.
-/

namespace KvBench.Bench

open KvBench.Conc KvBench.Events KvBench.Hist KvBench.Words

/-! ### The expressions of the source -/

section Source

variable (ctx : Context)

/-- `req_bytes`, for sends of the size given. -/
def reqBytes (size : ℕ) : Expr := (size : Expr) * kvSendsPerReq

/-- `(uint64_t)half * wr_size`. -/
def halfOff (size wr : ℕ) : Expr := ((wr % kvWrPerSend : ℕ) : Expr) * (size / 2 : ℕ)

/-- `remote_base + (uint64_t)send_idx * send_size + (uint64_t)half * wr_size`, in both post
functions. -/
def remoteAddrOf (size slotIdx wr : ℕ) : Expr :=
  ((ctx.remoteSegVa : Expr) + slotIdx * reqBytes size) + (wr / kvWrPerSend : ℕ) * (size : Expr) +
    halfOff size wr

/-- The local address in `post_one_req`. -/
def writeAddrOf (slotIdx wr : ℕ) : Expr :=
  (ctx.clientData : Expr) + slotIdx * (ctx.args.sendSize : Expr) + halfOff ctx.args.sendSize wr

/-- `per_thread` of `post_one_get`. -/
def perThread (args : Argument) : Expr :=
  ((if 1 ≤ args.concurrency then args.concurrency.toNat else 1 : ℕ) : Expr) * reqBytes args.valueSize

/-- The local address in `post_one_get`. -/
def readAddrOf (id slotIdx wr : ℕ) : Expr :=
  (ctx.clientData : Expr) + (id * perThread ctx.args + slotIdx * reqBytes ctx.args.valueSize) +
    (wr / kvWrPerSend : ℕ) * (ctx.args.valueSize : Expr) + halfOff ctx.args.valueSize wr

/-- The local address of the pipeline. -/
def localAddrOf (id slotIdx wr : ℕ) : Expr :=
  match ctx.args.op with
  | .get => readAddrOf ctx id slotIdx wr
  | _ => writeAddrOf ctx slotIdx wr

/-- `data_len` of `layout_client_buffer`, for a pipeline. -/
def clientLenOf (args : Argument) : Expr :=
  let windowReqs := if args.op ≠ .mixed ∧ 0 < args.concurrency then args.concurrency.toNat else 1
  match args.op with
  | .get => (args.threads : Expr) * windowReqs * args.valueSize * kvSendsPerReq
  | _ => (args.threads : Expr) * windowReqs * args.sendSize

/-- `data_len` of `layout_server_buffer`, for a pipeline. -/
def serverLenOf (args : Argument) : Expr :=
  (kvSendsPerReq : Expr) * kvMaxConcurrency * pipelineSize args

end Source

/-! ### The machine computes these expressions -/

section Machine

variable {ctx : Context} {idx wr : ℕ} {r : Wr}

theorem clientDataLen_eq {args : Argument} (hop : args.op ≠ .mixed) :
    clientDataLen args = (clientLenOf args).eval 64 := by
  rw [Expr.eval_eq]
  unfold clientDataLen clientLenOf
  rcases hargs : args.op with _ | _ | _
  · rfl
  · rfl
  · exact absurd hargs hop

theorem serverDataLen_eq {args : Argument} (hop : args.op ≠ .mixed) :
    serverDataLen args = (serverLenOf args).eval 64 := by
  rw [Expr.eval_eq]
  unfold serverDataLen serverLenOf pipelineSize
  rcases hargs : args.op with _ | _ | _
  · rfl
  · rfl
  · exact absurd hargs hop

theorem Pipe.Posts.remote_eval {p : Pipe} (h : p.Posts ctx idx wr r) :
    r.remoteAddr = (remoteAddrOf ctx p.size idx wr).eval 64 := by
  rw [h.remoteAddr, Expr.eval_eq]
  rfl

theorem Pipe.Posts.write_eval (h : (writePipe ctx.args).Posts ctx idx wr r) :
    r.localAddr = (writeAddrOf ctx idx wr).eval 64 := by
  rw [h.localAddr, Expr.eval_eq]
  rfl

theorem Pipe.Posts.read_eval (h : (getPipe ctx.args).Posts ctx idx wr r) :
    r.localAddr = (readAddrOf ctx r.wid idx wr).eval 64 := by
  rw [h.localAddr, Expr.eval_eq]
  unfold getPipe readAddrOf perThread reqBytes halfOff
  simp only [Expr.value_add, Expr.value_mul, Expr.value_word, Nat.add_assoc]

/-- The work request named `id` is as the expressions say. -/
def Addressed (ctx : Context) (n : ℕ) (id : WrId) (r : Wr) : Prop :=
  ∃ idx wr, id = .slot idx wr ∧ r.wid < n ∧ idx < ctx.args.concurrency.toNat ∧ wr < kvWrPerReq ∧
    r.localAddr = (localAddrOf ctx r.wid idx wr).eval 64 ∧
    r.remoteAddr = (remoteAddrOf ctx (pipelineSize ctx.args) idx wr).eval 64 ∧
    r.len = pipelineSize ctx.args / 2 % 2 ^ 32

theorem Context.addressed_fits {n : ℕ} (hop : ctx.args.op ≠ .mixed)
    (hslots : slotCount ctx.args = ctx.args.concurrency.toNat) (lanes N : ℕ) :
    ctx.Fits (.demanding ctx.args n lanes N (Addressed ctx n)) fun _ => True where
  write h := by
    refine Pipe.demanding_fits rfl fun r idx wr hw hidx hwr hp =>
      ⟨idx, wr, rfl, hw, hslots ▸ hidx, hwr, ?_⟩
    unfold localAddrOf pipelineSize
    rw [h]
    exact ⟨hp.write_eval, hp.remote_eval, hp.len⟩
  get h := by
    refine Pipe.demanding_fits rfl fun r idx wr hw hidx hwr hp =>
      ⟨idx, wr, rfl, hw, hslots ▸ hidx, hwr, ?_⟩
    unfold localAddrOf pipelineSize
    rw [h]
    exact ⟨hp.read_eval, hp.remote_eval, hp.len⟩
  mixed h := absurd h hop

end Machine

/-! ### Cells -/

/-- The bytes of a work request at `addr`, for sends of the size given. -/
def rangeAt (addr : Expr) (size : ℕ) : Set ℕ := Set.Ico addr.value (addr.value + size / 2)

/-- The options of a pipeline, in the numbers that count: halves of `h` bytes, `c` slots. -/
structure Halves (args : Argument) (h c : ℕ) : Prop where
  op : args.op ≠ .mixed
  size : pipelineSize args = 2 * h
  pos : 0 < h
  small : h < 2 ^ 31
  concurrency : args.concurrency = c
  one_le : 1 ≤ c
  le_ten : c ≤ 10
  threads : args.threads ≤ 512
  some_thread : 0 < args.threads

theorem Accepted.halves {args : Argument} (h : Accepted args) (hop : args.op ≠ .mixed) :
    Halves args (pipelineSize args / 2) args.concurrency.toNat := by
  have hconc := h.concurrency_pos
  have hten := h.concurrency_le
  refine ⟨hop, ?_, ?_, ?_, by omega, by omega, by omega, h.threads_le, h.threads_pos⟩
  all_goals
    have h1 := h.sendSize_pos
    have h2 := h.sendSize_lt
    have h3 := h.sendSize_even
    have h4 := h.valueSize_pos
    have h5 := h.valueSize_lt
    have h6 := h.valueSize_even
    unfold pipelineSize
    rcases hargs : args.op with _ | _ | _
    · dsimp only
      omega
    · have := h6 hargs
      dsimp only
      omega
    · exact absurd hargs hop

section Cells

variable {ctx : Context} {h c id slotIdx wr : ℕ}

theorem remote_value (hh : Halves ctx.args h c) (slotIdx wr : ℕ) :
    (remoteAddrOf ctx (pipelineSize ctx.args) slotIdx wr).value =
      ctx.remoteSegVa + (slotIdx * 20 + wr) * h := by
  obtain ⟨q, r, hq, hr, rfl⟩ : ∃ q r, wr / 2 = q ∧ wr % 2 = r ∧ wr = 2 * q + r :=
    ⟨_, _, rfl, rfl, by omega⟩
  unfold remoteAddrOf reqBytes halfOff kvWrPerSend kvSendsPerReq
  simp only [Expr.value_add, Expr.value_mul, Expr.value_word, hq, hr, hh.size]
  rw [Nat.mul_div_cancel_left h (by norm_num)]
  ring

/-- The cell of the client's region that belongs to a work request. -/
def localCell (args : Argument) (c id slotIdx wr : ℕ) : ℕ :=
  match args.op with
  | .get => (id * c + slotIdx) * 20 + wr
  | _ => slotIdx * 2 + wr % 2

theorem local_value (hh : Halves ctx.args h c) (id slotIdx wr : ℕ) :
    (localAddrOf ctx id slotIdx wr).value =
      ctx.clientData + localCell ctx.args c id slotIdx wr * h := by
  obtain ⟨q, r, hq, hr, rfl⟩ : ∃ q r, wr / 2 = q ∧ wr % 2 = r ∧ wr = 2 * q + r :=
    ⟨_, _, rfl, rfl, by omega⟩
  have hsize := hh.size
  have hwrite : (writeAddrOf ctx slotIdx (2 * q + r)).value =
      ctx.clientData + slotIdx * ctx.args.sendSize + r * (ctx.args.sendSize / 2) := by
    unfold writeAddrOf halfOff kvWrPerSend
    simp only [Expr.value_add, Expr.value_mul, Expr.value_word, hr]
  unfold localAddrOf localCell
  unfold pipelineSize at hsize
  rcases hop : ctx.args.op with _ | _ | _
  · rw [hop] at hsize
    dsimp only at hsize ⊢
    rw [hwrite, hsize, Nat.mul_div_cancel_left h (by norm_num), hr]
    ring
  · rw [hop] at hsize
    dsimp only at hsize ⊢
    unfold readAddrOf perThread reqBytes halfOff kvWrPerSend kvSendsPerReq
    simp only [Expr.value_add, Expr.value_mul, Expr.value_word, hq, hr, hsize]
    have hone := hh.one_le
    rw [Nat.mul_div_cancel_left h (by norm_num), hh.concurrency, if_pos (by omega),
      Int.toNat_natCast]
    ring
  · exact absurd hop hh.op

theorem remote_range (hh : Halves ctx.args h c) (slotIdx wr : ℕ) :
    rangeAt (remoteAddrOf ctx (pipelineSize ctx.args) slotIdx wr) (pipelineSize ctx.args) =
      cell ctx.remoteSegVa h (slotIdx * 20 + wr) := by
  unfold rangeAt cell
  rw [remote_value hh, hh.size, Nat.mul_div_cancel_left h (by norm_num)]

theorem local_range (hh : Halves ctx.args h c) (id slotIdx wr : ℕ) :
    rangeAt (localAddrOf ctx id slotIdx wr) (pipelineSize ctx.args) =
      cell ctx.clientData h (localCell ctx.args c id slotIdx wr) := by
  unfold rangeAt cell
  rw [local_value hh, hh.size, Nat.mul_div_cancel_left h (by norm_num)]

/-! ### The regions -/

/-- The number of cells of the client's region. -/
def localCells (args : Argument) (c : ℕ) : ℕ :=
  match args.op with
  | .get => args.threads * c * 20
  | _ => args.threads * c * 2

theorem localCell_lt (args : Argument) (hid : id < args.threads) (hslot : slotIdx < c)
    (hwr : wr < kvWrPerReq) : localCell args c id slotIdx wr < localCells args c := by
  have hstep : (id + 1) * c ≤ args.threads * c := Nat.mul_le_mul_right c hid
  rw [Nat.add_mul, Nat.one_mul] at hstep
  unfold kvWrPerReq at hwr
  unfold localCell localCells
  rcases args.op with _ | _ | _
  all_goals
    dsimp only
    omega

/-- Different reads go to different cells. -/
theorem localCell_inj {args : Argument} (hop : args.op = .get) {id' slotIdx' wr' : ℕ}
    (hslot : slotIdx < c) (hslot' : slotIdx' < c) (hwr : wr < kvWrPerReq) (hwr' : wr' < kvWrPerReq)
    (heq : localCell args c id slotIdx wr = localCell args c id' slotIdx' wr') :
    id = id' ∧ slotIdx = slotIdx' ∧ wr = wr' := by
  unfold kvWrPerReq at hwr hwr'
  unfold localCell at heq
  rw [hop] at heq
  dsimp only at heq
  have hrow : id * c + slotIdx = id' * c + slotIdx' := by omega
  have hid : id = id' := by
    have h1 : (id * c + slotIdx) / c = id := by
      rw [Nat.mul_comm, Nat.mul_add_div (by omega), Nat.div_eq_of_lt hslot, Nat.add_zero]
    have h2 : (id' * c + slotIdx') / c = id' := by
      rw [Nat.mul_comm, Nat.mul_add_div (by omega), Nat.div_eq_of_lt hslot', Nat.add_zero]
    rw [← h1, hrow, h2]
  subst hid
  omega

theorem clientLenOf_spec {args : Argument} (hh : Halves args h c) :
    (clientLenOf args).Fits 64 ∧ (clientLenOf args).value = localCells args c * h ∧
      (clientLenOf args).value < 2 ^ 63 := by
  have hsize := hh.size
  have hsmall := hh.small
  have hone := hh.one_le
  have hten := hh.le_ten
  have hthreads := hh.threads
  have hprod : args.threads * c ≤ 512 * 10 := Nat.mul_le_mul hthreads hten
  have hbytes : args.threads * c * (2 * h) ≤ 512 * 10 * (2 * 2 ^ 31) :=
    Nat.mul_le_mul hprod (by omega)
  have hwindow : (if args.op ≠ .mixed ∧ 0 < args.concurrency then args.concurrency.toNat
      else 1) = c := by
    have hconc := hh.concurrency
    rw [if_pos ⟨hh.op, by omega⟩, hconc, Int.toNat_natCast]
  unfold clientLenOf localCells
  rw [hwindow]
  unfold pipelineSize at hsize
  rcases hop : args.op with _ | _ | _
  · rw [hop] at hsize
    dsimp only at hsize ⊢
    have hfits : ((args.threads : Expr) * c * args.sendSize).Fits 64 := by
      refine .mul (.mul ?_ ?_ ?_) ?_ ?_ <;>
        simp only [Expr.fits_word, Expr.value_mul, Expr.value_word, hsize]
      all_goals omega
    refine ⟨hfits, ?_, ?_⟩ <;> simp only [Expr.value_mul, Expr.value_word, hsize]
    · ring
    · omega
  · rw [hop] at hsize
    dsimp only at hsize ⊢
    have hfits : ((args.threads : Expr) * c * args.valueSize * kvSendsPerReq).Fits 64 := by
      refine .mul (.mul (.mul ?_ ?_ ?_) ?_ ?_) ?_ ?_ <;>
        simp only [Expr.fits_word, Expr.value_mul, Expr.value_word, hsize, kvSendsPerReq]
      all_goals omega
    refine ⟨hfits, ?_, ?_⟩ <;> simp only [Expr.value_mul, Expr.value_word, hsize, kvSendsPerReq]
    · ring
    · omega
  · exact absurd hop hh.op

theorem serverLenOf_spec {args : Argument} (hh : Halves args h c) :
    (serverLenOf args).Fits 64 ∧ (serverLenOf args).value = 200 * h := by
  have hsmall := hh.small
  unfold serverLenOf
  rw [hh.size]
  constructor
  · refine .mul (.mul ?_ ?_ ?_) ?_ ?_ <;>
      simp only [Expr.fits_word, Expr.value_mul, Expr.value_word, kvSendsPerReq, kvMaxConcurrency]
    all_goals omega
  · simp only [Expr.value_mul, Expr.value_word, kvSendsPerReq, kvMaxConcurrency]
    ring

/-! ### No intermediate result wraps -/

theorem remote_fits (hh : Halves ctx.args h c) (hva : ctx.remoteSegVa + 200 * h ≤ 2 ^ 64)
    (hslot : slotIdx < c) (hwr : wr < kvWrPerReq) :
    (remoteAddrOf ctx (pipelineSize ctx.args) slotIdx wr).Fits 64 := by
  have hten := hh.le_ten
  have hpos := hh.pos
  have hsmall := hh.small
  have hsize := hh.size
  unfold kvWrPerReq at hwr
  have hcell : (slotIdx * 20 + wr + 1) * h ≤ 200 * h := Nat.mul_le_mul_right h (by omega)
  rw [Nat.add_mul, Nat.one_mul] at hcell
  -- all partial sums are bounded by the address itself
  have htotal := remote_value hh slotIdx wr
  unfold remoteAddrOf reqBytes halfOff kvSendsPerReq kvWrPerSend at htotal ⊢
  simp only [Expr.value_add, Expr.value_mul, Expr.value_word] at htotal
  refine .add (.add (.add ?_ (.mul ?_ (.mul ?_ ?_ ?_) ?_) ?_) (.mul ?_ ?_ ?_) ?_) (.mul ?_ ?_ ?_) ?_
    <;> simp only [Expr.fits_word, Expr.value_add, Expr.value_mul, Expr.value_word]
  all_goals omega

theorem local_fits (hh : Halves ctx.args h c)
    (hdata : ctx.clientData + localCells ctx.args c * h ≤ 2 ^ 64) (hid : id < ctx.args.threads)
    (hslot : slotIdx < c) (hwr : wr < kvWrPerReq) : (localAddrOf ctx id slotIdx wr).Fits 64 := by
  have hone := hh.one_le
  have hten := hh.le_ten
  have hpos := hh.pos
  have hsmall := hh.small
  have hsize := hh.size
  have hthreads := hh.threads
  have hcell : (localCell ctx.args c id slotIdx wr + 1) * h ≤ localCells ctx.args c * h :=
    Nat.mul_le_mul_right h (localCell_lt ctx.args hid hslot hwr)
  rw [Nat.add_mul, Nat.one_mul] at hcell
  have htotal := local_value hh id slotIdx wr
  unfold kvWrPerReq at hwr
  unfold localAddrOf at htotal ⊢
  unfold pipelineSize at hsize
  rcases hop : ctx.args.op with _ | _ | _
  · rw [hop] at htotal hsize
    dsimp only at htotal hsize ⊢
    unfold writeAddrOf halfOff kvWrPerSend at htotal ⊢
    simp only [Expr.value_add, Expr.value_mul, Expr.value_word] at htotal
    refine .add (.add ?_ (.mul ?_ ?_ ?_) ?_) (.mul ?_ ?_ ?_) ?_ <;>
      simp only [Expr.fits_word, Expr.value_add, Expr.value_mul, Expr.value_word]
    all_goals omega
  · rw [hop] at htotal hsize
    dsimp only at htotal hsize ⊢
    have hper : c * (ctx.args.valueSize * 10) ≤ 10 * (2 ^ 32 * 10) :=
      Nat.mul_le_mul hten (by omega)
    have hwindow : (if 1 ≤ ctx.args.concurrency then ctx.args.concurrency.toNat else 1) = c := by
      rw [hh.concurrency, if_pos (by omega), Int.toNat_natCast]
    unfold readAddrOf perThread reqBytes halfOff kvSendsPerReq kvWrPerSend at htotal ⊢
    rw [hwindow] at htotal ⊢
    simp only [Expr.value_add, Expr.value_mul, Expr.value_word] at htotal
    refine .add (.add (.add ?_ (.add (.mul ?_ (.mul ?_ (.mul ?_ ?_ ?_) ?_) ?_)
      (.mul ?_ (.mul ?_ ?_ ?_) ?_) ?_) ?_) (.mul ?_ ?_ ?_) ?_) (.mul ?_ ?_ ?_) ?_ <;>
      simp only [Expr.fits_word, Expr.value_add, Expr.value_mul, Expr.value_word]
    all_goals omega
  · exact absurd hop hh.op

end Cells

/-! ### The layout -/

/-- What is to be said about the addresses of a pipeline. -/
structure LaidOut (ctx : Context) : Prop where
  /-- No intermediate result of an address or of a buffer size wraps. -/
  fits : ∀ id < ctx.args.threads, ∀ j < ctx.args.concurrency.toNat, ∀ wr < kvWrPerReq,
    (localAddrOf ctx id j wr).Fits 64 ∧
      (remoteAddrOf ctx (pipelineSize ctx.args) j wr).Fits 64
  lens : ((clientLenOf ctx.args) + pageSize).Fits 64 ∧ ((serverLenOf ctx.args) + pageSize).Fits 64
  /-- The cast of the length to `uint32_t` loses nothing. -/
  whole : pipelineSize ctx.args / 2 % 2 ^ 32 = pipelineSize ctx.args / 2
  /-- The remote ranges of a slot make up its part of the segment, without overlap. -/
  cover : ∀ j < ctx.args.concurrency.toNat,
    ⋃ wr ∈ Set.Iio kvWrPerReq,
        rangeAt (remoteAddrOf ctx (pipelineSize ctx.args) j wr) (pipelineSize ctx.args) =
      Set.Ico (ctx.remoteSegVa + j * 10 * pipelineSize ctx.args)
        (ctx.remoteSegVa + (j + 1) * 10 * pipelineSize ctx.args)
  apart : ∀ j wr wr', wr ≠ wr' →
    Disjoint (rangeAt (remoteAddrOf ctx (pipelineSize ctx.args) j wr) (pipelineSize ctx.args))
      (rangeAt (remoteAddrOf ctx (pipelineSize ctx.args) j wr') (pipelineSize ctx.args))
  remote : ∀ j < ctx.args.concurrency.toNat, ∀ wr < kvWrPerReq,
    rangeAt (remoteAddrOf ctx (pipelineSize ctx.args) j wr) (pipelineSize ctx.args) ⊆
      Set.Ico ctx.remoteSegVa (ctx.remoteSegVa + serverDataLen ctx.args)
  near : ∀ id < ctx.args.threads, ∀ j < ctx.args.concurrency.toNat, ∀ wr < kvWrPerReq,
    rangeAt (localAddrOf ctx id j wr) (pipelineSize ctx.args) ⊆
      Set.Ico ctx.clientData (ctx.clientData + clientDataLen ctx.args)
  /-- No two reads, of whatever workers and slots, go to the same bytes. -/
  reads : ctx.args.op = .get → ∀ id id', ∀ j < ctx.args.concurrency.toNat,
    ∀ j' < ctx.args.concurrency.toNat, ∀ wr < kvWrPerReq, ∀ wr' < kvWrPerReq,
    (id, j, wr) ≠ (id', j', wr') →
    Disjoint (rangeAt (localAddrOf ctx id j wr) (pipelineSize ctx.args))
      (rangeAt (localAddrOf ctx id' j' wr') (pipelineSize ctx.args))

theorem Halves.laidOut {ctx : Context} {h c : ℕ} (hh : Halves ctx.args h c)
    (hdata : ctx.clientData + clientDataLen ctx.args ≤ 2 ^ 64)
    (hva : ctx.remoteSegVa + serverDataLen ctx.args ≤ 2 ^ 64) : LaidOut ctx := by
  have hconc : ctx.args.concurrency.toNat = c := by
    rw [hh.concurrency, Int.toNat_natCast]
  obtain ⟨hcf, hcv, hclt⟩ := clientLenOf_spec hh
  obtain ⟨hsf, hsv⟩ := serverLenOf_spec hh
  have hclient : clientDataLen ctx.args = localCells ctx.args c * h := by
    rw [clientDataLen_eq hh.op, hcf.eval, hcv]
  have hserver : serverDataLen ctx.args = 200 * h := by
    rw [serverDataLen_eq hh.op, hsf.eval, hsv]
  have hsmall := hh.small
  have hten := hh.le_ten
  rw [hclient] at hdata
  rw [hserver] at hva
  constructor
  case fits =>
    intro id hid j hj wr hwr
    rw [hconc] at hj
    exact ⟨local_fits hh hdata hid hj hwr, remote_fits hh hva hj hwr⟩
  case lens =>
    unfold pageSize
    refine ⟨.add hcf ?_ ?_, .add hsf ?_ ?_⟩ <;> simp only [Expr.fits_word, Expr.value_word]
    all_goals omega
  case whole =>
    have := hh.size
    exact Nat.mod_eq_of_lt (by omega)
  case cover =>
    intro j _
    simp only [remote_range hh]
    rw [iUnion_cell hh.pos, hh.size]
    unfold kvWrPerReq
    congr 1 <;> ring
  case apart =>
    intro j wr wr' hne
    rw [remote_range hh, remote_range hh]
    exact disjoint_cell _ _ (by omega)
  case remote =>
    intro j hj wr hwr
    rw [hconc] at hj
    unfold kvWrPerReq at hwr
    rw [remote_range hh, hserver]
    exact cell_subset (n := 200) (by omega) le_rfl
  case near =>
    intro id hid j hj wr hwr
    rw [hconc] at hj
    rw [local_range hh, hclient]
    exact cell_subset (localCell_lt ctx.args hid hj hwr) le_rfl
  case reads =>
    intro hop id id' j hj j' hj' wr hwr wr' hwr' hne
    rw [hconc] at hj hj'
    rw [local_range hh, local_range hh]
    refine disjoint_cell _ _ fun heq => hne ?_
    obtain ⟨rfl, rfl, rfl⟩ := localCell_inj hop hj hj' hwr hwr' heq
    rfl

/-- **Address layout of the pipelines**: for accepted options, all work requests that any run posts
have the addresses and the length of the source's expressions, and these are laid out as they should
be. A worker posts its requests one after the other, each with the numbers from `0` to `19` once and in
one slot; only the last one may be incomplete. -/
theorem pipeline_layout (ctx : Context) (hargs : validateInputParams ctx.args = .ok ())
    (hop : ctx.args.op ≠ .mixed) (hdata : ctx.clientData + clientDataLen ctx.args ≤ 2 ^ 64)
    (hva : ctx.remoteSegVa + serverDataLen ctx.args ≤ 2 ^ 64) :
    LaidOut ctx ∧ ∀ (hist : KvHist) (n lanes : ℕ), ctx.args.threads = n →
      ∀ c : Conf (Fin n) Worker Sys Act (Unit × Worker),
        Reachable (bench n (fun _ => .any) .free) (client ctx hist n lanes) c →
        ∀ w : Fin n, (∀ p ∈ c.state.posted w, Addressed ctx n p.id p.wr) ∧
          ∃ slot : ℕ → ℕ, ∀ k (p : Posted), (c.state.posted w).reverse[k]? = some p →
            p.id = .slot (slot (k / kvWrPerReq)) (k % kvWrPerReq) := by
  have hacc := validateInputParams_accepted hargs
  have hh := hacc.halves hop
  have hslots : slotCount ctx.args = ctx.args.concurrency.toNat :=
    slotCount_of_concurrency ⟨hh.one_le, hh.le_ten⟩ hh.concurrency
  refine ⟨hh.laidOut hdata hva, ?_⟩
  intro hist n lanes hthreads c hr w
  have hn : n ≤ 1024 := by
    have := hacc.threads_le
    omega
  obtain ⟨N, hinv⟩ := client_inv ctx hist hn lanes (ctx.addressed_fits hop hslots lanes) hr
  obtain ⟨slot, hslot⟩ := posts_ordered hop hr w
  exact ⟨fun p hp => hinv.good w p hp, slot, fun k p hk => (hslot k p hk).1⟩

/-- Of two threads, the first has posted a whole request of reads of 8 KiB. -/
def oneRequest : Conf (Fin 2) Worker Sys Act (Unit × Worker) :=
  (client (smallContext .get 2 3) freshHist 2 10).plays (bench 2 (fun _ => .any) .free) (steps 0 0 130)

theorem pipeline_layout_small : LaidOut (smallContext .get 2 3) ∧
    (oneRequest.state.posted (0 : Fin 2)).length = kvWrPerReq ∧
    (∀ p ∈ oneRequest.state.posted (0 : Fin 2), Addressed (smallContext .get 2 3) 2 p.id p.wr) ∧
    ∃ slot : ℕ → ℕ, ∀ k (p : Posted), (oneRequest.state.posted (0 : Fin 2)).reverse[k]? = some p →
      p.id = .slot (slot (k / kvWrPerReq)) (k % kvWrPerReq) := by
  obtain ⟨hr, hlen⟩ := Reachable.of_replay (d := oneRequest) rfl
    (fun c => (c.state.posted (0 : Fin 2)).length = kvWrPerReq) (by decide +kernel)
  obtain ⟨hlaid, hposts⟩ :=
    pipeline_layout (smallContext .get 2 3) rfl (by decide) (by decide) (by decide)
  exact ⟨hlaid, hlen, hposts freshHist 2 10 rfl oneRequest hr 0⟩

end KvBench.Bench
