import Mathlib

/-!
# Options, buffers and the handshake of `kv_bench.cpp`

The options that the modelled functions read, their validation, the sizes of the registered
buffers on both ends, the size of the lane pool, and the check the two ends make on each other.

Numbers are the C types of the source: `uint64_t` and `uint32_t` are naturals reduced where an
operation can wrap, `int` is an integer.
-/

namespace KvBench.Bench

/-! ### Constants -/

/-- `PAGE_SIZE`. -/
def pageSize : ℕ := 4096

/-- `UINT32_MAX`. -/
def uint32Max : ℕ := 2 ^ 32 - 1

/-- `MAX_JETTY_COUNT`. -/
def maxJettyCount : ℕ := 200

/-- `KV_WR_PER_SEND`. -/
def kvWrPerSend : ℕ := 2

/-- `KV_SENDS_PER_REQ`. -/
def kvSendsPerReq : ℕ := 10

/-- `KV_WR_PER_REQ`. -/
def kvWrPerReq : ℕ := 20

/-- `KV_MAX_CONCURRENCY`, which is also `KV_MAX_WR_SLOTS`. -/
def kvMaxConcurrency : ℕ := 10

/-- `DATA_WINDOW_PER_THREAD`. -/
def dataWindowPerThread : ℕ := 4

/-- `SERVER_DATA_WINDOW`. -/
def serverDataWindow : ℕ := 4

/-- `INVALID_CHIP`. -/
def invalidChip : ℕ := 0xFF

/-! ### Machine words -/

/-- The conversion `(uint64_t)z` of an `int`. -/
def asUInt64 (z : ℤ) : ℕ := (z % 2 ^ 64).toNat

/-- The conversion `(int)x` of a `uint64_t`. -/
def asInt32 (x : ℕ) : ℤ := (x : ℤ).bmod (2 ^ 32)

/-- `a - b` on `uint64_t`. -/
def sub64 (a b : ℕ) : ℕ := (a + (2 ^ 64 - b % 2 ^ 64)) % 2 ^ 64

/-- `ROUND_UP(x, a)` for a power of two `a`. -/
def roundUp (x a : ℕ) : ℕ := (x + a - 1) % 2 ^ 64 / a * a

/-! ### Options -/

/-- `OP_WRITE`, `OP_GET`, `OP_MIXED`. -/
inductive Op where
  | write | get | mixed
  deriving DecidableEq

/-- `AFF_AFFINITY`, `AFF_ANTI`, `AFF_NONE`. -/
inductive AffinityMode where
  | affinity | anti | none
  deriving DecidableEq

/-- The fields of `argument_t` that the modelled functions read. -/
structure Argument where
  devName : Option (List Char)
  devName2 : Option (List Char)
  dualDev : Bool
  transMode : ℕ
  valueSize : ℕ
  sendSize : ℕ
  qps : ℕ
  durationSec : ℕ
  jettyCount : ℕ
  affinityMode : AffinityMode
  threads : ℕ
  concurrency : ℤ
  singleChip : ℤ
  chipWeight : ℕ × ℕ
  op : Op
  mixedRatio : ℕ
  drvExt : Bool
  seed : ℕ
  fixedOffset : Bool
  timeoutMs : ℤ

/-- The device names `strncmp` compares with. -/
def bonding : List Char := ['b', 'o', 'n', 'd', 'i', 'n', 'g']

/-- `validate_input_params`, with the message it prints when it returns `-1`. `op` is an
enumeration here, so it is always in range. -/
def validateInputParams (args : Argument) : Except String Unit :=
  if args.devName = none ∨ args.valueSize = 0 ∨ uint32Max < args.valueSize ∨ args.durationSec = 0 ∨
      args.jettyCount = 0 ∨ maxJettyCount < args.jettyCount then
    .error "Invalid device, value size, duration, or jetty count"
  else if args.sendSize < 2 * pageSize ∨ args.sendSize % 2 = 1 ∨
      args.sendSize / 2 % pageSize ≠ 0 ∨ uint32Max < args.sendSize then
    .error ("Invalid send-size " ++ toString args.sendSize ++
      " (must be >= 8K, even, wr_size page-aligned; e.g. 8M/16M/4M/64K)")
  else if args.op = .get ∧ (args.valueSize < 2 * pageSize ∨
      args.valueSize % (2 * pageSize) ≠ 0 ∨ uint32Max < args.valueSize / 2) then
    .error ("Invalid value-size " ++ toString args.valueSize ++
      " for get (must be >= 8K, 8K-aligned, and <= 8G since it splits into 20 WRs of " ++
      "value_size/2 like write; e.g. 16M/8M/1M/64K)")
  else if args.dualDev ∧ args.devName2 = none then
    .error "dual-dev requires --dev-name2 <second device>"
  else if args.threads = 0 ∨ 512 < args.threads then
    .error ("Invalid thread count " ++ toString args.threads)
  else if args.concurrency < 1 ∨ (kvMaxConcurrency : ℤ) < args.concurrency then
    .error ("Invalid concurrency " ++ toString args.concurrency ++ " (1.." ++
      toString kvMaxConcurrency ++ ")")
  else if args.singleChip < 0 ∨ 2 < args.singleChip then
    .error ("Invalid single-chip " ++ toString args.singleChip ++ " (0=dual chip, 1|2)")
  else if (args.chipWeight.1 + args.chipWeight.2) % 2 ^ 32 = 0 then
    .error ("Invalid --chip-weight " ++ toString args.chipWeight.1 ++ ":" ++
      toString args.chipWeight.2 ++ " (both zero)")
  else if args.singleChip ≠ 0 ∧ (args.chipWeight.1 ≠ 1 ∨ args.chipWeight.2 ≠ 1) then
    .error "--single-chip and --chip-weight are mutually exclusive"
  else if 100 < args.mixedRatio then .error "Invalid mixed ratio"
  else if 3 < args.transMode then .error ("Invalid trans mode " ++ toString args.transMode)
  else if args.devName.any (bonding.isPrefixOf ·) ∧ args.transMode ≠ 0 ∧ args.transMode ≠ 1 then
    .error ("Error: bonding device only supports RM or RC (-m 1), got trans-mode " ++
      toString args.transMode ++ ".")
  else .ok ()

/-- What the data path relies on. -/
structure Accepted (args : Argument) : Prop where
  valueSize_pos : 0 < args.valueSize
  valueSize_lt : args.valueSize < 2 ^ 32
  sendSize_pos : 0 < args.sendSize
  sendSize_lt : args.sendSize < 2 ^ 32
  sendSize_even : args.sendSize % 2 = 0
  valueSize_even : args.op = .get → args.valueSize % 2 = 0
  threads_pos : 0 < args.threads
  threads_le : args.threads ≤ 512
  concurrency_pos : 1 ≤ args.concurrency
  concurrency_le : args.concurrency ≤ 10

/-- A check that passes. -/
theorem check_ok {c : Prop} [Decidable c] {e : String} {rest : Except String Unit}
    (h : (if c then .error e else rest) = .ok ()) : ¬ c ∧ rest = .ok () := by
  by_cases hc : c
  · rw [if_pos hc] at h
    cases h
  · rw [if_neg hc] at h
    exact ⟨hc, h⟩

theorem validateInputParams_accepted {args : Argument} (h : validateInputParams args = .ok ()) :
    Accepted args := by
  unfold validateInputParams at h
  obtain ⟨hvalue, h⟩ := check_ok h
  obtain ⟨hsend, h⟩ := check_ok h
  obtain ⟨hget, h⟩ := check_ok h
  obtain ⟨-, h⟩ := check_ok h
  obtain ⟨hthreads, h⟩ := check_ok h
  obtain ⟨hconc, -⟩ := check_ok h
  clear h
  unfold uint32Max pageSize at *
  unfold kvMaxConcurrency at hconc
  push Not at hvalue hsend hthreads hconc
  refine ⟨by omega, by omega, by omega, by omega, by omega, fun hop => ?_, by omega, by omega,
    by omega, by omega⟩
  have heven : args.valueSize % (2 * 4096) = 0 := by
    by_contra hne
    exact hget ⟨hop, .inr (.inl hne)⟩
  omega

/-! ### Buffers -/

/-- `concurrency` as the pipelines and `create_workers` clamp it. -/
def slotCount (args : Argument) : ℕ :=
  min (if 1 ≤ args.concurrency then args.concurrency.toNat else 1) kvMaxConcurrency

/-- `data_len` of `layout_client_buffer`. -/
def clientDataLen (args : Argument) : ℕ :=
  let windowReqs := if args.op ≠ .mixed ∧ 0 < args.concurrency then args.concurrency.toNat else 1
  match args.op with
  | .write => args.threads * windowReqs * args.sendSize % 2 ^ 64
  | .get => args.threads * windowReqs * args.valueSize * kvSendsPerReq % 2 ^ 64
  | .mixed => args.threads * dataWindowPerThread * args.valueSize % 2 ^ 64

/-- `buf_len` of `layout_client_buffer`. -/
def clientBufLen (args : Argument) : ℕ := roundUp (clientDataLen args) pageSize

/-- `data_len` of `layout_server_buffer`. -/
def serverDataLen (args : Argument) : ℕ :=
  match args.op with
  | .write => kvSendsPerReq * kvMaxConcurrency * args.sendSize % 2 ^ 64
  | .get => kvSendsPerReq * kvMaxConcurrency * args.valueSize % 2 ^ 64
  | .mixed => serverDataWindow * args.valueSize % 2 ^ 64

/-- `buf_len` of `layout_server_buffer`, the length of the segment the server registers. -/
def serverBufLen (args : Argument) : ℕ := roundUp (serverDataLen args) pageSize

/-! ### The lane pool and the handshake -/

/-- `min_lanes` of `run_client`. -/
def minLanes (args : Argument) : ℕ :=
  match args.op with
  | .mixed => args.threads
  | _ =>
    let reqs := if 1 ≤ args.concurrency then args.concurrency.toNat else 1
    max (reqs * kvSendsPerReq) args.threads

/-- The number of jettys `UrmaResource::Init` fills the pool with. -/
def poolSize (args : Argument) : ℕ := max (max args.jettyCount (minLanes args)) 1

/-- The check of `Exchange` on `send_size`: `0` stands for an end that does not say. -/
def exchangeAccepts (localSendSize remoteSendSize : ℕ) : Bool :=
  ¬ (localSendSize ≠ 0 ∧ remoteSendSize ≠ 0 ∧ remoteSendSize ≠ localSendSize)

/-- The handshake passes on both ends. Each sends its `send_size` as a `uint32_t`. -/
def handshake (client server : Argument) : Bool :=
  exchangeAccepts (client.sendSize % 2 ^ 32) (server.sendSize % 2 ^ 32) &&
    exchangeAccepts (server.sendSize % 2 ^ 32) (client.sendSize % 2 ^ 32)

/-- Two ends that pass the handshake agree on `send_size`. -/
theorem sendSize_of_handshake {client server : Argument} (hc : Accepted client)
    (hs : Accepted server) (hh : handshake client server = true) :
    server.sendSize = client.sendSize := by
  have hcpos := hc.sendSize_pos
  have hspos := hs.sendSize_pos
  unfold handshake exchangeAccepts at hh
  rw [Nat.mod_eq_of_lt hc.sendSize_lt, Nat.mod_eq_of_lt hs.sendSize_lt] at hh
  simp only [Bool.and_eq_true, decide_eq_true_eq] at hh
  by_contra hne
  exact hh.1 ⟨by omega, by omega, hne⟩

/-- Options with small buffers. -/
def smallArgs (op : Op) (threads : ℕ) (concurrency : ℤ) : Argument where
  devName := some ['d', 'e', 'v']
  devName2 := none
  dualDev := false
  transMode := 0
  valueSize := 8192
  sendSize := 8192
  qps := 0
  durationSec := 1
  jettyCount := 1
  affinityMode := .affinity
  threads := threads
  concurrency := concurrency
  singleChip := 1
  chipWeight := (1, 1)
  op := op
  mixedRatio := 50
  drvExt := false
  seed := 1
  fixedOffset := false
  timeoutMs := 1000

end KvBench.Bench
