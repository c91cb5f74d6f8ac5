import KvBench.Bench.Args
import KvBench.Conc.Logic
import KvBench.Words.Bytes

/-!
# The handshake (`urma_manager.cpp`)

The two ends of a TCP connection make a number of `Exchange` calls each: one normally, one for each
port in dual-device mode. In each, an end writes its `WireInfo` and reads that of the other end, with
nothing in between that would mark where a record ends.

TCP is a stream for each direction: a `read` takes some of the bytes that have been written and not
been read yet, at least one and at most as many as asked for. It may as well be interrupted, fail, or
find the connection closed, and a `write` may stop short. The step `checked` stands for no code; it
records the verdict of the check on `send_size` with the record it is about.

The call fails before the exchange when the buffer has not been registered; all callers register it.
-/

namespace KvBench.Handshake

open KvBench.Bench KvBench.Conc KvBench.Words

/-! ### Records -/

/-- `WireInfo`, packed. The types of `eid` and `jetty_id` are liburma's; they have `E` and `J` bytes.
The reserved words are zero. -/
structure WireInfo (E J : ℕ) where
  eid : BitVec (8 * E)
  uasid : BitVec 32
  segVa : BitVec 64
  segLen : BitVec 64
  segFlag : BitVec 32
  segTokenId : BitVec 32
  jettyId : BitVec (8 * J)
  threads : BitVec 32
  opCode : BitVec 32
  valueSize : BitVec 32
  dstChip : BitVec 32
  sendSize : BitVec 32
  deriving DecidableEq

/-- The widths of the members in bytes. -/
def widths (E J : ℕ) : List ℕ := [E, 4, 8, 8, 4, 4, J, 4, 4, 4, 4, 4, 4, 4]

/-- `sizeof(WireInfo)`. -/
def wireSize (E J : ℕ) : ℕ := E + J + 56

section Records

variable {E J : ℕ}

/-- The members with their widths. -/
def WireInfo.fields (w : WireInfo E J) : List (ℕ × ℕ) :=
  [(E, w.eid.toNat), (4, w.uasid.toNat), (8, w.segVa.toNat), (8, w.segLen.toNat),
    (4, w.segFlag.toNat), (4, w.segTokenId.toNat), (J, w.jettyId.toNat), (4, w.threads.toNat),
    (4, w.opCode.toNat), (4, w.valueSize.toNat), (4, w.dstChip.toNat), (4, w.sendSize.toNat),
    (4, 0), (4, 0)]

/-- The bytes of the record in memory. -/
def WireInfo.bytes (w : WireInfo E J) : List Byte := pack w.fields

/-- The record that the bytes in memory are. -/
def WireInfo.ofBytes (E J : ℕ) (l : List Byte) : WireInfo E J :=
  let v := unpack (widths E J) l
  { eid := BitVec.ofNat _ (v.getD 0 0)
    uasid := BitVec.ofNat _ (v.getD 1 0)
    segVa := BitVec.ofNat _ (v.getD 2 0)
    segLen := BitVec.ofNat _ (v.getD 3 0)
    segFlag := BitVec.ofNat _ (v.getD 4 0)
    segTokenId := BitVec.ofNat _ (v.getD 5 0)
    jettyId := BitVec.ofNat _ (v.getD 6 0)
    threads := BitVec.ofNat _ (v.getD 7 0)
    opCode := BitVec.ofNat _ (v.getD 8 0)
    valueSize := BitVec.ofNat _ (v.getD 9 0)
    dstChip := BitVec.ofNat _ (v.getD 10 0)
    sendSize := BitVec.ofNat _ (v.getD 11 0) }

theorem length_bytes (w : WireInfo E J) : w.bytes.length = wireSize E J := by
  unfold WireInfo.bytes wireSize
  rw [length_pack]
  simp [WireInfo.fields]
  omega

theorem ofNat_mod_toNat {n : ℕ} (x : BitVec (8 * n)) :
    BitVec.ofNat (8 * n) (x.toNat % 256 ^ n) = x := by
  have hlt : x.toNat < 256 ^ n := by
    have hpow : 2 ^ (8 * n) = 256 ^ n := by
      rw [pow_mul]
      norm_num
    rw [← hpow]
    exact x.isLt
  rw [Nat.mod_eq_of_lt hlt, BitVec.ofNat_toNat, BitVec.setWidth_eq]

/-- **Round trip** of a record. -/
theorem ofBytes_bytes (w : WireInfo E J) : WireInfo.ofBytes E J w.bytes = w := by
  have hunpack : unpack (widths E J) w.bytes = w.fields.map fun f => f.2 % 256 ^ f.1 :=
    unpack_pack w.fields
  unfold WireInfo.ofBytes
  rw [hunpack]
  obtain ⟨eid, uasid, segVa, segLen, segFlag, segTokenId, jettyId, threads, opCode, valueSize, dstChip,
    sendSize⟩ := w
  simp only [WireInfo.fields, List.map_cons, List.getD_cons_zero, List.getD_cons_succ,
    WireInfo.mk.injEq]
  exact ⟨ofNat_mod_toNat _, ofNat_mod_toNat (n := 4) _, ofNat_mod_toNat (n := 8) _,
    ofNat_mod_toNat (n := 8) _, ofNat_mod_toNat (n := 4) _, ofNat_mod_toNat (n := 4) _,
    ofNat_mod_toNat _, ofNat_mod_toNat (n := 4) _, ofNat_mod_toNat (n := 4) _,
    ofNat_mod_toNat (n := 4) _, ofNat_mod_toNat (n := 4) _, ofNat_mod_toNat (n := 4) _⟩

end Records

/-! ### The connection -/

/-- The two ends. -/
inductive End where
  | client | server
  deriving DecidableEq

/-- The other end. -/
def End.peer : End → End
  | .client => .server
  | .server => .client

/-- What `read` returns. -/
inductive ReadResult where
  | data (bytes : List Byte)
  | closed
  | interrupted
  | failed

/-- The steps of an end. -/
inductive Act : Type → Type where
  /-- `write`: how many bytes have been written. -/
  | write (data : List Byte) : Act ℕ
  /-- `read` of at most `limit` bytes. -/
  | read (limit : ℕ) : Act ReadResult
  | checked (remote : List Byte) (passed : Bool) : Act Unit
  /-- The rest of `Exchange`: the jetty and the segment of the other end are imported, and jettys are
  bound. -/
  | importRemote : Act Bool

/-- The connection, and the checks each end has made. -/
structure Net where
  /-- The bytes each end has written. -/
  sent : End → List Byte
  /-- How many bytes of the other end each end has read. -/
  taken : End → ℕ
  checks : End → List (List Byte × Bool)

/-- What a step leaves open. -/
inductive Oracle where
  | count (n : ℕ)
  | closed
  | interrupted
  | failed

/-- The effect of a step of the end `e`. -/
def Act.run {β : Type} (e : End) (o : Oracle) : Act β → Net → β × Net
  | .write data, s =>
    match o with
    | .count n =>
      (min n data.length, { s with sent := Function.update s.sent e (s.sent e ++ data.take n) })
    | _ => (0, s)
  | .read _, s =>
    match o with
    | .count n =>
      (.data (((s.sent e.peer).drop (s.taken e)).take n),
        { s with taken := Function.update s.taken e (s.taken e + n) })
    | .closed => (.closed, s)
    | .interrupted => (.interrupted, s)
    | .failed => (.failed, s)
  | .checked remote passed, s =>
    ((), { s with checks := Function.update s.checks e (s.checks e ++ [(remote, passed)]) })
  | .importRemote, s =>
    match o with
    | .count _ => (true, s)
    | _ => (false, s)

/-- Whether the oracle may answer the `k`-th step of the end `e`. A `read` takes at least one byte that
is there; it is interrupted only as long as `signals` says so. -/
def Act.Allowed {β : Type} (signals : ℕ → Bool) (e : End) (k : ℕ) : Act β → Net → Oracle → Prop
  | .read limit, s, .count n =>
    1 ≤ n ∧ n ≤ limit ∧ s.taken e + n ≤ (s.sent e.peer).length
  | .read _, _, .interrupted => signals k = true
  | _, _, _ => True

/-- The connection as a system of two threads without memory of their own. -/
def net (signals : ℕ → Bool) : World End Unit Net Oracle Empty Act where
  run e o a s := a.run e o s
  allowed e k _ a s o := a.Allowed signals e k s o
  env := fun x _ => x.elim
  envAllowed := fun x _ => x.elim

/-! ### The code -/

/-- A procedure of an end. -/
abbrev Code := Proc Unit Act

/-- The loop of `SockSyncData` that reads the record; `remoteData` is what has been read. -/
def readRound (size : ℕ) (remoteData : List Byte) : Code (List Byte ⊕ Option (List Byte)) :=
  if remoteData.length < size then do
    match ← Proc.act (.read (size - remoteData.length)) with
    | .data bytes => pure (.inl (remoteData ++ bytes))
    | .closed => pure (.inr none)
    | .interrupted => pure (.inl remoteData)
    | .failed => pure (.inr none)
  else pure (.inr (some remoteData))

/-- `SockSyncData`: the record read, or `none` when it returns `-1`. -/
def sockSyncData (localData : List Byte) : Code (Option (List Byte)) := do
  let rc ← Proc.act (.write localData)
  if rc < localData.length then pure none
  else Proc.loop (readRound localData.length) []

/-- The members of `HandshakeParams` that are sent. -/
structure HandshakeParams where
  threads : BitVec 32
  opCode : BitVec 32
  valueSize : BitVec 32
  sendSize : BitVec 32
  dstChip : BitVec 32

/-- What an end says about its device, its segment and its jetty. -/
structure Resource (E J : ℕ) where
  eid : BitVec (8 * E)
  uasid : BitVec 32
  segVa : BitVec 64
  segLen : BitVec 64
  segFlag : BitVec 32
  segTokenId : BitVec 32
  jettyId : BitVec (8 * J)

section Code

variable {E J : ℕ}

/-- `localWire`. -/
def localWire (params : HandshakeParams) (res : Resource E J) : WireInfo E J where
  eid := res.eid
  uasid := res.uasid
  segVa := res.segVa
  segLen := res.segLen
  segFlag := res.segFlag
  segTokenId := res.segTokenId
  jettyId := res.jettyId
  threads := params.threads
  opCode := params.opCode
  valueSize := params.valueSize
  dstChip := params.dstChip
  sendSize := params.sendSize

/-- `Exchange`. -/
def exchange (params : HandshakeParams) (res : Resource E J) : Code Bool := do
  match ← sockSyncData (localWire params res).bytes with
  | none => pure false
  | some remote => do
    let passed :=
      exchangeAccepts params.sendSize.toNat (WireInfo.ofBytes E J remote).sendSize.toNat
    Proc.act (.checked remote passed)
    if passed then Proc.act .importRemote else pure false

/-- `calls` calls of `Exchange`, for one port after the other; the first that fails is the last. -/
def exchanges (params : HandshakeParams) (res : ℕ → Resource E J) (calls : ℕ) : Code (Option Unit) :=
  Proc.search (fun port => do
    if ← exchange params (res port) then pure none else pure (some ())) 0 calls

/-- Both ends, before the first call. -/
def start (params : End → HandshakeParams) (res : End → ℕ → Resource E J) (calls : ℕ) :
    Conf End Unit Net Act (Option Unit × Unit) where
  prog e := exchanges (params e) (res e) calls ()
  time _ := 0
  state := ⟨fun _ => [], fun _ => 0, fun _ => []⟩

end Code

end KvBench.Handshake
