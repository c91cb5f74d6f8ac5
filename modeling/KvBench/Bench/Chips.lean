import KvBench.Bench.Args

/-!
# The choice of source and destination chips

Which chips a work request names as its source and destination. The topology of the machine is a
parameter (`Cpus`): what the source reads from `/sys` and from the two CPU lists of the options.
The choices that are random in the source step the xorshift state of the worker, which is returned.
-/

namespace KvBench.Bench

/-- `rng_next`: the new state, which is also the value drawn. -/
def rngNext (state : ℕ) : ℕ :=
  let x := state ^^^ (state <<< 13 % 2 ^ 32)
  let x := x ^^^ (x >>> 17)
  x ^^^ (x <<< 5 % 2 ^ 32)

/-- `MAX_CPUS`. -/
def maxCpus : ℕ := 1024

/-- The CPUs of the machine and those chosen for the two ends, in arrays of `MAX_CPUS` entries. -/
structure Cpus where
  /-- `enumerate_all_cpus`. -/
  all : List ℕ
  /-- `my_cpu_list` for the client. -/
  mine : List ℕ
  /-- `my_cpu_list` for the server. -/
  destination : List ℕ
  /-- `cpu_to_chip`; negative when the chip is not known. -/
  cpuToChip : ℕ → ℤ
  all_le : all.length ≤ maxCpus := by decide
  mine_le : mine.length ≤ maxCpus := by decide

/-- The entry of a CPU list at a random position. -/
def drawCpu (cpus : List ℕ) (random : ℕ) : ℕ := cpus.getD (random % cpus.length) 0

/-- `first_dst_chip`. -/
def firstDstChip (cpus : Cpus) : ℤ :=
  ((cpus.destination.map cpus.cpuToChip).find? (0 < ·)).getD (-1)

/-- The destination chip, with the default that depends on the worker. -/
def dstChip (cpus : Cpus) (id : ℕ) : ℤ :=
  if firstDstChip cpus < 0 then (id % 2 : ℕ) + 1 else firstDstChip cpus

/-- `chip` when it is known, else `default`. -/
def knownChip (chip default : ℤ) : ℤ := if 0 < chip then chip else default

/-- How much a chip of weight `w` is behind after `i + 1` sends of which it got `c`, in the 32-bit
arithmetic of the source. -/
def deficit (w total i c : ℕ) : ℤ := (((i + 1) * w : ℕ) - (c * total : ℕ) : ℤ).bmod (2 ^ 32)

/-- The loop of `pick_weighted_chip` with `left` rounds before the last one. -/
def weightedLoop (w1 w2 : ℕ) : (left i c1 c2 : ℕ) → ℤ
  | 0, i, c1, c2 =>
    if deficit w2 ((w1 + w2) % 2 ^ 32) i c2 ≤ deficit w1 ((w1 + w2) % 2 ^ 32) i c1 then 1 else 2
  | left + 1, i, c1, c2 =>
    if deficit w2 ((w1 + w2) % 2 ^ 32) i c2 ≤ deficit w1 ((w1 + w2) % 2 ^ 32) i c1 then
      weightedLoop w1 w2 left (i + 1) (c1 + 1) c2
    else weightedLoop w1 w2 left (i + 1) c1 (c2 + 1)

/-- `pick_weighted_chip`. -/
def pickWeightedChip (args : Argument) (sendIdx : ℕ) : ℤ :=
  let w1 := args.chipWeight.1
  let w2 := args.chipWeight.2
  if (w1 + w2) % 2 ^ 32 = 0 then 1
  else if w2 = 0 then 1
  else if w1 = 0 then 2
  else weightedLoop w1 w2 sendIdx 0 0 0

/-- Whether `--single-chip` is in force. -/
def singleChipOn (args : Argument) : Bool :=
  args.affinityMode = .affinity ∧ 1 ≤ args.singleChip ∧ args.singleChip ≤ 2

/-- `pick_send_chip`: source, destination and the new random state. -/
def pickSendChip (args : Argument) (cpus : Cpus) (id rng sendIdx : ℕ) : (ℤ × ℤ) × ℕ :=
  let chosen :=
    match args.affinityMode with
    | .affinity =>
      if singleChipOn args then ((args.singleChip, args.singleChip), rng)
      else ((pickWeightedChip args sendIdx, pickWeightedChip args sendIdx), rng)
    | .anti =>
      let r := rngNext rng
      let c0 := drawCpu (if cpus.mine ≠ [] then cpus.mine else cpus.all) r
      ((knownChip (cpus.cpuToChip c0) ((id % 2 : ℕ) + 1), dstChip cpus id), r)
    | .none =>
      let r0 := rngNext rng
      let r1 := rngNext r0
      ((knownChip (cpus.cpuToChip (drawCpu cpus.all r0)) 1,
        knownChip (cpus.cpuToChip (drawCpu cpus.all r1)) 1), r1)
  if args.drvExt = false ∧ singleChipOn args = false then
    ((invalidChip, invalidChip), chosen.2)
  else chosen

/-- The other one of the chips 1 and 2. -/
def otherChip (chip : ℤ) : ℤ := if chip = 1 then 2 else 1

/-- `pick_round_chips` of the client: the two sources, the destination and the new random state. -/
def pickRoundChips (args : Argument) (cpus : Cpus) (id rng : ℕ) : (ℤ × ℤ × ℤ) × ℕ :=
  match args.affinityMode with
  | .affinity =>
    let chip := if cpus.mine ≠ [] then cpus.cpuToChip (cpus.mine.getD (id % cpus.mine.length) 0)
      else -1
    let myChip := if chip < 0 then ((id % 2 : ℕ) : ℤ) + 1 else chip
    ((myChip, otherChip myChip, dstChip cpus id), rng)
  | .anti =>
    let pool := if cpus.mine ≠ [] then cpus.mine else cpus.all
    let r0 := rngNext rng
    let ch0 := cpus.cpuToChip (drawCpu pool r0)
    let srcA := knownChip ch0 ((id % 2 : ℕ) + 1)
    -- the second source is drawn from the other chip when that has a CPU, else from all
    let cands := if 0 < ch0 then pool.filter (cpus.cpuToChip · = otherChip ch0) else []
    let r1 := rngNext r0
    let c1 := if cands ≠ [] then drawCpu cands r1 else drawCpu pool r1
    ((srcA, knownChip (cpus.cpuToChip c1) (otherChip srcA), dstChip cpus id), r1)
  | .none =>
    let r0 := rngNext rng
    let r1 := rngNext r0
    let r2 := rngNext r1
    ((knownChip (cpus.cpuToChip (drawCpu cpus.all r0)) 1,
      knownChip (cpus.cpuToChip (drawCpu cpus.all r1)) 2,
      knownChip (cpus.cpuToChip (drawCpu cpus.all r2)) 1), r2)

end KvBench.Bench
