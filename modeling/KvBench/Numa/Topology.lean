import KvBench.Bench.CpuList
import KvBench.Bench.CpuSelect
import KvBench.Conc.Logic

/-!
# CPUs, NUMA nodes and chips (`kv_bench.cpp`)

`read_cpu_numa` finds the node of a CPU in sysfs and remembers it in two tables, `get_num_numa_nodes`
counts the nodes and remembers the number, and the other functions compute chips from that. The tables
are plain variables that all threads share, so the functions are programs over single loads and stores.

The second part says what the functions are for, without tables.
-/

namespace KvBench.Numa

open KvBench.Bench KvBench.Conc

/-! ### The functions of the source -/

/-- What is read from the system. -/
structure Sysfs where
  /-- `sysconf(_SC_NPROCESSORS_CONF)`. -/
  ncpu : ℕ
  /-- The names in the directory of a CPU, in the order of `readdir`, if it can be opened. -/
  dir : ℤ → Option (List (List Char))

/-- `g_cpu_numa_known`, `g_cpu_numa` and the variable `count` of `get_num_numa_nodes`. -/
structure Tables where
  known : ℤ → Bool
  numa : ℤ → ℤ
  count : ℤ

/-- A load or a store. -/
inductive Act : Type → Type where
  | loadKnown (cpu : ℤ) : Act Bool
  | loadNuma (cpu : ℤ) : Act ℤ
  | storeKnown (cpu : ℤ) (known : Bool) : Act Unit
  | storeNuma (cpu node : ℤ) : Act Unit
  | loadCount : Act ℤ
  | storeCount (count : ℤ) : Act Unit

/-- Its effect. -/
def Act.run {β : Type} : Act β → Tables → β × Tables
  | .loadKnown cpu, s => (s.known cpu, s)
  | .loadNuma cpu, s => (s.numa cpu, s)
  | .storeKnown cpu known, s => ((), { s with known := Function.update s.known cpu known })
  | .storeNuma cpu node, s => ((), { s with numa := Function.update s.numa cpu node })
  | .loadCount, s => (s.count, s)
  | .storeCount count, s => ((), { s with count := count })

/-- Threads named by `ι` that share the tables. -/
def tables (ι : Type) : World ι Unit Tables Unit Empty Act where
  run _ _ e s := e.run s
  allowed _ _ _ _ _ _ := True
  env := fun x _ => x.elim
  envAllowed := fun x _ => x.elim

/-- A procedure of a thread. -/
abbrev Code := Proc Unit Act

/-- The names that `read_cpu_numa` looks for. -/
def isNodeName (name : List Char) : Bool :=
  "node".toList.isPrefixOf name && (name.drop 4).head?.any isDigit

/-- The loop over the directory. -/
def nodeOfEntries (entries : List (List Char)) : ℤ :=
  match entries.find? isNodeName with
  | none => -1
  | some name => atoi (name.drop 4)

/-- The bounds of the tables. -/
def inTable (cpu : ℤ) : Prop := 0 ≤ cpu ∧ cpu < maxCpus

instance (cpu : ℤ) : Decidable (inTable cpu) := inferInstanceAs (Decidable (_ ∧ _))

/-- The end of `read_cpu_numa`. -/
def remember (cpu node : ℤ) : Code ℤ :=
  if inTable cpu then do
    Proc.act (.storeKnown cpu (0 ≤ node))
    Proc.act (.storeNuma cpu node)
    pure node
  else pure node

variable (sys : Sysfs)

/-- `read_cpu_numa` when the node is not known. -/
def lookUp (cpu : ℤ) : Code ℤ :=
  match sys.dir cpu with
  | none => pure (-1)
  | some entries => remember cpu (nodeOfEntries entries)

/-- `read_cpu_numa`. -/
def readCpuNuma (cpu : ℤ) : Code ℤ :=
  if inTable cpu then do
    let known ← Proc.act (.loadKnown cpu)
    if known then Proc.act (.loadNuma cpu) else lookUp sys cpu
  else lookUp sys cpu

/-- A node is counted: `seen` and `n` of `get_num_numa_nodes`. -/
def countNode (x : Finset ℤ × ℤ) (node : ℤ) : Finset ℤ × ℤ :=
  if 0 ≤ node ∧ node < 64 ∧ node ∉ x.1 then (insert node x.1, x.2 + 1) else x

/-- A round of the loop of `get_num_numa_nodes`. -/
def countRound (c : ℕ) (x : Finset ℤ × ℤ) : Code (Finset ℤ × ℤ) := do
  let node ← readCpuNuma sys c
  pure (countNode x node)

/-- `get_num_numa_nodes`. -/
def getNumNumaNodes : Code ℤ := do
  let count ← Proc.act .loadCount
  if 0 ≤ count then Proc.act .loadCount
  else do
    let x ← Proc.each (countRound sys) 0 (min sys.ncpu maxCpus) (∅, 0)
    Proc.act (.storeCount (if 0 < x.2 then x.2 else 1))
    Proc.act .loadCount

/-- The chip of a node when there are `numaCount` of them. -/
def chipFor (numaCount numa : ℤ) : ℤ :=
  if numa < 0 ∨ numaCount ≤ 0 then -1 else if numa < (numaCount + 1) / 2 then 1 else 2

/-- `numa_to_chip`. -/
def numaToChip (numa : ℤ) : Code ℤ := do
  let numaCount ← getNumNumaNodes sys
  pure (chipFor numaCount numa)

/-- A round of the loop of `chip_to_first_numa`. -/
def firstRound (chip : ℤ) (n : ℕ) : Code (Option ℤ) := do
  let c ← numaToChip sys n
  pure (if c = chip then some (n : ℤ) else none)

/-- `chip_to_first_numa`. -/
def chipToFirstNuma (chip : ℤ) : Code ℤ := do
  let numaCount ← getNumNumaNodes sys
  let found ← Proc.search (firstRound sys chip) 0 numaCount.toNat
  pure (found.getD (-1))

/-- `cpu_to_chip`. -/
def cpuToChip (cpu : ℤ) : Code ℤ := do
  let numa ← readCpuNuma sys cpu
  numaToChip sys numa

/-! ### What they are for -/

/-- The node of a CPU; negative when it is not known. -/
def nodeOf (cpu : ℤ) : ℤ :=
  match sys.dir cpu with
  | none => -1
  | some entries => nodeOfEntries entries

/-- The nodes of the first `k` CPUs. -/
def nodes (k : ℕ) : Finset ℤ :=
  ((Finset.range k).image fun (c : ℕ) => nodeOf sys c).filter fun node => 0 ≤ node ∧ node < 64

/-- The number of nodes, at least one. -/
def nodeCount : ℤ := max (nodes sys (min sys.ncpu maxCpus)).card 1

/-- The chip of a node. -/
def chipOfNode (node : ℤ) : ℤ := chipFor (nodeCount sys) node

/-- The first node of a chip: the lower half of the nodes is on chip 1, the upper half on chip 2. -/
def firstNodeOf (chip : ℤ) : ℤ :=
  if chip = 1 then 0 else if chip = 2 ∧ 2 ≤ nodeCount sys then (nodeCount sys + 1) / 2 else -1

theorem nodeCount_pos : 1 ≤ nodeCount sys := le_max_right _ _

theorem countNode_nodes (k : ℕ) :
    countNode (nodes sys k, (nodes sys k).card) (nodeOf sys k) =
      (nodes sys (k + 1), ((nodes sys (k + 1)).card : ℤ)) := by
  have hsucc : nodes sys (k + 1) = if 0 ≤ nodeOf sys k ∧ nodeOf sys k < 64
      then insert (nodeOf sys k) (nodes sys k) else nodes sys k := by
    unfold nodes
    rw [Finset.range_add_one, Finset.image_insert, Finset.filter_insert]
  unfold countNode
  rw [hsucc]
  by_cases hrange : 0 ≤ nodeOf sys k ∧ nodeOf sys k < 64
  · rw [if_pos hrange]
    by_cases hmem : nodeOf sys k ∈ nodes sys k
    · rw [if_neg fun h => h.2.2 hmem, Finset.insert_eq_of_mem hmem]
    · rw [if_pos ⟨hrange.1, hrange.2, hmem⟩, Finset.card_insert_of_notMem hmem]
      simp
  · rw [if_neg hrange, if_neg fun h => hrange ⟨h.1, h.2.1⟩]

/-- **The first node of a chip** is a node of the chip, and the least one. -/
theorem firstNodeOf_spec (chip : ℤ) :
    (0 ≤ firstNodeOf sys chip → firstNodeOf sys chip < nodeCount sys ∧
      chipOfNode sys (firstNodeOf sys chip) = chip) ∧
    ∀ node, 0 ≤ node → node < nodeCount sys → chipOfNode sys node = chip →
      0 ≤ firstNodeOf sys chip ∧ firstNodeOf sys chip ≤ node := by
  have hpos := nodeCount_pos sys
  unfold chipOfNode chipFor firstNodeOf
  generalize nodeCount sys = count at hpos
  constructor
  · intro h
    split_ifs at h ⊢ <;> omega
  · intro node h0 hlt
    split_ifs <;> omega

end KvBench.Numa
