import KvBench.Bench.Sizes
import KvBench.Cli.Getopt

/-!
# The command line of `kv_bench.cpp`

The table of options, the defaults, `parse_arguments` and the choice `main` makes between the programs
it can run. `getopt_long` is the scanner of `KvBench.Cli.Getopt`, and numbers are read as in
`KvBench.Bench.Sizes`.

`strdup` is the only call that can fail for reasons of its own: `strdupOk n` says whether it succeeds for
the `n`-th option.
-/

namespace KvBench.Cli

open KvBench.Bench

/-! ### Options -/

/-- The values `getopt_long` returns: the letters and the numbers from 1000 on. -/
inductive Opt where
  | transMode | devName | serverIp | serverPort | eventMode | valueSize | sendSize | chipWeight | qps
  | duration | jettyCount | affinityMode | sourceCpus | destinationCpus | cacheable | threads | op
  | mixedRatio | reportInterval | mbind | noMbind | drvExt | noDrvExt | importRtp | seed | fixedOffset
  | timeoutMs | queryChips | concurrency | pollCpu | dualDev | devName2 | singleChip
  deriving DecidableEq

/-- The letters `m:d:i:p:e`. -/
def shortOption (c : Char) : Option (Opt × Bool) :=
  if c = 'm' then some (.transMode, true)
  else if c = 'd' then some (.devName, true)
  else if c = 'i' then some (.serverIp, true)
  else if c = 'p' then some (.serverPort, true)
  else if c = 'e' then some (.eventMode, false)
  else none

/-- `g_long_options`. -/
def longOptions : List (LongOption Opt) :=
  [⟨"trans-mode".toList, true, .transMode⟩,
    ⟨"dev-name".toList, true, .devName⟩,
    ⟨"server-ip".toList, true, .serverIp⟩,
    ⟨"server-port".toList, true, .serverPort⟩,
    ⟨"event-mode".toList, false, .eventMode⟩,
    ⟨"value-size".toList, true, .valueSize⟩,
    ⟨"send-size".toList, true, .sendSize⟩,
    ⟨"chip-weight".toList, true, .chipWeight⟩,
    ⟨"qps".toList, true, .qps⟩,
    ⟨"duration".toList, true, .duration⟩,
    ⟨"jetty-count".toList, true, .jettyCount⟩,
    ⟨"affinity-mode".toList, true, .affinityMode⟩,
    ⟨"source-cpus".toList, true, .sourceCpus⟩,
    ⟨"destination-cpus".toList, true, .destinationCpus⟩,
    ⟨"cacheable".toList, false, .cacheable⟩,
    ⟨"threads".toList, true, .threads⟩,
    ⟨"op".toList, true, .op⟩,
    ⟨"mixed-ratio".toList, true, .mixedRatio⟩,
    ⟨"report-interval".toList, true, .reportInterval⟩,
    ⟨"mbind".toList, false, .mbind⟩,
    ⟨"no-mbind".toList, false, .noMbind⟩,
    ⟨"drv-ext".toList, false, .drvExt⟩,
    ⟨"no-drv-ext".toList, false, .noDrvExt⟩,
    ⟨"import-rtp".toList, false, .importRtp⟩,
    ⟨"seed".toList, true, .seed⟩,
    ⟨"fixed-offset".toList, false, .fixedOffset⟩,
    ⟨"timeout-ms".toList, true, .timeoutMs⟩,
    ⟨"query-chips".toList, false, .queryChips⟩,
    ⟨"concurrency".toList, true, .concurrency⟩,
    ⟨"poll-cpu".toList, true, .pollCpu⟩,
    ⟨"dual-dev".toList, false, .dualDev⟩,
    ⟨"dev-name2".toList, true, .devName2⟩,
    ⟨"single-chip".toList, true, .singleChip⟩]

/-- What `parse_arguments` gives to `getopt_long`. -/
def options : OptionTable Opt where
  short := shortOption
  long := longOptions
  dash := rfl

/-! ### Arguments -/

/-- `argument_t`. -/
structure CommandLine extends Argument where
  serverIp : Option Text
  serverPort : ℕ
  eventMode : Bool
  sourceCpus : Option Text
  destinationCpus : Option Text
  cacheable : Bool
  pollCpu : ℤ
  reportInterval : ℕ
  mbind : Bool
  importRtp : Bool
  queryChips : Bool

/-- The defaults that `parse_arguments` starts from. -/
def defaults : CommandLine where
  devName := none
  devName2 := none
  dualDev := false
  transMode := 0
  valueSize := 4 * 1024 * 1024
  sendSize := 8 * 1024 * 1024
  qps := 0
  durationSec := 10
  jettyCount := 1
  affinityMode := .affinity
  threads := 1
  concurrency := 1
  singleChip := 0
  chipWeight := (1, 1)
  op := .write
  mixedRatio := 50
  drvExt := true
  seed := 42
  fixedOffset := false
  timeoutMs := 5000
  serverIp := none
  serverPort := 13857
  eventMode := false
  sourceCpus := none
  destinationCpus := none
  cacheable := false
  pollCpu := -1
  reportInterval := 1
  mbind := true
  importRtp := false
  queryChips := false

/-! ### Numbers -/

/-- `(uint32_t)strtoul(s, NULL, 0)`. `unsigned long` has 64 bits. -/
def readUInt32 (s : Text) : ℕ := (strtoull s).1 % 2 ^ 32

/-- `strtol(s, NULL, 0)`. `long` has 64 bits. -/
def readLong (s : Text) : ℤ :=
  match scan s with
  | none => 0
  | some (sign, n, _) => if sign = some '-' then max (-(n : ℤ)) (-2 ^ 63) else min (n : ℤ) (2 ^ 63 - 1)

/-- `(int)strtol(s, NULL, 0)`. -/
def readInt32 (s : Text) : ℤ := (readLong s).bmod (2 ^ 32)

/-- The conversion `%u` of `sscanf`: the number it stores, and what follows it. -/
def scanUnsigned (s : Text) : Option (ℕ × Text) :=
  let (sign, u) := signText (s.dropWhile isSpace)
  if u.takeWhile isDigit = [] then none
  else some (toWord sign (numeralVal 10 (u.takeWhile isDigit)) % 2 ^ 32, u.dropWhile isDigit)

/-- `sscanf(s, "%u:%u", &w1, &w2)`, if it returns 2. -/
def scanWeights (s : Text) : Option (ℕ × ℕ) :=
  match scanUnsigned s with
  | some (w1, ':' :: rest) => (scanUnsigned rest).map fun (w2, _) => (w1, w2)
  | _ => none

/-! ### `parse_arguments` -/

/-- The ways to return `-1`: with the usage, without memory, or with a message. -/
inductive Refusal where
  | usage
  | noMemory
  | message (text : String)

/-- `strdup`. -/
def strdup (ok : Bool) (s : Text) : Option Text := if ok then some s else none

/-- `AFF_AFFINITY`, `AFF_ANTI` and `AFF_NONE` by name. -/
def affinityOf (s : Text) : Option AffinityMode :=
  if s = "affinity".toList then some .affinity
  else if s = "anti".toList ∨ s = "anti-affinity".toList then some .anti
  else if s = "none".toList then some .none
  else none

/-- `OP_WRITE`, `OP_GET` and `OP_MIXED` by name. -/
def opOf (s : Text) : Option Op :=
  if s = "write".toList then some .write
  else if s = "get".toList then some .get
  else if s = "mixed".toList then some .mixed
  else none

/-- The `switch` of `parse_arguments`. `optarg` is empty for an option without an argument. -/
def applyOption (ok : Bool) (k : Opt) (optarg : Text) (args : CommandLine) : Except Refusal CommandLine :=
  match k with
  | .transMode => .ok { args with transMode := readUInt32 optarg }
  | .devName => .ok { args with devName := strdup ok optarg }
  | .serverIp => .ok { args with serverIp := strdup ok optarg }
  | .serverPort => .ok { args with serverPort := readUInt32 optarg }
  | .eventMode => .ok { args with eventMode := true }
  | .valueSize => .ok { args with valueSize := parseSize optarg }
  | .sendSize => .ok { args with sendSize := parseSize optarg }
  | .chipWeight =>
    match scanWeights optarg with
    | some w => .ok { args with chipWeight := w }
    | none => .error (.message ("Invalid --chip-weight '" ++ String.ofList optarg ++
        "' (expect W1:W2, e.g. 7:3)"))
  | .qps => .ok { args with qps := (strtoull optarg).1 }
  | .duration => .ok { args with durationSec := (strtoull optarg).1 }
  | .jettyCount => .ok { args with jettyCount := readUInt32 optarg }
  | .affinityMode =>
    match affinityOf optarg with
    | some m => .ok { args with affinityMode := m }
    | none => .error (.message ("Invalid affinity mode: " ++ String.ofList optarg))
  | .sourceCpus => .ok { args with sourceCpus := some optarg }
  | .destinationCpus => .ok { args with destinationCpus := some optarg }
  | .cacheable => .ok { args with cacheable := true }
  | .threads => .ok { args with threads := readUInt32 optarg }
  | .op =>
    match opOf optarg with
    | some op => .ok { args with op := op }
    | none => .error (.message ("Invalid op: " ++ String.ofList optarg))
  | .mixedRatio => .ok { args with mixedRatio := readUInt32 optarg }
  | .reportInterval => .ok { args with reportInterval := readUInt32 optarg }
  | .mbind => .ok { args with mbind := true }
  | .noMbind => .ok { args with mbind := false }
  | .drvExt => .ok { args with drvExt := true }
  | .noDrvExt => .ok { args with drvExt := false }
  | .importRtp => .ok { args with importRtp := true }
  | .seed => .ok { args with seed := readUInt32 optarg }
  | .fixedOffset => .ok { args with fixedOffset := true }
  | .timeoutMs => .ok { args with timeoutMs := readInt32 optarg }
  | .queryChips => .ok { args with queryChips := true }
  | .concurrency => .ok { args with concurrency := readInt32 optarg }
  | .singleChip => .ok { args with singleChip := readInt32 optarg }
  | .pollCpu => .ok { args with pollCpu := readInt32 optarg }
  | .dualDev => .ok { args with dualDev := true }
  | .devName2 => .ok { args with devName2 := strdup ok optarg }

/-- The loop of `parse_arguments` from its `n`-th round on. It also returns the number of rounds. -/
def applyAll (strdupOk : ℕ → Bool) (n : ℕ) : List (Found Opt) → CommandLine →
    Except Refusal (CommandLine × ℕ)
  | [], args => .ok (args, n)
  | .bad :: _, _ => .error .usage
  | .opt k arg :: found, args =>
    match applyOption (strdupOk n) k (arg.getD []) args with
    | .error e => .error e
    | .ok args => applyAll strdupOk (n + 1) found args

/-- `validate_input_params` at the end of `parse_arguments`. -/
def finish (args : CommandLine) : Except Refusal CommandLine :=
  match validateInputParams args.toArgument with
  | .error e => .error (.message e)
  | .ok () => .ok args

/-- `parse_arguments` for the words that follow the program's name. -/
def parseArguments (strdupOk : ℕ → Bool) (argv : List Text) : Except Refusal CommandLine :=
  if argv = [] then .error .usage
  else
    let (found, operands) := getoptLong options none argv
    match applyAll strdupOk 0 found defaults with
    | .error e => .error e
    | .ok (args, n) =>
      if operands ≠ [] then .error .usage
      else if args.devName = none then
        if strdupOk n then finish { args with devName := some "bonding0".toList } else .error .noMemory
      else finish args

/-! ### `main` -/

/-- What `main` can run. -/
inductive Role where
  | chipQuery | client | dualClient | server | dualServer
  deriving DecidableEq

/-- The choice of `main`. -/
def roleOf (args : CommandLine) : Role :=
  if args.queryChips then .chipQuery
  else if args.serverIp ≠ none then if args.dualDev then .dualClient else .client
  else if args.dualDev then .dualServer else .server

/-- `main`, where `run` stands for the functions it calls: the exit code. -/
def main (strdupOk : ℕ → Bool) (run : Role → CommandLine → ℤ) (argv : List Text) : ℤ :=
  match parseArguments strdupOk argv with
  | .error _ => -1
  | .ok args => run (roleOf args) args

end KvBench.Cli
