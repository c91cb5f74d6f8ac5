import KvBench.Cli.Language

/-!
# Every configuration can be written down

`render` writes arguments as a command line: a long option for every field that has no flag, with numbers
in decimal, and the flags that are needed. `Valid` are the arguments in the range of their C types that
pass `validate_input_params`. They are the arguments that `parse_arguments` can return, whatever the
command line and whatever `strdup` does, and each of them is what it returns for its own rendering
(`configurations`).
-/

namespace KvBench.Cli

open KvBench.Bench

/-! ### Numbers in decimal -/

/-- The digits of a number. -/
def decimal (n : ℕ) : Text :=
  if n < 10 then [n.digitChar] else decimal (n / 10) ++ [(n % 10).digitChar]

/-- A number with its sign. -/
def integer (z : ℤ) : Text := if z < 0 then '-' :: decimal z.natAbs else decimal z.natAbs

theorem isDigit_digitChar {d : ℕ} (h : d < 10) : isDigit d.digitChar = true := by
  interval_cases d <;> decide

theorem digitValue_digitChar {d : ℕ} (h : d < 10) : digitValue d.digitChar = d := by
  interval_cases d <;> decide

theorem digitChar_ne_zero {d : ℕ} (h : d < 10) (h0 : d ≠ 0) : d.digitChar ≠ '0' := by
  interval_cases d <;> first | exact absurd rfl h0 | decide

/-- By recursion on the digits: all of them are digits, they have the right value, and the first one is
zero only for zero. -/
theorem decimal_spec (n : ℕ) : ∃ c ds, decimal n = c :: ds ∧ (∀ d ∈ c :: ds, isDigit d = true) ∧
    numeralVal 10 (c :: ds) = n ∧ (n ≠ 0 → c ≠ '0') := by
  induction n using decimal.induct with
  | case1 n h =>
    refine ⟨n.digitChar, [], by rw [decimal, if_pos h], ?_, ?_, digitChar_ne_zero h⟩
    · simpa using isDigit_digitChar h
    · simpa [numeralVal] using digitValue_digitChar h
  | case2 n h ih =>
    obtain ⟨c, ds, heq, hall, hval, hne⟩ := ih
    have hlt : n % 10 < 10 := Nat.mod_lt _ (by norm_num)
    refine ⟨c, ds ++ [(n % 10).digitChar], ?_, ?_, ?_, fun _ => hne (by omega)⟩
    · rw [decimal, if_neg h, heq]
      rfl
    · intro d hd
      rw [← List.cons_append, List.mem_append, List.mem_singleton] at hd
      rcases hd with hd | rfl
      · exact hall d hd
      · exact isDigit_digitChar hlt
    · rw [← List.cons_append, numeralVal, List.foldl_append]
      rw [numeralVal] at hval
      rw [hval, List.foldl_cons, List.foldl_nil, digitValue_digitChar hlt]
      omega

theorem decimal_zero : decimal 0 = ['0'] := by
  rw [decimal]
  rfl

theorem constant_decimal (n : ℕ) : Constant (decimal n) n := by
  by_cases h0 : n = 0
  · subst h0
    rw [decimal_zero]
    exact .octal (by simp)
  · obtain ⟨c, ds, heq, hall, hval, hne⟩ := decimal_spec n
    have := Constant.decimal (hall c (by simp)) (hne h0) fun d hd => hall d (List.mem_cons_of_mem _ hd)
    rwa [hval, ← heq] at this

theorem stops_nil : Stops [] := by
  intro c hc
  cases hc

theorem scan_decimal (n : ℕ) : scan (decimal n) = some (none, n, []) := by
  have h : scan ([] ++ (decimal n ++ [])) = some (none, n, []) :=
    scan_complete (by simp) (constant_decimal n) stops_nil
  simpa using h

theorem scan_neg_decimal (n : ℕ) : scan ('-' :: decimal n) = some (some '-', n, []) := by
  have hscan := scanNumber_complete (constant_decimal n) stops_nil
  rw [List.append_nil] at hscan
  have hdrop : ('-' :: decimal n).dropWhile isSpace = '-' :: decimal n := rfl
  simp only [scan, hdrop, signText, hscan]
  rfl

theorem strtoull_decimal {n : ℕ} (h : n < 2 ^ 64) : (strtoull (decimal n)).1 = n := by
  simp only [strtoull, scan_decimal, toWord]
  rw [if_neg (by omega)]
  simp

theorem readUInt32_decimal {n : ℕ} (h : n < 2 ^ 32) : readUInt32 (decimal n) = n := by
  rw [readUInt32, strtoull_decimal (h.trans (by norm_num)), Nat.mod_eq_of_lt h]

theorem parseSize_decimal {n : ℕ} (h : n < 2 ^ 64) : parseSize (decimal n) = n := by
  have hword : toWord none n = n := by
    rw [toWord, if_neg (by omega)]
    simp
  rw [parseSize_of_scan (scan_decimal n), hword]
  simp only [suffixOf, Option.map_some, Option.getD_some, pow_zero, mul_one]
  exact Nat.mod_eq_of_lt h

theorem readInt32_integer {z : ℤ} (hlo : -2 ^ 31 ≤ z) (hhi : z < 2 ^ 31) : readInt32 (integer z) = z := by
  have hlong : readLong (integer z) = z := by
    unfold integer
    split_ifs with hz
    · simp only [readLong, scan_neg_decimal, if_true]
      omega
    · simp only [readLong, scan_decimal]
      rw [if_neg (by simp)]
      omega
  rw [readInt32, hlong]
  exact Int.bmod_eq_of_le (by omega) (by omega)

/-- `%u` reads a number up to something that is not a digit. -/
theorem scanUnsigned_decimal {n : ℕ} (h : n < 2 ^ 32) {rest : Text} (hrest : rest.takeWhile isDigit = []) :
    scanUnsigned (decimal n ++ rest) = some (n, rest) := by
  obtain ⟨c, ds, heq, hall, hval, -⟩ := decimal_spec n
  have hc := hall c (by simp)
  obtain ⟨htake, hdrop⟩ := takeWhile_append_of_nil hall hrest
  have hspace : (c :: ds ++ rest).dropWhile isSpace = c :: ds ++ rest := by
    rw [List.cons_append, List.dropWhile_cons, not_space_of_digit hc]
    rfl
  have hword : toWord none n % 2 ^ 32 = n := by
    rw [toWord, if_neg (by omega), if_neg (by simp), Nat.mod_eq_of_lt h]
  rw [heq]
  simp only [scanUnsigned, hspace]
  rw [List.cons_append, signText_of_digit hc, ← List.cons_append]
  simp only [htake, hdrop, hval, hword]
  simp

/-- Two weights as `--chip-weight` takes them. -/
def weights (w : ℕ × ℕ) : Text := decimal w.1 ++ ':' :: decimal w.2

theorem scanWeights_weights {w : ℕ × ℕ} (h1 : w.1 < 2 ^ 32) (h2 : w.2 < 2 ^ 32) :
    scanWeights (weights w) = some w := by
  have hcolon : (':' :: decimal w.2).takeWhile isDigit = [] := rfl
  have hfirst := scanUnsigned_decimal h1 hcolon
  have hsecond : scanUnsigned (decimal w.2 ++ []) = some (w.2, []) := scanUnsigned_decimal h2 rfl
  rw [List.append_nil] at hsecond
  simp only [scanWeights, weights, hfirst, hsecond]
  rfl

/-! ### Rendering -/

/-- `affinity`, `anti` or `none`. -/
def affinityText : AffinityMode → Text
  | .affinity => "affinity".toList
  | .anti => "anti".toList
  | .none => "none".toList

/-- `write`, `get` or `mixed`. -/
def opText : Op → Text
  | .write => "write".toList
  | .get => "get".toList
  | .mixed => "mixed".toList

theorem affinityOf_affinityText (m : AffinityMode) : affinityOf (affinityText m) = some m := by
  cases m <;> decide

theorem opOf_opText (op : Op) : opOf (opText op) = some op := by
  cases op <;> decide

/-- The option that sets a field. A flag that is not set and a text that is not there need none. -/
def optionOf (c : CommandLine) : Field → Option (Opt × Option Text)
  | .devName => c.devName.map fun s => (.devName, some s)
  | .devName2 => c.devName2.map fun s => (.devName2, some s)
  | .dualDev => if c.dualDev then some (.dualDev, none) else none
  | .serverIp => c.serverIp.map fun s => (.serverIp, some s)
  | .serverPort => some (.serverPort, some (decimal c.serverPort))
  | .transMode => some (.transMode, some (decimal c.transMode))
  | .eventMode => if c.eventMode then some (.eventMode, none) else none
  | .valueSize => some (.valueSize, some (decimal c.valueSize))
  | .sendSize => some (.sendSize, some (decimal c.sendSize))
  | .qps => some (.qps, some (decimal c.qps))
  | .durationSec => some (.duration, some (decimal c.durationSec))
  | .jettyCount => some (.jettyCount, some (decimal c.jettyCount))
  | .affinityMode => some (.affinityMode, some (affinityText c.affinityMode))
  | .sourceCpus => c.sourceCpus.map fun s => (.sourceCpus, some s)
  | .destinationCpus => c.destinationCpus.map fun s => (.destinationCpus, some s)
  | .cacheable => if c.cacheable then some (.cacheable, none) else none
  | .threads => some (.threads, some (decimal c.threads))
  | .concurrency => some (.concurrency, some (integer c.concurrency))
  | .singleChip => some (.singleChip, some (integer c.singleChip))
  | .chipWeight => some (.chipWeight, some (weights c.chipWeight))
  | .pollCpu => some (.pollCpu, some (integer c.pollCpu))
  | .op => some (.op, some (opText c.op))
  | .mixedRatio => some (.mixedRatio, some (decimal c.mixedRatio))
  | .reportInterval => some (.reportInterval, some (decimal c.reportInterval))
  | .mbind => some (if c.mbind then .mbind else .noMbind, none)
  | .drvExt => some (if c.drvExt then .drvExt else .noDrvExt, none)
  | .importRtp => if c.importRtp then some (.importRtp, none) else none
  | .seed => some (.seed, some (decimal c.seed))
  | .fixedOffset => if c.fixedOffset then some (.fixedOffset, none) else none
  | .timeoutMs => some (.timeoutMs, some (integer c.timeoutMs))
  | .queryChips => if c.queryChips then some (.queryChips, none) else none

/-- All fields. -/
def fields : List Field :=
  [.devName, .devName2, .dualDev, .serverIp, .serverPort, .transMode, .eventMode, .valueSize, .sendSize,
    .qps, .durationSec, .jettyCount, .affinityMode, .sourceCpus, .destinationCpus, .cacheable, .threads,
    .concurrency, .singleChip, .chipWeight, .pollCpu, .op, .mixedRatio, .reportInterval, .mbind, .drvExt,
    .importRtp, .seed, .fixedOffset, .timeoutMs, .queryChips]

theorem mem_fields (f : Field) : f ∈ fields := by
  cases f <;> decide

/-- The arguments as a command line. -/
def renderArguments (c : CommandLine) : List Text := render options (fields.filterMap (optionOf c))

/-! ### Ranges -/

/-- The ranges of the C types, where `validate_input_params` does not say more. -/
structure InRange (c : CommandLine) : Prop where
  serverPort : c.serverPort < 2 ^ 32
  qps : c.qps < 2 ^ 64
  durationSec : c.durationSec < 2 ^ 64
  weight1 : c.chipWeight.1 < 2 ^ 32
  weight2 : c.chipWeight.2 < 2 ^ 32
  reportInterval : c.reportInterval < 2 ^ 32
  seed : c.seed < 2 ^ 32
  timeoutMs : -2 ^ 31 ≤ c.timeoutMs ∧ c.timeoutMs < 2 ^ 31
  pollCpu : -2 ^ 31 ≤ c.pollCpu ∧ c.pollCpu < 2 ^ 31

/-- **The configurations of the program.** -/
structure Valid (c : CommandLine) : Prop extends InRange c where
  validated : validateInputParams c.toArgument = .ok ()

/-- What validation says about the fields that are rendered. -/
structure Checked (c : CommandLine) : Prop where
  devName : c.devName ≠ none
  transMode : c.transMode ≤ 3
  valueSize : c.valueSize < 2 ^ 32
  sendSize : c.sendSize < 2 ^ 32
  jettyCount : c.jettyCount ≤ 200
  threads : c.threads ≤ 512
  concurrency : 1 ≤ c.concurrency ∧ c.concurrency ≤ 10
  singleChip : 0 ≤ c.singleChip ∧ c.singleChip ≤ 2
  mixedRatio : c.mixedRatio ≤ 100

theorem Valid.checked {c : CommandLine} (hc : Valid c) : Checked c := by
  have h := hc.validated
  unfold validateInputParams at h
  obtain ⟨hvalue, h⟩ := check_ok h
  obtain ⟨hsend, h⟩ := check_ok h
  obtain ⟨-, h⟩ := check_ok h
  obtain ⟨-, h⟩ := check_ok h
  obtain ⟨hthreads, h⟩ := check_ok h
  obtain ⟨hconc, h⟩ := check_ok h
  obtain ⟨hsingle, h⟩ := check_ok h
  obtain ⟨-, h⟩ := check_ok h
  obtain ⟨-, h⟩ := check_ok h
  obtain ⟨hratio, h⟩ := check_ok h
  obtain ⟨hmode, -⟩ := check_ok h
  unfold uint32Max maxJettyCount at hvalue
  unfold uint32Max at hsend
  unfold kvMaxConcurrency at hconc
  push Not at hvalue hsend hthreads hconc hsingle hratio hmode
  exact ⟨hvalue.1, by omega, by omega, by omega, by omega, by omega, by omega, by omega, by omega⟩

theorem readUInt32_lt (s : Text) : readUInt32 s < 2 ^ 32 := Nat.mod_lt _ (by norm_num)

theorem readInt32_range (s : Text) : -2 ^ 31 ≤ readInt32 s ∧ readInt32 s < 2 ^ 31 := by
  have h1 := Int.le_bmod (x := readLong s) (m := 2 ^ 32) (by norm_num)
  have h2 := Int.bmod_lt (x := readLong s) (m := 2 ^ 32) (by norm_num)
  unfold readInt32
  omega

theorem strtoull_lt (s : Text) : (strtoull s).1 < 2 ^ 64 := by
  unfold strtoull
  split
  · norm_num
  · exact toWord_lt _ _

theorem scanUnsigned_lt {s rest : Text} {n : ℕ} (h : scanUnsigned s = some (n, rest)) : n < 2 ^ 32 := by
  simp only [scanUnsigned] at h
  split_ifs at h
  obtain ⟨rfl, -⟩ := Prod.mk.inj (Option.some.inj h)
  exact Nat.mod_lt _ (by norm_num)

theorem scanWeights_lt {s : Text} {w : ℕ × ℕ} (h : scanWeights s = some w) :
    w.1 < 2 ^ 32 ∧ w.2 < 2 ^ 32 := by
  unfold scanWeights at h
  split at h
  · rename_i hfirst
    obtain ⟨⟨w2, _⟩, hsecond, rfl⟩ := Option.map_eq_some_iff.1 h
    exact ⟨scanUnsigned_lt hfirst, scanUnsigned_lt hsecond⟩
  · cases h

/-- **A round** of the loop keeps the ranges. -/
theorem InRange.applyOption {ok : Bool} {k : Opt} {arg : Text} {c c' : CommandLine} (hc : InRange c)
    (h : applyOption ok k arg c = .ok c') : InRange c' := by
  obtain ⟨h1, h2, h3, h4, h5, h6, h7, h8, h9⟩ := hc
  have hu := readUInt32_lt arg
  have hi := readInt32_range arg
  have hl := strtoull_lt arg
  cases k with
  | chipWeight =>
    simp only [Cli.applyOption] at h
    cases hw : scanWeights arg with
    | none =>
      rw [hw] at h
      cases h
    | some w =>
      rw [hw] at h
      cases h
      obtain ⟨hw1, hw2⟩ := scanWeights_lt hw
      exact ⟨h1, h2, h3, hw1, hw2, h6, h7, h8, h9⟩
  | affinityMode =>
    simp only [Cli.applyOption] at h
    cases hm : affinityOf arg <;> rw [hm] at h <;> cases h
    exact ⟨h1, h2, h3, h4, h5, h6, h7, h8, h9⟩
  | op =>
    simp only [Cli.applyOption] at h
    cases hm : opOf arg <;> rw [hm] at h <;> cases h
    exact ⟨h1, h2, h3, h4, h5, h6, h7, h8, h9⟩
  | serverPort =>
    cases h
    exact ⟨hu, h2, h3, h4, h5, h6, h7, h8, h9⟩
  | qps =>
    cases h
    exact ⟨h1, hl, h3, h4, h5, h6, h7, h8, h9⟩
  | duration =>
    cases h
    exact ⟨h1, h2, hl, h4, h5, h6, h7, h8, h9⟩
  | reportInterval =>
    cases h
    exact ⟨h1, h2, h3, h4, h5, hu, h7, h8, h9⟩
  | seed =>
    cases h
    exact ⟨h1, h2, h3, h4, h5, h6, hu, h8, h9⟩
  | timeoutMs =>
    cases h
    exact ⟨h1, h2, h3, h4, h5, h6, h7, hi, h9⟩
  | pollCpu =>
    cases h
    exact ⟨h1, h2, h3, h4, h5, h6, h7, h8, hi⟩
  | _ =>
    cases h
    exact ⟨h1, h2, h3, h4, h5, h6, h7, h8, h9⟩

/-- **The loop** keeps the ranges. -/
theorem InRange.applyAll {strdupOk : ℕ → Bool} {found : List (Found Opt)} {n m : ℕ} {c c' : CommandLine}
    (hc : InRange c) (h : applyAll strdupOk n found c = .ok (c', m)) : InRange c' := by
  induction found generalizing n c with
  | nil =>
    obtain ⟨rfl, -⟩ : c = c' ∧ n = m := by simpa [Cli.applyAll] using h
    exact hc
  | cons f found ih =>
    cases f with
    | bad => cases h
    | opt k arg =>
      simp only [Cli.applyAll] at h
      cases hstep : Cli.applyOption (strdupOk n) k (arg.getD []) c with
      | error e =>
        rw [hstep] at h
        cases h
      | ok c₁ =>
        rw [hstep] at h
        exact ih (hc.applyOption hstep) h

theorem defaults_inRange : InRange defaults := by
  constructor <;> decide

/-- **What is accepted is a configuration**, also when `strdup` fails. -/
theorem parseArguments_valid {strdupOk : ℕ → Bool} {argv : List Text} {c : CommandLine}
    (h : parseArguments strdupOk argv = .ok c) : Valid c := by
  unfold parseArguments at h
  split_ifs at h with hargv
  rcases hscan : getoptLong options none argv with ⟨found, operands⟩
  rw [hscan] at h
  simp only at h
  rcases hall : applyAll strdupOk 0 found defaults with e | ⟨args, n⟩
  · rw [hall] at h
    cases h
  rw [hall] at h
  have hrange := defaults_inRange.applyAll hall
  simp only at h
  split_ifs at h with hop hname hdup
  · obtain ⟨hvalid, rfl⟩ := finish_iff.1 h
    obtain ⟨h1, h2, h3, h4, h5, h6, h7, h8, h9⟩ := hrange
    exact ⟨⟨h1, h2, h3, h4, h5, h6, h7, h8, h9⟩, hvalid⟩
  · obtain ⟨hvalid, rfl⟩ := finish_iff.1 h
    exact ⟨hrange, hvalid⟩

/-! ### The round trip -/

section RoundTrip

variable {c : CommandLine}

/-- An option of the rendering means the value of its field. -/
theorem Valid.meaning_optionOf (hc : Valid c) {f : Field} {e : Opt × Option Text}
    (he : optionOf c f = some e) : meaning e.1 (e.2.getD []) = .ok ⟨f, c.get f⟩ := by
  obtain ⟨-, h1, h2, h3, h4, h5, h6, h7, h8⟩ := hc.checked
  have hr := hc.toInRange
  cases f with
  | devName | devName2 | serverIp | sourceCpus | destinationCpus =>
    obtain ⟨s, hs, rfl⟩ := Option.map_eq_some_iff.1 he
    simp only [meaning, CommandLine.get, Option.getD_some, hs]
  | dualDev | eventMode | cacheable | importRtp | fixedOffset | queryChips =>
    simp only [optionOf] at he
    split_ifs at he with hflag
    cases he
    simp only [meaning, CommandLine.get, hflag]
  | mbind | drvExt =>
    cases he
    simp only [CommandLine.get]
    split_ifs with hflag <;> simp [meaning, hflag]
  | affinityMode =>
    cases he
    simp only [meaning, Option.getD_some, affinityOf_affinityText, CommandLine.get]
  | op =>
    cases he
    simp only [meaning, Option.getD_some, opOf_opText, CommandLine.get]
  | chipWeight =>
    cases he
    simp only [meaning, Option.getD_some, scanWeights_weights hr.weight1 hr.weight2, CommandLine.get]
  | valueSize | sendSize =>
    cases he
    simp only [meaning, Option.getD_some, CommandLine.get]
    rw [parseSize_decimal (by omega)]
  | qps =>
    cases he
    simp only [meaning, Option.getD_some, CommandLine.get, strtoull_decimal hr.qps]
  | durationSec =>
    cases he
    simp only [meaning, Option.getD_some, CommandLine.get, strtoull_decimal hr.durationSec]
  | serverPort =>
    cases he
    simp only [meaning, Option.getD_some, CommandLine.get, readUInt32_decimal hr.serverPort]
  | reportInterval =>
    cases he
    simp only [meaning, Option.getD_some, CommandLine.get, readUInt32_decimal hr.reportInterval]
  | seed =>
    cases he
    simp only [meaning, Option.getD_some, CommandLine.get, readUInt32_decimal hr.seed]
  | transMode | jettyCount | threads | mixedRatio =>
    cases he
    simp only [meaning, Option.getD_some, CommandLine.get]
    rw [readUInt32_decimal (by omega)]
  | timeoutMs =>
    cases he
    simp only [meaning, Option.getD_some, CommandLine.get,
      readInt32_integer hr.timeoutMs.1 hr.timeoutMs.2]
  | pollCpu =>
    cases he
    simp only [meaning, Option.getD_some, CommandLine.get, readInt32_integer hr.pollCpu.1 hr.pollCpu.2]
  | concurrency | singleChip =>
    cases he
    simp only [meaning, Option.getD_some, CommandLine.get]
    rw [readInt32_integer (by omega) (by omega)]

/-- A field without an option has its default. -/
theorem Valid.get_of_none (hc : Valid c) {f : Field} (hf : optionOf c f = none) :
    c.get f = initial.get f := by
  cases f with
  | devName => exact absurd (Option.map_eq_none_iff.1 hf) hc.checked.devName
  | devName2 | serverIp | sourceCpus | destinationCpus =>
    exact Option.map_eq_none_iff.1 hf
  | dualDev | eventMode | cacheable | importRtp | fixedOffset | queryChips =>
    simp only [optionOf, ite_eq_right_iff, reduceCtorEq, imp_false, Bool.not_eq_true] at hf
    exact hf
  | _ => cases hf

/-- The options of a rendering are in the table. -/
theorem proper_of_optionOf {f : Field} {e : Opt × Option Text} (he : optionOf c f = some e) :
    Proper options e := by
  cases f with
  | devName | devName2 | serverIp | sourceCpus | destinationCpus =>
    obtain ⟨s, -, rfl⟩ := Option.map_eq_some_iff.1 he
    exact ⟨_, rfl, rfl⟩
  | dualDev | eventMode | cacheable | importRtp | fixedOffset | queryChips =>
    simp only [optionOf] at he
    split_ifs at he
    cases he
    exact ⟨_, rfl, rfl⟩
  | mbind | drvExt =>
    cases he
    split_ifs <;> exact ⟨_, rfl, rfl⟩
  | _ =>
    cases he
    exact ⟨_, rfl, rfl⟩

theorem options_names_nodup : (options.long.map LongOption.name).Nodup := by
  decide

theorem options_names : ∀ o ∈ options.long, o.name ≠ [] ∧ '=' ∉ o.name := by
  decide

/-- The values of the fields that are rendered. -/
def settings (c : CommandLine) : List Setting :=
  (fields.filter fun f => (optionOf c f).isSome).map fun f => ⟨f, c.get f⟩

theorem Valid.means (hc : Valid c) : Means (fields.filterMap (optionOf c)) (settings c) := by
  unfold settings
  induction fields with
  | nil => exact .nil
  | cons f fs ih =>
    cases he : optionOf c f with
    | none =>
      rw [List.filterMap_cons_none he, List.filter_cons_of_neg (by simp [he])]
      exact ih
    | some e =>
      rw [List.filterMap_cons_some he, List.filter_cons_of_pos (by simp [he])]
      exact .cons (hc.meaning_optionOf he) ih

theorem Valid.denotes (hc : Valid c) : Denotes (renderArguments c) c := by
  refine ⟨_, settings c, ?_, hc.means, fun f => ?_⟩
  · refine render_spelled options_names_nodup options_names fun e he => ?_
    obtain ⟨f, -, hf⟩ := List.mem_filterMap.1 he
    exact proper_of_optionOf hf
  · have hagree : ∀ s ∈ settings c, s.2 = c.get s.1 := by
      intro s hs
      obtain ⟨f, -, rfl⟩ := List.mem_map.1 hs
      rfl
    rw [lastOf_of_agree hagree]
    split_ifs with hmem
    · rfl
    · refine hc.get_of_none ?_
      by_contra hne
      refine hmem (List.mem_map.2 ⟨⟨f, c.get f⟩, List.mem_map.2 ⟨f, ?_, rfl⟩, rfl⟩)
      exact List.mem_filter.2 ⟨mem_fields f, Option.isSome_iff_ne_none.2 hne⟩

theorem renderArguments_ne_nil (c : CommandLine) : renderArguments c ≠ [] := by
  intro hnil
  have hmem : (Opt.transMode, some (decimal c.transMode)) ∈ fields.filterMap (optionOf c) :=
    List.mem_filterMap.2 ⟨.transMode, mem_fields _, rfl⟩
  exact List.cons_ne_nil _ _ (List.flatMap_eq_nil_iff.1 hnil _ hmem)

end RoundTrip

/-- **Configurations.** What `parse_arguments` can return, for any command line and whatever `strdup`
does, are the valid configurations, and a configuration is valid if and only if it is what its rendering
is read as. -/
theorem configurations (c : CommandLine) :
    ((∃ strdupOk argv, parseArguments strdupOk argv = .ok c) ↔ Valid c) ∧
      (parseArguments (fun _ => true) (renderArguments c) = .ok c ↔ Valid c) := by
  have hrender : Valid c → parseArguments (fun _ => true) (renderArguments c) = .ok c := fun hc =>
    parseArguments_of_denotes (renderArguments_ne_nil c) hc.denotes hc.validated
  refine ⟨⟨?_, fun hc => ⟨_, _, hrender hc⟩⟩, ⟨parseArguments_valid, hrender⟩⟩
  rintro ⟨strdupOk, argv, h⟩
  exact parseArguments_valid h

/-! ### What `main` runs -/

/-- The strings that a role dereferences are there: the device for all of them, the address for the
clients, and the second device where there are two. -/
structure Supplied (role : Role) (c : CommandLine) : Prop where
  valid : Valid c
  devName : c.devName ≠ none
  serverIp : role = .client ∨ role = .dualClient → c.serverIp ≠ none
  devName2 : role = .dualClient ∨ role = .dualServer → c.devName2 ≠ none

theorem Valid.devName2 {c : CommandLine} (hc : Valid c) (hdual : c.dualDev = true) : c.devName2 ≠ none := by
  have h := hc.validated
  unfold validateInputParams at h
  obtain ⟨-, h⟩ := check_ok h
  obtain ⟨-, h⟩ := check_ok h
  obtain ⟨-, h⟩ := check_ok h
  obtain ⟨hcheck, -⟩ := check_ok h
  exact fun hnone => hcheck ⟨hdual, hnone⟩

theorem Valid.supplied {c : CommandLine} (hc : Valid c) : Supplied (roleOf c) c := by
  refine ⟨hc, hc.checked.devName, fun hrole => ?_, fun hrole => hc.devName2 ?_⟩
  · intro hnone
    unfold roleOf at hrole
    rw [if_neg fun hne : c.serverIp ≠ none => hne hnone] at hrole
    split_ifs at hrole <;> simp at hrole
  · unfold roleOf at hrole
    split_ifs at hrole <;> simp_all

/-- **`main` supplies what it runs**, also when `strdup` fails: it cannot tell two programs apart that
only differ where a string is missing or the arguments are not valid. -/
theorem main_supplies (strdupOk : ℕ → Bool) (argv : List Text) (run run' : Role → CommandLine → ℤ)
    (hrun : ∀ role c, Supplied role c → run role c = run' role c) :
    main strdupOk run argv = main strdupOk run' argv := by
  unfold main
  cases h : parseArguments strdupOk argv with
  | error e => rfl
  | ok c => exact hrun _ _ (parseArguments_valid h).supplied

theorem main_supplies_client :
    main (fun _ => true) (fun _ c => if c.devName = none then 1 else 0) ["-i10.0.0.1".toList] =
      main (fun _ => true) (fun _ _ => 0) ["-i10.0.0.1".toList] :=
  main_supplies _ _ _ _ fun _ _ h => if_neg h.devName

end KvBench.Cli
