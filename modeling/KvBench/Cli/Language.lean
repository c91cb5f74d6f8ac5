import KvBench.Cli.Options

/-!
# What a command line means

A command line means an assignment to the fields of `argument_t`: the words spell options, every option
means a value for one field, and a field has the last value that it is given, or its default.
`parse_arguments` computes this, and accepts a command line exactly if it has a meaning and the arguments
pass `validate_input_params` (`parseArguments_iff`).
-/

namespace KvBench.Cli

open KvBench.Bench

/-! ### Fields -/

/-- The fields of `argument_t`. -/
inductive Field where
  | devName | devName2 | dualDev | serverIp | serverPort | transMode | eventMode | valueSize | sendSize | qps
  | durationSec | jettyCount | affinityMode | sourceCpus | destinationCpus | cacheable | threads
  | concurrency | singleChip | chipWeight | pollCpu | op | mixedRatio | reportInterval | mbind | drvExt
  | importRtp | seed | fixedOffset | timeoutMs | queryChips
  deriving DecidableEq

/-- The type of a field. -/
abbrev Field.Value : Field → Type
  | .devName | .devName2 | .serverIp | .sourceCpus | .destinationCpus => Option Text
  | .dualDev | .eventMode | .cacheable | .mbind | .drvExt | .importRtp | .fixedOffset | .queryChips => Bool
  | .serverPort | .transMode | .valueSize | .sendSize | .qps | .durationSec | .jettyCount | .threads => ℕ
  | .mixedRatio | .reportInterval | .seed => ℕ
  | .concurrency | .singleChip | .pollCpu | .timeoutMs => ℤ
  | .affinityMode => AffinityMode
  | .chipWeight => ℕ × ℕ
  | .op => Op

/-- A field of the arguments. -/
def CommandLine.get (c : CommandLine) : (f : Field) → f.Value
  | .devName => c.devName
  | .devName2 => c.devName2
  | .dualDev => c.dualDev
  | .serverIp => c.serverIp
  | .serverPort => c.serverPort
  | .transMode => c.transMode
  | .eventMode => c.eventMode
  | .valueSize => c.valueSize
  | .sendSize => c.sendSize
  | .qps => c.qps
  | .durationSec => c.durationSec
  | .jettyCount => c.jettyCount
  | .affinityMode => c.affinityMode
  | .sourceCpus => c.sourceCpus
  | .destinationCpus => c.destinationCpus
  | .cacheable => c.cacheable
  | .threads => c.threads
  | .concurrency => c.concurrency
  | .singleChip => c.singleChip
  | .chipWeight => c.chipWeight
  | .pollCpu => c.pollCpu
  | .op => c.op
  | .mixedRatio => c.mixedRatio
  | .reportInterval => c.reportInterval
  | .mbind => c.mbind
  | .drvExt => c.drvExt
  | .importRtp => c.importRtp
  | .seed => c.seed
  | .fixedOffset => c.fixedOffset
  | .timeoutMs => c.timeoutMs
  | .queryChips => c.queryChips

/-- The arguments with these fields. -/
def ofValues (g : ∀ f : Field, f.Value) : CommandLine where
  devName := g .devName
  devName2 := g .devName2
  dualDev := g .dualDev
  transMode := g .transMode
  valueSize := g .valueSize
  sendSize := g .sendSize
  qps := g .qps
  durationSec := g .durationSec
  jettyCount := g .jettyCount
  affinityMode := g .affinityMode
  threads := g .threads
  concurrency := g .concurrency
  singleChip := g .singleChip
  chipWeight := g .chipWeight
  op := g .op
  mixedRatio := g .mixedRatio
  drvExt := g .drvExt
  seed := g .seed
  fixedOffset := g .fixedOffset
  timeoutMs := g .timeoutMs
  serverIp := g .serverIp
  serverPort := g .serverPort
  eventMode := g .eventMode
  sourceCpus := g .sourceCpus
  destinationCpus := g .destinationCpus
  cacheable := g .cacheable
  pollCpu := g .pollCpu
  reportInterval := g .reportInterval
  mbind := g .mbind
  importRtp := g .importRtp
  queryChips := g .queryChips

theorem ofValues_get (c : CommandLine) : ofValues c.get = c := rfl

theorem get_ofValues (g : ∀ f : Field, f.Value) : (ofValues g).get = g := by
  funext f
  cases f <;> rfl

/-! ### Meaning -/

/-- A field with a value. -/
abbrev Setting := Σ f : Field, f.Value

/-- What an option means. -/
def meaning (k : Opt) (arg : Text) : Except Refusal Setting :=
  match k with
  | .transMode => .ok ⟨.transMode, readUInt32 arg⟩
  | .devName => .ok ⟨.devName, some arg⟩
  | .serverIp => .ok ⟨.serverIp, some arg⟩
  | .serverPort => .ok ⟨.serverPort, readUInt32 arg⟩
  | .eventMode => .ok ⟨.eventMode, true⟩
  | .valueSize => .ok ⟨.valueSize, parseSize arg⟩
  | .sendSize => .ok ⟨.sendSize, parseSize arg⟩
  | .chipWeight =>
    match scanWeights arg with
    | some w => .ok ⟨.chipWeight, w⟩
    | none => .error (.message ("Invalid --chip-weight '" ++ String.ofList arg ++
        "' (expect W1:W2, e.g. 7:3)"))
  | .qps => .ok ⟨.qps, (strtoull arg).1⟩
  | .duration => .ok ⟨.durationSec, (strtoull arg).1⟩
  | .jettyCount => .ok ⟨.jettyCount, readUInt32 arg⟩
  | .affinityMode =>
    match affinityOf arg with
    | some m => .ok ⟨.affinityMode, m⟩
    | none => .error (.message ("Invalid affinity mode: " ++ String.ofList arg))
  | .sourceCpus => .ok ⟨.sourceCpus, some arg⟩
  | .destinationCpus => .ok ⟨.destinationCpus, some arg⟩
  | .cacheable => .ok ⟨.cacheable, true⟩
  | .threads => .ok ⟨.threads, readUInt32 arg⟩
  | .op =>
    match opOf arg with
    | some op => .ok ⟨.op, op⟩
    | none => .error (.message ("Invalid op: " ++ String.ofList arg))
  | .mixedRatio => .ok ⟨.mixedRatio, readUInt32 arg⟩
  | .reportInterval => .ok ⟨.reportInterval, readUInt32 arg⟩
  | .mbind => .ok ⟨.mbind, true⟩
  | .noMbind => .ok ⟨.mbind, false⟩
  | .drvExt => .ok ⟨.drvExt, true⟩
  | .noDrvExt => .ok ⟨.drvExt, false⟩
  | .importRtp => .ok ⟨.importRtp, true⟩
  | .seed => .ok ⟨.seed, readUInt32 arg⟩
  | .fixedOffset => .ok ⟨.fixedOffset, true⟩
  | .timeoutMs => .ok ⟨.timeoutMs, readInt32 arg⟩
  | .queryChips => .ok ⟨.queryChips, true⟩
  | .concurrency => .ok ⟨.concurrency, readInt32 arg⟩
  | .singleChip => .ok ⟨.singleChip, readInt32 arg⟩
  | .pollCpu => .ok ⟨.pollCpu, readInt32 arg⟩
  | .dualDev => .ok ⟨.dualDev, true⟩
  | .devName2 => .ok ⟨.devName2, some arg⟩

/-- A field is set, and the others stay as they are. -/
def CommandLine.set (c : CommandLine) (s : Setting) : CommandLine :=
  ofValues (Function.update c.get s.1 s.2)

/-- Every `case` of the `switch` sets the field that the option means, and nothing else. -/
theorem applyOption_eq (k : Opt) (arg : Text) (c : CommandLine) :
    applyOption true k arg c = (meaning k arg).map c.set := by
  cases k with
  | chipWeight =>
    simp only [applyOption, meaning]
    cases scanWeights arg <;> rfl
  | affinityMode =>
    simp only [applyOption, meaning]
    cases affinityOf arg <;> rfl
  | op =>
    simp only [applyOption, meaning]
    cases opOf arg <;> rfl
  | _ => rfl

theorem get_set (c : CommandLine) (s : Setting) : (c.set s).get = Function.update c.get s.1 s.2 :=
  get_ofValues _

theorem get_foldl_set (ss : List Setting) (c : CommandLine) (f : Field) :
    (ss.foldl CommandLine.set c).get f = (lastOf f ss).getD (c.get f) := by
  rw [← foldl_set_apply]
  induction ss generalizing c with
  | nil => rfl
  | cons s ss ih => rw [List.foldl_cons, ih, get_set, List.foldl_cons]

theorem ext_get {c c' : CommandLine} (h : ∀ f, c.get f = c'.get f) : c = c' := by
  rw [← ofValues_get c, ← ofValues_get c', funext h]

/-- What options mean, one by one. -/
def Means (es : List (Opt × Option Text)) (ss : List Setting) : Prop :=
  List.Forall₂ (fun e s => meaning e.1 (e.2.getD []) = .ok s) es ss

/-- The defaults, with the name of the device. -/
def initial : CommandLine := { defaults with devName := some "bonding0".toList }

/-- **The meaning of a command line.** -/
def Denotes (argv : List Text) (c : CommandLine) : Prop :=
  ∃ es ss, Spelled options argv es ∧ Means es ss ∧ ∀ f, c.get f = (lastOf f ss).getD (initial.get f)

/-! ### The loop -/

/-- **The loop of `parse_arguments`** ends if there is no error and every option has a meaning. -/
theorem applyAll_iff {found : List (Found Opt)} {n m : ℕ} {c c' : CommandLine} :
    applyAll (fun _ => true) n found c = .ok (c', m) ↔
      ∃ es ss, found = opts es ∧ Means es ss ∧ c' = ss.foldl CommandLine.set c ∧ m = n + es.length := by
  induction found generalizing n c with
  | nil =>
    constructor
    · intro h
      obtain ⟨rfl, rfl⟩ : c = c' ∧ n = m := by simpa [applyAll] using h
      exact ⟨[], [], rfl, .nil, rfl, rfl⟩
    · rintro ⟨es, ss, hes, hss, rfl, rfl⟩
      obtain rfl : es = [] := List.map_eq_nil_iff.1 hes.symm
      cases hss
      rfl
  | cons f found ih =>
    cases f with
    | bad =>
      constructor
      · intro h
        cases h
      · rintro ⟨es, ss, hes, -⟩
        exact absurd hes bad_ne_opts
    | opt k arg =>
      simp only [applyAll, applyOption_eq]
      constructor
      · intro h
        cases hm : meaning k (arg.getD []) with
        | error e =>
          rw [hm] at h
          cases h
        | ok s =>
          rw [hm] at h
          obtain ⟨es, ss, rfl, hss, rfl, rfl⟩ := ih.1 h
          exact ⟨(k, arg) :: es, s :: ss, rfl, .cons hm hss, rfl, by simp; omega⟩
      · rintro ⟨es, ss, hes, hss, rfl, rfl⟩
        obtain ⟨e, es, rfl, he, hrest⟩ := cons_eq_opts hes
        obtain ⟨rfl, rfl⟩ := Found.opt.inj he
        cases hss with
        | cons hm hss =>
          rw [hm]
          refine ih.2 ⟨es, _, hrest, hss, rfl, ?_⟩
          simp
          omega

/-- No option means a device without a name. -/
theorem meaning_devName {k : Opt} {arg : Text} : meaning k arg ≠ .ok ⟨.devName, none⟩ := by
  cases k with
  | chipWeight =>
    simp only [meaning]
    cases scanWeights arg <;> simp
  | affinityMode =>
    simp only [meaning]
    cases affinityOf arg <;> simp
  | op =>
    simp only [meaning]
    cases opOf arg <;> simp
  | _ => simp [meaning]

theorem lastOf_devName {es : List (Opt × Option Text)} {ss : List Setting} (h : Means es ss) :
    lastOf Field.devName ss ≠ some none := by
  induction h with
  | nil => simp [lastOf]
  | @cons e s es ss hm _ ih =>
    simp only [lastOf]
    cases hl : lastOf Field.devName ss with
    | some v => simpa [hl] using ih
    | none =>
      obtain ⟨f, v⟩ := s
      by_cases hf : f = .devName
      · subst hf
        simp only [Option.none_or, dite_true, ne_eq, Option.some.injEq]
        rintro rfl
        exact meaning_devName hm
      · simp [hf]

/-- The name of the device is the last one given, or else `bonding0`. -/
theorem named_eq {es : List (Opt × Option Text)} {ss : List Setting} (h : Means es ss) :
    (if (ss.foldl CommandLine.set defaults).devName = none then
      { ss.foldl CommandLine.set defaults with devName := some "bonding0".toList }
      else ss.foldl CommandLine.set defaults) = ofValues fun f => (lastOf f ss).getD (initial.get f) := by
  have hget := get_foldl_set ss defaults
  have hname := hget .devName
  refine ext_get fun f => ?_
  rw [get_ofValues]
  by_cases hf : f = .devName
  · subst hf
    cases hl : lastOf Field.devName ss with
    | none =>
      have hnone : (ss.foldl CommandLine.set defaults).devName = none := by
        rw [hl] at hname
        exact hname
      rw [if_pos hnone]
      rfl
    | some v =>
      rw [hl] at hname
      have hne : (ss.foldl CommandLine.set defaults).devName ≠ none := by
        intro hnone
        exact lastOf_devName h (hl.trans (congrArg some (hname.symm.trans hnone)))
      rw [if_neg hne]
      exact hname
  · have hinit : initial.get f = defaults.get f := by
      cases f <;> first | rfl | exact absurd rfl hf
    rw [hinit, ← hget f]
    split_ifs
    · cases f <;> first | rfl | exact absurd rfl hf
    · rfl

theorem finish_iff {c c' : CommandLine} :
    finish c = .ok c' ↔ validateInputParams c.toArgument = .ok () ∧ c' = c := by
  unfold finish
  cases h : validateInputParams c.toArgument with
  | error e => simp
  | ok => simp [eq_comm]

theorem parseArguments_denotes {argv : List Text} {c : CommandLine}
    (h : parseArguments (fun _ => true) argv = .ok c) :
    argv ≠ [] ∧ Denotes argv c ∧ validateInputParams c.toArgument = .ok () := by
  unfold parseArguments at h
  by_cases hargv : argv = []
  · simp [hargv] at h
  rw [if_neg hargv] at h
  refine ⟨hargv, ?_⟩
  rcases hscan : getoptLong options none argv with ⟨found, operands⟩
  rw [hscan] at h
  simp only at h
  rcases hall : applyAll (fun _ => true) 0 found defaults with e | ⟨args, n⟩
  · rw [hall] at h
    cases h
  rw [hall] at h
  obtain ⟨es, ss, rfl, hss, rfl, -⟩ := applyAll_iff.1 hall
  by_cases hop : operands = []
  · subst hop
    simp only [ne_eq, not_true_eq_false, if_false, if_true] at h
    rw [← apply_ite finish, named_eq hss] at h
    obtain ⟨hvalid, rfl⟩ := finish_iff.1 h
    refine ⟨⟨es, ss, getoptLong_eq_iff.1 hscan, hss, fun f => ?_⟩, hvalid⟩
    rw [get_ofValues]
  · simp only [ne_eq, hop, not_false_eq_true, if_true] at h
    cases h

theorem parseArguments_of_denotes {argv : List Text} {c : CommandLine} (hargv : argv ≠ [])
    (hdenotes : Denotes argv c) (hvalid : validateInputParams c.toArgument = .ok ()) :
    parseArguments (fun _ => true) argv = .ok c := by
  obtain ⟨es, ss, hspelled, hss, hget⟩ := hdenotes
  have hall : applyAll (fun _ => true) 0 (opts es) defaults =
      .ok (ss.foldl CommandLine.set defaults, 0 + es.length) :=
    applyAll_iff.2 ⟨es, ss, rfl, hss, rfl, rfl⟩
  unfold parseArguments
  rw [if_neg hargv, getoptLong_eq_iff.2 hspelled]
  simp only [hall, ne_eq, not_true_eq_false, if_false, if_true]
  rw [← apply_ite finish, named_eq hss]
  have hc : c = ofValues fun f => (lastOf f ss).getD (initial.get f) := by
    refine ext_get fun f => ?_
    rw [hget, get_ofValues]
  rw [← hc]
  exact finish_iff.2 ⟨hvalid, rfl⟩

/-- **What `parse_arguments` accepts.** The words have to spell options of the table, with nothing left
over; every option must have a meaning; and the arguments, which are what the command line denotes, must
pass `validate_input_params`. -/
theorem parseArguments_iff (argv : List Text) (c : CommandLine) :
    parseArguments (fun _ => true) argv = .ok c ↔
      argv ≠ [] ∧ Denotes argv c ∧ validateInputParams c.toArgument = .ok () :=
  ⟨parseArguments_denotes, fun ⟨hargv, hdenotes, hvalid⟩ =>
    parseArguments_of_denotes hargv hdenotes hvalid⟩

end KvBench.Cli
