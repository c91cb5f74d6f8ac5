import Mathlib.Data.List.Basic
import Mathlib.Tactic

/-!
# The two parsers of CPU lists

`apply_cpu_list` pins the server to the CPUs of `--destination-cpus`; `parse_cpu_list` reads the
same option to choose chips and NUMA nodes. The documented syntax is a comma-separated list of CPUs
and ranges (`0,2,4-7`). The first parser wants every item to be a number and refuses a range, so the
two agree exactly on the lists without ranges (`cpu_lists_agree_iff`).

Strings are lists of characters without their terminator. `strtok` is the list of the tokens that
its successive calls return; `strtol` returns its value and the rest of the string, which is what
`end` points to.
-/

namespace KvBench.Bench

/-! ### The functions of the C library -/

/-- `isspace`. -/
def isSpace (c : Char) : Bool := c.toNat = 32 ∨ (9 ≤ c.toNat ∧ c.toNat ≤ 13)

/-- `isdigit`. -/
def isDigit (c : Char) : Bool := 48 ≤ c.toNat ∧ c.toNat ≤ 57

/-- The value of a sequence of digits. -/
def digitsVal (ds : List Char) : ℕ := ds.foldl (fun v c => v * 10 + (c.toNat - 48)) 0

/-- The sign of a number, and what follows it. -/
def signOf : List Char → ℤ × List Char
  | '-' :: s => (-1, s)
  | '+' :: s => (1, s)
  | s => (1, s)

/-- `strtol` in base ten: the value, in the range of `long`, and the rest of the string. Without a
digit the rest is the whole string. -/
def strtol (s : List Char) : ℤ × List Char :=
  let (sign, u) := signOf (s.dropWhile isSpace)
  let ds := u.takeWhile isDigit
  if ds = [] then (0, s)
  else (max (-2 ^ 63) (min (sign * digitsVal ds) (2 ^ 63 - 1)), u.dropWhile isDigit)

/-- `atoi`. -/
def atoi (s : List Char) : ℤ := (strtol s).1.bmod (2 ^ 32)

/-- The tokens of `strtok(s, ",")`. -/
def strtok (s : List Char) : List (List Char) := (s.splitOn ',').filter (· ≠ [])

/-! ### The parsers -/

/-- `CPU_SETSIZE`. -/
def cpuSetSize : ℤ := 1024

/-- One token of `apply_cpu_list`: the new set, or `none` when it returns `-1`. -/
def addCpu (set : Finset ℤ) (part : List Char) : Option (Finset ℤ) :=
  let (cpu, rest) := strtol part
  if rest = part ∨ rest ≠ [] ∨ cpu < 0 ∨ cpuSetSize ≤ cpu then none else some (insert cpu set)

/-- `apply_cpu_list`: what it returns, and the set it has handed to `sched_setaffinity`, if it came
to that. `setAffinity` is what that call returns, `strdupOk` says whether `strdup` succeeds. -/
def applyCpuList (setAffinity : Finset ℤ → ℤ) (strdupOk : Bool) (list : Option (List Char)) :
    ℤ × Option (Finset ℤ) :=
  match list with
  | none => (0, none)
  | some s =>
    if s = [] then (0, none)
    else if strdupOk = false then (-1, none)
    else
      match (strtok s).foldlM addCpu ∅ with
      | none => (-1, none)
      | some set => (setAffinity set, some set)

/-- The bounds of an item of `parse_cpu_list`. -/
def itemBounds (part : List Char) : ℤ × ℤ :=
  if '-' ∈ part then
    (atoi (part.takeWhile (· ≠ '-')), atoi ((part.dropWhile (· ≠ '-')).drop 1))
  else (atoi part, atoi part)

/-- The CPUs `lo .. hi`. -/
def cpuRange (lo hi : ℤ) : List ℤ := (List.range (hi - lo + 1).toNat).map fun (k : ℕ) => lo + (k : ℤ)

/-- One token of `parse_cpu_list`; `out` has room for `maxOut` CPUs. -/
def addItem (maxOut : ℕ) (out : List ℤ) (part : List Char) : List ℤ :=
  let (lo, hi) := itemBounds part
  if maxOut ≤ out.length ∨ lo < 0 ∨ hi < lo then out
  else out ++ (cpuRange lo hi).take (maxOut - out.length)

/-- `parse_cpu_list`: the CPUs it has written to `out`. -/
def parseCpuList (maxOut : ℕ) (strdupOk : Bool) (list : Option (List Char)) : List ℤ :=
  match list with
  | none => []
  | some s =>
    if s = [] then []
    else if strdupOk = false then []
    else (strtok s).foldl (addItem maxOut) []

/-! ### The documented syntax -/

/-- A decimal number, as it is written. -/
structure Numeral where
  digits : List Char
  nonempty : digits ≠ []
  decimal : ∀ c ∈ digits, isDigit c = true

/-- The number written. -/
def Numeral.val (n : Numeral) : ℕ := digitsVal n.digits

/-- An item of a CPU list. -/
inductive CpuItem where
  | cpu (n : Numeral)
  | range (n m : Numeral)

/-- How an item is written. -/
def CpuItem.text : CpuItem → List Char
  | .cpu n => n.digits
  | .range n m => n.digits ++ '-' :: m.digits

/-- The bounds of an item. -/
def CpuItem.lo : CpuItem → ℕ
  | .cpu n => n.val
  | .range n _ => n.val

@[inherit_doc CpuItem.lo]
def CpuItem.hi : CpuItem → ℕ
  | .cpu n => n.val
  | .range _ m => m.val

/-- The CPUs an item lists. -/
def CpuItem.cpus (item : CpuItem) : List ℤ := cpuRange item.lo item.hi

/-- Whether an item is a single CPU. -/
def CpuItem.single : CpuItem → Bool
  | .cpu _ => true
  | .range _ _ => false

/-- How a list is written. -/
def cpuListText (items : List CpuItem) : List Char := [','].intercalate (items.map CpuItem.text)

/-- The lists that the two parsers are made for: items with `n ≤ m < 1024`, and at most 1024 CPUs
in total. -/
structure WellFormed (items : List CpuItem) : Prop where
  nonempty : items ≠ []
  bounds : ∀ item ∈ items, item.lo ≤ item.hi ∧ item.hi < 1024
  total : (items.flatMap CpuItem.cpus).length ≤ 1024

/-! ### Reading numbers -/

theorem isDigit_iff (c : Char) : isDigit c = true ↔ 48 ≤ c.toNat ∧ c.toNat ≤ 57 := by
  simp [isDigit]

theorem not_space_of_digit {c : Char} (h : isDigit c = true) : isSpace c = false := by
  rw [isDigit_iff] at h
  simp only [isSpace, decide_eq_false_iff_not]
  omega

theorem ne_of_digit {c d : Char} (h : isDigit c = true) (hd : isDigit d = false) : c ≠ d := by
  rintro rfl
  rw [h] at hd
  cases hd

theorem signOf_of_digit {c : Char} (h : isDigit c = true) (s : List Char) :
    signOf (c :: s) = (1, c :: s) := by
  have h1 : c ≠ '-' := ne_of_digit h (by decide)
  have h2 : c ≠ '+' := ne_of_digit h (by decide)
  unfold signOf
  split <;> simp_all

/-- **A number is read** up to the first character that is not a digit. -/
theorem strtol_numeral (n : Numeral) (hn : n.val < 2 ^ 63) (rest : List Char)
    (hrest : rest.takeWhile isDigit = []) : strtol (n.digits ++ rest) = ((n.val : ℤ), rest) := by
  obtain ⟨c, ds, hc⟩ := List.exists_cons_of_ne_nil n.nonempty
  have hdigit : isDigit c = true := n.decimal c (by simp [hc])
  have hspace : (n.digits ++ rest).dropWhile isSpace = n.digits ++ rest := by
    rw [hc, List.cons_append, List.dropWhile_cons, not_space_of_digit hdigit]
    simp
  have hsign : signOf (n.digits ++ rest) = (1, n.digits ++ rest) := by
    rw [hc]
    exact signOf_of_digit hdigit _
  have hdrop : rest.dropWhile isDigit = rest := by
    have := List.takeWhile_append_dropWhile (p := isDigit) (l := rest)
    rwa [hrest] at this
  have htake : (n.digits ++ rest).takeWhile isDigit = n.digits := by
    rw [List.takeWhile_append_of_pos n.decimal, hrest, List.append_nil]
  have hval : digitsVal n.digits < 2 ^ 63 := hn
  simp only [strtol, hspace, hsign, htake, List.dropWhile_append_of_pos n.decimal, hdrop,
    if_neg n.nonempty, one_mul, Numeral.val, Prod.mk.injEq, and_true]
  rw [min_eq_left (by omega), max_eq_right (by omega)]

theorem atoi_numeral (n : Numeral) (hn : n.val < 2 ^ 31) : atoi n.digits = n.val := by
  have h := strtol_numeral n (by omega) [] rfl
  rw [List.append_nil] at h
  unfold atoi
  rw [h]
  exact Int.bmod_eq_of_le (by omega) (by omega)

/-! ### Reading items -/

theorem comma_not_mem_text (item : CpuItem) : ',' ∉ item.text := by
  have hdigits : ∀ n : Numeral, ',' ∉ n.digits := fun n hmem =>
    absurd (n.decimal _ hmem) (by decide)
  cases item with
  | cpu n => exact hdigits n
  | range n m => simp [CpuItem.text, hdigits n, hdigits m]

theorem text_ne_nil (item : CpuItem) : item.text ≠ [] := by
  cases item with
  | cpu n => exact n.nonempty
  | range n m => simp [CpuItem.text]

/-- `strtok` finds the items. -/
theorem strtok_cpuListText {items : List CpuItem} (hne : items ≠ []) :
    strtok (cpuListText items) = items.map CpuItem.text := by
  have hcomma : ∀ l ∈ items.map CpuItem.text, ',' ∉ l := by
    simp only [List.mem_map]
    rintro _ ⟨item, -, rfl⟩
    exact comma_not_mem_text item
  unfold strtok cpuListText
  rw [List.splitOn_intercalate ',' hcomma (by simpa using hne), List.filter_eq_self]
  simp only [List.mem_map]
  rintro _ ⟨item, -, rfl⟩
  simpa using text_ne_nil item

theorem dash_not_mem_digits (n : Numeral) : '-' ∉ n.digits := fun hmem =>
  absurd (n.decimal _ hmem) (by decide)

theorem itemBounds_text {item : CpuItem} (hle : item.lo ≤ item.hi) (hlt : item.hi < 1024) :
    itemBounds item.text = ((item.lo : ℤ), (item.hi : ℤ)) := by
  cases item with
  | cpu n =>
    have hn : n.val < 2 ^ 31 := by simp only [CpuItem.hi] at hlt; omega
    simp only [itemBounds, CpuItem.text, if_neg (dash_not_mem_digits n), atoi_numeral n hn,
      CpuItem.lo, CpuItem.hi]
  | range n m =>
    simp only [CpuItem.lo, CpuItem.hi] at hle hlt
    have hall : ∀ c ∈ n.digits, decide (c ≠ '-') = true := fun c hc => by
      simpa using ne_of_digit (n.decimal c hc) (by decide)
    simp only [itemBounds, CpuItem.text, List.mem_append, List.mem_cons, true_or, or_true, if_true,
      List.takeWhile_append_of_pos hall, List.dropWhile_append_of_pos hall]
    simp [atoi_numeral n (by omega), atoi_numeral m (by omega), CpuItem.lo, CpuItem.hi]

/-- `apply_cpu_list` takes a CPU and refuses a range. -/
theorem addCpu_text {item : CpuItem} (hle : item.lo ≤ item.hi) (hlt : item.hi < 1024)
    (set : Finset ℤ) :
    addCpu set item.text = if item.single then some (insert (item.lo : ℤ) set) else none := by
  cases item with
  | cpu n =>
    simp only [CpuItem.hi] at hlt
    have h := strtol_numeral n (by omega) [] rfl
    rw [List.append_nil] at h
    simp only [addCpu, CpuItem.text, h, CpuItem.single, if_true, CpuItem.lo]
    rw [if_neg]
    have hne := n.nonempty
    simp only [cpuSetSize, ne_eq, not_true_eq_false, false_or, not_or, not_lt, not_le]
    exact ⟨fun heq => hne heq.symm, by omega, by omega⟩
  | range n m =>
    simp only [CpuItem.lo, CpuItem.hi] at hle hlt
    have h := strtol_numeral n (by omega) ('-' :: m.digits) rfl
    simp [addCpu, CpuItem.text, h, CpuItem.single]

/-! ### Reading lists -/

theorem length_cpuRange (lo hi : ℕ) : (cpuRange lo hi).length = hi + 1 - lo := by
  simp only [cpuRange, List.length_map, List.length_range]
  omega

theorem CpuItem.cpus_of_single {item : CpuItem} (h : item.single = true) :
    item.cpus = [(item.lo : ℤ)] := by
  cases item with
  | cpu n => simp [CpuItem.cpus, CpuItem.lo, CpuItem.hi, cpuRange]
  | range n m => simp [CpuItem.single] at h

/-- **`apply_cpu_list`** accepts a list of single CPUs, and no other. -/
theorem foldlM_addCpu {items : List CpuItem}
    (hb : ∀ item ∈ items, item.lo ≤ item.hi ∧ item.hi < 1024) (set : Finset ℤ) :
    (items.map CpuItem.text).foldlM addCpu set =
      if ∀ item ∈ items, item.single = true then
        some (set ∪ (items.flatMap CpuItem.cpus).toFinset)
      else none := by
  induction items generalizing set with
  | nil => simp
  | cons item items ih =>
    have hitem := hb item (by simp)
    have hrest := ih fun i hi => hb i (by simp [hi])
    rw [List.map_cons, List.foldlM_cons, addCpu_text hitem.1 hitem.2]
    cases hs : item.single with
    | false => simp [hs]
    | true =>
      simp only [if_true, Option.bind_eq_bind, Option.bind_some, hrest, List.forall_mem_cons, hs,
        true_and, List.flatMap_cons, CpuItem.cpus_of_single hs]
      congr 2
      ext x
      simp only [Finset.mem_union, Finset.mem_insert, List.toFinset_append, List.mem_toFinset,
        List.mem_singleton]
      tauto

/-- **`parse_cpu_list`** lists the CPUs of all items, as long as there is room for them. -/
theorem foldl_addItem {items : List CpuItem} {maxOut : ℕ}
    (hb : ∀ item ∈ items, item.lo ≤ item.hi ∧ item.hi < 1024) (out : List ℤ)
    (hroom : out.length + (items.flatMap CpuItem.cpus).length ≤ maxOut) :
    (items.map CpuItem.text).foldl (addItem maxOut) out = out ++ items.flatMap CpuItem.cpus := by
  induction items generalizing out with
  | nil => simp
  | cons item items ih =>
    obtain ⟨hle, hlt⟩ := hb item (by simp)
    have hlen := length_cpuRange item.lo item.hi
    rw [List.flatMap_cons, List.length_append] at hroom
    have hcpus : item.cpus.length = item.hi + 1 - item.lo := hlen
    have hadd : addItem maxOut out item.text = out ++ item.cpus := by
      simp only [addItem, itemBounds_text hle hlt]
      rw [if_neg (by omega), List.take_of_length_le (by omega)]
      rfl
    rw [List.map_cons, List.foldl_cons, hadd,
      ih (fun i hi => hb i (by simp [hi])) _ (by simp only [List.length_append]; omega),
      List.flatMap_cons, List.append_assoc]

/-- **The two parsers agree exactly on the lists without ranges**: `apply_cpu_list` then pins to the
CPUs that `parse_cpu_list` returns; a list with a range it refuses. -/
theorem cpu_lists_agree_iff (items : List CpuItem) (hwf : WellFormed items) :
    (∃ set, applyCpuList (fun _ => 0) true (some (cpuListText items)) = (0, some set) ∧
      set = (parseCpuList 1024 true (some (cpuListText items))).toFinset) ↔
    ∀ item ∈ items, item.single = true := by
  have htok := strtok_cpuListText hwf.nonempty
  have hne : cpuListText items ≠ [] := by
    intro hnil
    rw [hnil] at htok
    exact hwf.nonempty (List.map_eq_nil_iff.1 htok.symm)
  have hparse : parseCpuList 1024 true (some (cpuListText items)) =
      items.flatMap CpuItem.cpus := by
    simp only [parseCpuList, if_neg hne, Bool.true_eq_false, if_false, htok]
    rw [foldl_addItem hwf.bounds [] (by simpa using hwf.total), List.nil_append]
  have happly : applyCpuList (fun _ => 0) true (some (cpuListText items)) =
      if ∀ item ∈ items, item.single = true then
        (0, some (items.flatMap CpuItem.cpus).toFinset)
      else (-1, none) := by
    simp only [applyCpuList, if_neg hne, Bool.true_eq_false, if_false, htok,
      foldlM_addCpu hwf.bounds, Finset.empty_union]
    split_ifs <;> rfl
  rw [hparse, happly]
  constructor
  · rintro ⟨set, heq, -⟩
    by_contra hnot
    rw [if_neg hnot] at heq
    simp at heq
  · intro hall
    rw [if_pos hall]
    exact ⟨_, rfl, rfl⟩

/-- A number of one digit. -/
def digit (d : Fin 10) : Numeral where
  digits := [Char.ofNat (48 + d)]
  nonempty := by simp
  decimal := by
    rw [List.forall_mem_singleton]
    revert d
    decide

/-- The list `0,2`. -/
theorem cpu_lists_agree_iff_two :
    ∃ set, applyCpuList (fun _ => 0) true (some ['0', ',', '2']) = (0, some set) ∧
      set = (parseCpuList 1024 true (some ['0', ',', '2'])).toFinset :=
  (cpu_lists_agree_iff [.cpu (digit 0), .cpu (digit 2)]
    ⟨by simp, by decide, by decide⟩).2 (by decide)

/-- The documented list `0,2,4-7`: one parser refuses it, the other returns six CPUs. -/
theorem cpu_lists_disagree :
    cpuListText [.cpu (digit 0), .cpu (digit 2), .range (digit 4) (digit 7)] =
        ['0', ',', '2', ',', '4', '-', '7'] ∧
      applyCpuList (fun _ => 0) true (some ['0', ',', '2', ',', '4', '-', '7']) = (-1, none) ∧
      parseCpuList 1024 true (some ['0', ',', '2', ',', '4', '-', '7']) = [0, 2, 4, 5, 6, 7] := by
  decide

end KvBench.Bench
