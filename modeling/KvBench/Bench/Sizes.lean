import KvBench.Bench.Args
import KvBench.Bench.CpuList
import Mathlib.Data.List.TakeWhile

/-!
# Size options

`parse_size` reads the sizes of the options: a number in the syntax of C, followed by `K`, `M` or `G`
for a power of 1024. `SizeText` is that syntax, with the exact value.

The number is read by `strtoull` with base 0, as the C standard describes it: white space, a sign, and
a decimal, octal (`0`) or hexadecimal (`0x`) constant. A minus sign negates modulo `2 ^ 64`, and a
number that does not fit is replaced by the largest one that does. `parse_size` accepts all that,
ignores what follows the letter, and multiplies modulo `2 ^ 64`. So a size is handled exactly when it
is in the syntax and fits, when it is not read at all, or when the remainder happens to be zero
(`sizeExact_iff`).
-/

namespace KvBench.Bench

/-! ### `strtoull` -/

/-- `isxdigit`. -/
def isXDigit (c : Char) : Bool :=
  isDigit c || (97 ≤ c.toNat && c.toNat ≤ 102) || (65 ≤ c.toNat && c.toNat ≤ 70)

/-- The digits of octal numbers. -/
def isOctal (c : Char) : Bool := 48 ≤ c.toNat && c.toNat ≤ 55

/-- The value of a digit. -/
def digitValue (c : Char) : ℕ :=
  if isDigit c then c.toNat - 48 else if 97 ≤ c.toNat then c.toNat - 87 else c.toNat - 55

/-- The value of a sequence of digits. -/
def numeralVal (base : ℕ) (ds : List Char) : ℕ :=
  ds.foldl (fun v c => v * base + digitValue c) 0

/-- The sign of a number, if it has one, and what follows it. -/
def signText : List Char → Option Char × List Char
  | '-' :: s => (some '-', s)
  | '+' :: s => (some '+', s)
  | s => (none, s)

/-- Whether a hexadecimal number goes on after its zero. -/
def startsHex : List Char → Bool
  | x :: d :: _ => (x = 'x' || x = 'X') && isXDigit d
  | _ => false

/-- The longest number at the start of a string, and what follows it. -/
def scanNumber : List Char → Option (ℕ × List Char)
  | '0' :: u =>
    if startsHex u then
      some (numeralVal 16 ((u.drop 1).takeWhile isXDigit), (u.drop 1).dropWhile isXDigit)
    else some (numeralVal 8 (u.takeWhile isOctal), u.dropWhile isOctal)
  | u =>
    if u.takeWhile isDigit = [] then none
    else some (numeralVal 10 (u.takeWhile isDigit), u.dropWhile isDigit)

/-- What `strtoull` finds in a string: the sign, the number before it is brought into range, and the
rest. -/
def scan (s : List Char) : Option (Option Char × ℕ × List Char) :=
  let (sign, u) := signText (s.dropWhile isSpace)
  (scanNumber u).map fun (n, rest) => (sign, n, rest)

/-- A number in the range of `unsigned long long`. -/
def toWord (sign : Option Char) (n : ℕ) : ℕ :=
  if 2 ^ 64 ≤ n then 2 ^ 64 - 1 else if sign = some '-' then (2 ^ 64 - n) % 2 ^ 64 else n

/-- `strtoull` with base 0: the value, and the rest of the string. Without a number the rest is the
whole string. -/
def strtoull (s : List Char) : ℕ × List Char :=
  match scan s with
  | none => (0, s)
  | some (sign, n, rest) => (toWord sign n, rest)

/-- `parse_size`. -/
def parseSize (text : List Char) : ℕ :=
  let (value, rest) := strtoull text
  if rest = text then 0
  else
    match rest with
    | [] => value
    | c :: _ =>
      if c = 'K' ∨ c = 'k' then value * 1024 % 2 ^ 64
      else if c = 'M' ∨ c = 'm' then value * (1024 * 1024) % 2 ^ 64
      else if c = 'G' ∨ c = 'g' then value * (1024 * 1024 * 1024) % 2 ^ 64
      else 0

/-- The letter at the start of a text: its binary logarithm, and what follows it. -/
def suffixOf : List Char → Option (ℕ × List Char)
  | [] => some (0, [])
  | c :: after =>
    if c = 'K' ∨ c = 'k' then some (10, after)
    else if c = 'M' ∨ c = 'm' then some (20, after)
    else if c = 'G' ∨ c = 'g' then some (30, after)
    else none

/-! ### The syntax of sizes -/

/-- A constant without a sign, and its value. -/
inductive Constant : List Char → ℕ → Prop where
  | decimal {c : Char} {ds : List Char} (hc : isDigit c = true) (h0 : c ≠ '0')
    (hds : ∀ d ∈ ds, isDigit d = true) : Constant (c :: ds) (numeralVal 10 (c :: ds))
  | octal {ds : List Char} (hds : ∀ d ∈ ds, isOctal d = true) :
    Constant ('0' :: ds) (numeralVal 8 ds)
  | hex {x : Char} {ds : List Char} (hx : x = 'x' ∨ x = 'X') (hne : ds ≠ [])
    (hds : ∀ d ∈ ds, isXDigit d = true) : Constant ('0' :: x :: ds) (numeralVal 16 ds)

/-- A letter for a power of 1024, and its binary logarithm. -/
inductive Suffix : List Char → ℕ → Prop where
  | none : Suffix [] 0
  | kilo {c : Char} (h : c = 'K' ∨ c = 'k') : Suffix [c] 10
  | mega {c : Char} (h : c = 'M' ∨ c = 'm') : Suffix [c] 20
  | giga {c : Char} (h : c = 'G' ∨ c = 'g') : Suffix [c] 30

/-- **A size, and its exact value.** The white space that `strtoull` skips is part of the syntax. -/
def SizeText (s : List Char) (v : ℕ) : Prop :=
  ∃ space number letter n k, s = space ++ (number ++ letter) ∧ (∀ c ∈ space, isSpace c = true) ∧
    Constant number n ∧ Suffix letter k ∧ v = n * 2 ^ k

/-- **A size option is handled exactly**: what is not zero is the value of the text, and a text that
is no size, or none that fits, gives zero and is rejected. -/
structure SizeExact (s : List Char) : Prop where
  exact : parseSize s ≠ 0 → SizeText s (parseSize s)
  other : (∀ v, v ≠ 0 → v < 2 ^ 64 → ¬ SizeText s v) → parseSize s = 0 ∧
    ∀ args : Argument, validateInputParams { args with valueSize := parseSize s } ≠ .ok () ∧
      validateInputParams { args with sendSize := parseSize s } ≠ .ok ()

/-! ### Characters -/

theorem isXDigit_of_isDigit {c : Char} (h : isDigit c = true) : isXDigit c = true := by
  simp [isXDigit, h]

theorem isDigit_of_isOctal {c : Char} (h : isOctal c = true) : isDigit c = true := by
  simp only [isOctal, Bool.and_eq_true, decide_eq_true_eq] at h
  rw [isDigit_iff]
  omega

/-- A text that a number does not go on with. -/
def Stops (rest : List Char) : Prop :=
  ∀ c ∈ rest.head?, isXDigit c = false ∧ c ≠ 'x' ∧ c ≠ 'X'

theorem Suffix.stops {letter : List Char} {k : ℕ} (h : Suffix letter k) : Stops letter := by
  intro c hc
  cases h with
  | none => cases hc
  | kilo h | mega h | giga h =>
    obtain rfl : _ = c := by simpa using hc
    rcases h with rfl | rfl <;> decide

theorem Stops.takeWhile_eq_nil {rest : List Char} (h : Stops rest) {p : Char → Bool}
    (hp : ∀ c, p c = true → isXDigit c = true) : rest.takeWhile p = [] := by
  cases rest with
  | nil => rfl
  | cons c rest =>
    have hc : p c = false := by
      by_contra hpc
      have := (h c rfl).1
      rw [hp c (by simpa using hpc)] at this
      cases this
    rw [List.takeWhile_cons, hc]
    rfl

theorem takeWhile_append_of_nil {p : Char → Bool} {ds rest : List Char}
    (hds : ∀ d ∈ ds, p d = true) (hrest : rest.takeWhile p = []) :
    (ds ++ rest).takeWhile p = ds ∧ (ds ++ rest).dropWhile p = rest := by
  rw [List.takeWhile_append_of_pos hds, List.dropWhile_append_of_pos hds, hrest, List.append_nil]
  have hsplit := List.takeWhile_append_dropWhile (p := p) (l := rest)
  rw [hrest, List.nil_append] at hsplit
  exact ⟨rfl, hsplit⟩

theorem startsHex_of_ne {c : Char} {u : List Char} (h : c ≠ 'x' ∧ c ≠ 'X') :
    startsHex (c :: u) = false := by
  cases u with
  | nil => rfl
  | cons d u => simp [startsHex, h.1, h.2]

/-! ### Reading a number -/

/-- **What is read is a constant.** -/
theorem scanNumber_sound {u rest : List Char} {n : ℕ} (h : scanNumber u = some (n, rest)) :
    ∃ number, u = number ++ rest ∧ Constant number n := by
  unfold scanNumber at h
  split at h
  · rename_i u
    split at h
    · rename_i hhex
      obtain ⟨rfl, rfl⟩ : _ = n ∧ _ = rest := by simpa using h
      match u, hhex with
      | x :: d :: u, hhex =>
        simp only [startsHex, Bool.and_eq_true, Bool.or_eq_true, decide_eq_true_eq] at hhex
        refine ⟨'0' :: x :: (d :: u).takeWhile isXDigit, ?_, .hex hhex.1 ?_
          fun c hc => List.mem_takeWhile_imp hc⟩
        · simp [List.takeWhile_append_dropWhile]
        · simp [hhex.2]
    · obtain ⟨rfl, rfl⟩ : _ = n ∧ _ = rest := by simpa using h
      exact ⟨'0' :: u.takeWhile isOctal, by simp [List.takeWhile_append_dropWhile],
        .octal fun c hc => List.mem_takeWhile_imp hc⟩
  · rename_i hzero
    split at h
    · cases h
    · rename_i hne
      obtain ⟨rfl, rfl⟩ : _ = n ∧ _ = rest := by simpa using h
      refine ⟨u.takeWhile isDigit, (List.takeWhile_append_dropWhile).symm, ?_⟩
      cases u with
      | nil => exact absurd rfl hne
      | cons c u =>
        have hc : isDigit c = true := by
          by_contra hc
          exact hne (by simp [hc])
        have hdigits : (c :: u).takeWhile isDigit = c :: u.takeWhile isDigit := by
          rw [List.takeWhile_cons, hc]
          rfl
        rw [hdigits]
        refine .decimal hc ?_ fun d hd => List.mem_takeWhile_imp hd
        rintro rfl
        exact hzero u rfl

/-- **A constant is read**, up to a text that it does not go on with. -/
theorem scanNumber_complete {number rest : List Char} {n : ℕ} (h : Constant number n)
    (hrest : Stops rest) : scanNumber (number ++ rest) = some (n, rest) := by
  cases h with
  | @decimal c ds hc h0 hds =>
    have hall : ∀ d ∈ c :: ds, isDigit d = true := by simpa using ⟨hc, hds⟩
    obtain ⟨htake, hdrop⟩ := takeWhile_append_of_nil hall
      (hrest.takeWhile_eq_nil fun _ => isXDigit_of_isDigit)
    unfold scanNumber
    split
    · rename_i heq
      exact absurd (List.cons.inj heq).1 h0
    · rw [htake, hdrop, if_neg (List.cons_ne_nil _ _)]
  | @octal ds hds =>
    obtain ⟨htake, hdrop⟩ := takeWhile_append_of_nil hds
      (hrest.takeWhile_eq_nil fun _ h => isXDigit_of_isDigit (isDigit_of_isOctal h))
    have hhex : startsHex (ds ++ rest) = false := by
      cases ds with
      | nil =>
        cases rest with
        | nil => rfl
        | cons c rest => exact startsHex_of_ne (hrest c rfl).2
      | cons d ds =>
        have hd := isDigit_of_isOctal (hds d (by simp))
        exact startsHex_of_ne ⟨ne_of_digit hd (by decide), ne_of_digit hd (by decide)⟩
    simp only [List.cons_append, scanNumber, hhex, htake, hdrop]
    rfl
  | @hex x ds hx hne hds =>
    obtain ⟨htake, hdrop⟩ := takeWhile_append_of_nil hds (hrest.takeWhile_eq_nil fun _ h => h)
    obtain ⟨d, ds, rfl⟩ := List.exists_cons_of_ne_nil hne
    have hhex : startsHex (x :: d :: ds ++ rest) = true := by
      simp [startsHex, hx, hds d]
    simp only [List.cons_append, scanNumber] at hhex ⊢
    rw [if_pos hhex]
    simp only [List.drop_one, List.tail_cons]
    rw [← List.cons_append, htake, hdrop]

theorem Constant.exists_digit {number : List Char} {n : ℕ} (h : Constant number n) :
    ∃ c ds, number = c :: ds ∧ isDigit c = true := by
  cases h with
  | decimal hc _ _ => exact ⟨_, _, rfl, hc⟩
  | octal _ => exact ⟨_, _, rfl, by decide⟩
  | hex _ _ _ => exact ⟨_, _, rfl, by decide⟩

theorem signText_of_digit {c : Char} (h : isDigit c = true) (u : List Char) :
    signText (c :: u) = (none, c :: u) := by
  have h1 : c ≠ '-' := ne_of_digit h (by decide)
  have h2 : c ≠ '+' := ne_of_digit h (by decide)
  unfold signText
  split <;> simp_all

theorem signText_of_none {u : List Char} (h : (signText u).1 = none) : (signText u).2 = u := by
  unfold signText at h ⊢
  split <;> simp_all

theorem length_signText_le (u : List Char) : (signText u).2.length ≤ u.length := by
  unfold signText
  split <;> simp

theorem scan_eq_some {s rest : List Char} {sign : Option Char} {n : ℕ}
    (h : scan s = some (sign, n, rest)) :
    sign = (signText (s.dropWhile isSpace)).1 ∧
      scanNumber (signText (s.dropWhile isSpace)).2 = some (n, rest) := by
  simp only [scan, Option.map_eq_some_iff, Prod.exists, Prod.mk.injEq] at h
  obtain ⟨_, _, hnumber, rfl, rfl, rfl⟩ := h
  exact ⟨rfl, hnumber⟩

/-- **What is read without a sign** is white space and a constant. -/
theorem scan_sound {s rest : List Char} {n : ℕ} (h : scan s = some (none, n, rest)) :
    ∃ space number, s = space ++ (number ++ rest) ∧ (∀ c ∈ space, isSpace c = true) ∧
      Constant number n := by
  obtain ⟨hsign, hnumber⟩ := scan_eq_some h
  rw [signText_of_none hsign.symm] at hnumber
  obtain ⟨number, hsplit, hconst⟩ := scanNumber_sound hnumber
  refine ⟨s.takeWhile isSpace, number, ?_, fun c hc => List.mem_takeWhile_imp hc, hconst⟩
  rw [← hsplit, List.takeWhile_append_dropWhile]

theorem scan_complete {space number rest : List Char} {n : ℕ}
    (hspace : ∀ c ∈ space, isSpace c = true) (hnumber : Constant number n) (hrest : Stops rest) :
    scan (space ++ (number ++ rest)) = some (none, n, rest) := by
  have hscan := scanNumber_complete hnumber hrest
  obtain ⟨c, ds, rfl, hc⟩ := hnumber.exists_digit
  have hdrop : (space ++ (c :: ds ++ rest)).dropWhile isSpace = c :: ds ++ rest := by
    rw [List.dropWhile_append_of_pos hspace, List.cons_append, List.dropWhile_cons,
      not_space_of_digit hc]
    rfl
  simp only [scan, hdrop]
  rw [List.cons_append, signText_of_digit hc, ← List.cons_append, hscan]
  rfl

/-- A number is not empty, so that the text is shorter after it. -/
theorem scan_rest_ne {s rest : List Char} {sign : Option Char} {n : ℕ}
    (h : scan s = some (sign, n, rest)) : rest ≠ s := by
  obtain ⟨-, hnumber⟩ := scan_eq_some h
  obtain ⟨number, hsplit, hconst⟩ := scanNumber_sound hnumber
  obtain ⟨c, ds, rfl, -⟩ := hconst.exists_digit
  have hlen : rest.length < (signText (s.dropWhile isSpace)).2.length := by
    rw [hsplit]
    simp
  have hsign := length_signText_le (s.dropWhile isSpace)
  have hdrop := List.length_dropWhile_le isSpace s
  rintro rfl
  omega

/-! ### The value of a size -/

theorem suffixOf_eq_nil_iff {rest : List Char} {k : ℕ} :
    suffixOf rest = some (k, []) ↔ Suffix rest k := by
  constructor
  · intro h
    unfold suffixOf at h
    split at h
    · obtain rfl : 0 = k := by simpa using h
      exact .none
    · rename_i c after
      split at h
      · rename_i hc
        obtain ⟨rfl, rfl⟩ : 10 = k ∧ after = [] := by simpa using h
        exact .kilo hc
      · split at h
        · rename_i hc
          obtain ⟨rfl, rfl⟩ : 20 = k ∧ after = [] := by simpa using h
          exact .mega hc
        · split at h
          · rename_i hc
            obtain ⟨rfl, rfl⟩ : 30 = k ∧ after = [] := by simpa using h
            exact .giga hc
          · cases h
  · intro h
    cases h with
    | none => rfl
    | kilo h | mega h | giga h => rcases h with rfl | rfl <;> rfl

/-- The powers that occur. -/
theorem suffixOf_mem {rest after : List Char} {k : ℕ} (h : suffixOf rest = some (k, after)) :
    k = 0 ∨ k = 10 ∨ k = 20 ∨ k = 30 := by
  unfold suffixOf at h
  split at h
  · simp_all
  · split_ifs at h <;> simp_all

/-- **The syntax of sizes** in terms of what is read. -/
theorem sizeText_iff {s : List Char} {v : ℕ} :
    SizeText s v ↔ ∃ n rest k, scan s = some (none, n, rest) ∧ suffixOf rest = some (k, []) ∧
      v = n * 2 ^ k := by
  constructor
  · rintro ⟨space, number, letter, n, k, rfl, hspace, hnumber, hletter, hv⟩
    exact ⟨n, letter, k, scan_complete hspace hnumber hletter.stops,
      suffixOf_eq_nil_iff.2 hletter, hv⟩
  · rintro ⟨n, rest, k, hscan, hsuffix, hv⟩
    obtain ⟨space, number, hs, hspace, hnumber⟩ := scan_sound hscan
    exact ⟨space, number, rest, n, k, hs, hspace, hnumber, suffixOf_eq_nil_iff.1 hsuffix, hv⟩

theorem toWord_lt (sign : Option Char) (n : ℕ) : toWord sign n < 2 ^ 64 := by
  unfold toWord
  split_ifs <;> omega

/-- **What `parse_size` returns** when it finds a number. -/
theorem parseSize_of_scan {s rest : List Char} {sign : Option Char} {n : ℕ}
    (h : scan s = some (sign, n, rest)) :
    parseSize s = ((suffixOf rest).map fun p => toWord sign n * 2 ^ p.1 % 2 ^ 64).getD 0 := by
  have hword : toWord sign n % 2 ^ 64 = toWord sign n := Nat.mod_eq_of_lt (toWord_lt sign n)
  simp only [parseSize, strtoull, h]
  rw [if_neg (scan_rest_ne h)]
  unfold suffixOf
  split
  · simp only [Option.map_some, Option.getD_some, pow_zero, mul_one]
    exact hword.symm
  · have hkilo : 1024 = 2 ^ 10 := by norm_num
    have hmega : 1024 * 1024 = 2 ^ 20 := by norm_num
    have hgiga : 1024 * 1024 * 1024 = 2 ^ 30 := by norm_num
    rw [hgiga, hmega, hkilo]
    rename_i c after
    by_cases hk : c = 'K' ∨ c = 'k'
    · rw [if_pos hk, if_pos hk, Option.map_some, Option.getD_some]
    by_cases hm : c = 'M' ∨ c = 'm'
    · rw [if_neg hk, if_neg hk, if_pos hm, if_pos hm, Option.map_some, Option.getD_some]
    by_cases hg : c = 'G' ∨ c = 'g'
    · rw [if_neg hk, if_neg hk, if_neg hm, if_neg hm, if_pos hg, if_pos hg, Option.map_some,
        Option.getD_some]
    · rw [if_neg hk, if_neg hk, if_neg hm, if_neg hm, if_neg hg, if_neg hg, Option.map_none,
        Option.getD_none]

theorem parseSize_of_scan_none {s : List Char} (h : scan s = none) : parseSize s = 0 := by
  simp [parseSize, strtoull, h]

theorem parseSize_lt (s : List Char) : parseSize s < 2 ^ 64 := by
  cases h : scan s with
  | none =>
    rw [parseSize_of_scan_none h]
    norm_num
  | some found =>
    obtain ⟨sign, n, rest⟩ := found
    rw [parseSize_of_scan h]
    cases suffixOf rest with
    | none => norm_num
    | some suffix => exact Nat.mod_lt _ (by norm_num)

/-- The product is zero only by chance: a number out of range never gives zero. -/
theorem toWord_mul_eq_zero_iff {sign : Option Char} {n k : ℕ}
    (hk : k = 0 ∨ k = 10 ∨ k = 20 ∨ k = 30) :
    toWord sign n * 2 ^ k % 2 ^ 64 = 0 ↔ n < 2 ^ 64 ∧ 2 ^ 64 ∣ n * 2 ^ k := by
  unfold toWord
  by_cases hbig : 2 ^ 64 ≤ n
  · have hne : (2 ^ 64 - 1) * 2 ^ k % 2 ^ 64 ≠ 0 := by
      rcases hk with rfl | rfl | rfl | rfl <;> norm_num
    rw [if_pos hbig]
    exact ⟨fun h => absurd h hne, fun h => absurd h.1 (not_lt.2 hbig)⟩
  · rw [if_neg hbig]
    rcases hk with rfl | rfl | rfl | rfl <;> split_ifs <;> omega

theorem toWord_mul_of_lt {n k : ℕ} (hlt : n * 2 ^ k < 2 ^ 64) :
    toWord none n * 2 ^ k % 2 ^ 64 = n * 2 ^ k := by
  have hn : n < 2 ^ 64 := (Nat.le_mul_of_pos_right n (by positivity)).trans_lt hlt
  have hword : toWord none n = n := by
    rw [toWord, if_neg (not_le.2 hn), if_neg (by simp)]
  rw [hword, Nat.mod_eq_of_lt hlt]

theorem rejected_of_zero {v : ℕ} (hv : v = 0) (args : Argument) :
    validateInputParams { args with valueSize := v } ≠ .ok () ∧
      validateInputParams { args with sendSize := v } ≠ .ok () := by
  refine ⟨fun h => ?_, fun h => ?_⟩
  · exact (validateInputParams_accepted h).valueSize_pos.ne' hv
  · exact (validateInputParams_accepted h).sendSize_pos.ne' hv

/-- A size is handled exactly when what is returned is zero or exact. -/
theorem sizeExact_iff_parseSize {s : List Char} :
    SizeExact s ↔ parseSize s = 0 ∨ SizeText s (parseSize s) := by
  constructor
  · intro h
    by_cases hzero : parseSize s = 0
    · exact .inl hzero
    · exact .inr (h.exact hzero)
  · intro h
    refine ⟨h.resolve_left, fun hnone => ?_⟩
    have hzero : parseSize s = 0 := by
      by_contra hne
      exact hnone _ hne (parseSize_lt s) (h.resolve_left hne)
    exact ⟨hzero, rejected_of_zero hzero⟩

section Found

variable {s rest after : List Char} {sign : Option Char} {n k : ℕ}
  (hscan : scan s = some (sign, n, rest)) (hsuffix : suffixOf rest = some (k, after))
include hscan hsuffix

theorem parseSize_of_suffix : parseSize s = toWord sign n * 2 ^ k % 2 ^ 64 := by
  rw [parseSize_of_scan hscan, hsuffix, Option.map_some, Option.getD_some]

theorem parseSize_eq_zero_iff : parseSize s = 0 ↔ n < 2 ^ 64 ∧ 2 ^ 64 ∣ n * 2 ^ k := by
  rw [parseSize_of_suffix hscan hsuffix, toWord_mul_eq_zero_iff (suffixOf_mem hsuffix)]

/-- What is returned is the value of the text if the text is in the syntax and its value fits. -/
theorem sizeText_parseSize_iff :
    SizeText s (parseSize s) ↔ sign = none ∧ after = [] ∧ n * 2 ^ k < 2 ^ 64 := by
  constructor
  · intro htext
    obtain ⟨n', rest', k', hscan', hsuffix', hv⟩ := sizeText_iff.1 htext
    rw [hscan] at hscan'
    obtain ⟨rfl, rfl, rfl⟩ : sign = none ∧ n = n' ∧ rest = rest' := by simpa using hscan'
    rw [hsuffix] at hsuffix'
    obtain ⟨rfl, rfl⟩ : k = k' ∧ after = [] := by simpa using hsuffix'
    exact ⟨rfl, rfl, hv ▸ parseSize_lt s⟩
  · rintro ⟨rfl, rfl, hlt⟩
    rw [parseSize_of_suffix hscan hsuffix, toWord_mul_of_lt hlt]
    exact sizeText_iff.2 ⟨n, rest, k, hscan, hsuffix, rfl⟩

end Found

/-- **The sizes that are handled exactly.** When a number is found and the text after it is nothing
or starts with a letter, there must be no sign and nothing after the letter, and the product must
fit; or else the product must be divisible by `2 ^ 64`. Everything in the syntax that fits is read
as what it says. -/
theorem sizeExact_iff (s : List Char) :
    (SizeExact s ↔ ∀ sign n rest k after, scan s = some (sign, n, rest) →
      suffixOf rest = some (k, after) →
        (sign = none ∧ after = [] ∧ n * 2 ^ k < 2 ^ 64) ∨ (n < 2 ^ 64 ∧ 2 ^ 64 ∣ n * 2 ^ k)) ∧
    (∀ v < 2 ^ 64, SizeText s v → parseSize s = v) := by
  rw [sizeExact_iff_parseSize]
  refine ⟨⟨?_, ?_⟩, ?_⟩
  · intro h sign n rest k after hscan hsuffix
    rcases h with hzero | htext
    · exact .inr ((parseSize_eq_zero_iff hscan hsuffix).1 hzero)
    · exact .inl ((sizeText_parseSize_iff hscan hsuffix).1 htext)
  · intro h
    cases hscan : scan s with
    | none => exact .inl (parseSize_of_scan_none hscan)
    | some found =>
      obtain ⟨sign, n, rest⟩ := found
      cases hsuffix : suffixOf rest with
      | none =>
        left
        rw [parseSize_of_scan hscan, hsuffix, Option.map_none, Option.getD_none]
      | some suffix =>
        obtain ⟨k, after⟩ := suffix
        rcases h sign n rest k after hscan hsuffix with htext | hzero
        · exact .inr ((sizeText_parseSize_iff hscan hsuffix).2 htext)
        · exact .inl ((parseSize_eq_zero_iff hscan hsuffix).2 hzero)
  · intro v hv htext
    obtain ⟨n, rest, k, hscan, hsuffix, rfl⟩ := sizeText_iff.1 htext
    rw [parseSize_of_suffix hscan hsuffix, toWord_mul_of_lt hv]

/-- What follows the letter is ignored: `8KB` is no size, but it is read as `8K` and accepted. -/
theorem size_not_exact :
    parseSize ['8', 'K', 'B'] = 8192 ∧ (∀ v, ¬ SizeText ['8', 'K', 'B'] v) ∧
      validateInputParams { smallArgs .write 1 1 with valueSize := parseSize ['8', 'K', 'B'] } =
        .ok () := by
  have hscan : scan ['8', 'K', 'B'] = some (none, 8, ['K', 'B']) := by decide
  have hvalue : parseSize ['8', 'K', 'B'] = 8192 := by decide
  refine ⟨hvalue, fun v hv => ?_, by rw [hvalue]; decide⟩
  obtain ⟨n, rest, k, hscan', hsuffix, -⟩ := sizeText_iff.1 hv
  rw [hscan] at hscan'
  obtain ⟨rfl, rfl⟩ : 8 = n ∧ ['K', 'B'] = rest := by simpa using hscan'
  revert hsuffix
  simp [suffixOf]

end KvBench.Bench
