import Mathlib

/-!
# `getopt_long`

The scanner of command lines of the GNU C library, for options of any type: long options with their
abbreviations and `=`, letters in clusters, the argument in the same word or in the next one, operands
anywhere, and `--`.

`Spelled` is the language of command lines: which words spell which options. `getoptLong` reads a
command line without an error and without an operand exactly if it is in the language, and then it finds
the options that the words spell (`getoptLong_eq_iff`).

An option sets a field of a record. Fields are set in the order of the options, so the last one wins
(`foldl_set_apply`). A list of options can be spelled out with its long names (`render_spelled`).
-/

namespace KvBench.Cli

/-- A word of the command line. -/
abbrev Text := List Char

/-- An entry of the table of long options. -/
structure LongOption (K : Type*) where
  name : Text
  takesArg : Bool
  val : K

/-- What the program accepts: the letters with whether they take an argument, and the long options. -/
structure OptionTable (K : Type*) where
  short : Char → Option (K × Bool)
  long : List (LongOption K)
  /-- `-` cannot be a letter of an option. -/
  dash : short '-' = none

/-- What a call of `getopt_long` finds: an option with `optarg`, or `?`. -/
inductive Found (K : Type*) where
  | opt (k : K) (arg : Option Text)
  | bad

section Scan

variable {K : Type*} (T : OptionTable K)

/-- The long option that a name stands for: the one with this name, or the one it abbreviates. Several
may be abbreviated if there is no difference between them. -/
def findLong [DecidableEq K] (name : Text) : Option (LongOption K) :=
  match T.long.find? (·.name = name) with
  | some o => some o
  | none =>
    match T.long.filter (name.isPrefixOf ·.name) with
    | [] => none
    | o :: os => if os.all fun p => p.takesArg = o.takesArg ∧ p.val = o.val then some o else none

/-- A cluster of letters: what is found in it, and the option that waits for the next word. -/
def cluster : Text → List (Found K) × Option K
  | [] => ([], none)
  | c :: rest =>
    match T.short c with
    | none => (.bad :: (cluster rest).1, (cluster rest).2)
    | some (k, false) => (.opt k none :: (cluster rest).1, (cluster rest).2)
    | some (k, true) => if rest = [] then ([], some k) else ([.opt k (some rest)], none)

/-- What follows `--`. -/
def longWord [DecidableEq K] (body : Text) : List (Found K) × Option K :=
  match findLong T (body.takeWhile (· ≠ '=')), body.dropWhile (· ≠ '=') with
  | none, _ => ([.bad], none)
  | some o, [] => if o.takesArg then ([], some o.val) else ([.opt o.val none], none)
  | some o, _ :: value => if o.takesArg then ([.opt o.val (some value)], none) else ([.bad], none)

/-- A word that is not an argument. The last component says whether it is an operand. -/
def word [DecidableEq K] : Text → List (Found K) × Option K × Bool
  | '-' :: '-' :: body => ((longWord T body).1, (longWord T body).2, false)
  | '-' :: c :: rest => ((cluster T (c :: rest)).1, (cluster T (c :: rest)).2, false)
  | _ => ([], none, true)

/-- `getopt_long` called until it returns `-1`: what it finds, and the operands that it leaves. The option
`wait` is one whose argument is the next word. -/
def getoptLong [DecidableEq K] : (wait : Option K) → List Text → List (Found K) × List Text
  | none, [] => ([], [])
  | some _, [] => ([.bad], [])
  | some k, arg :: words =>
    (.opt k (some arg) :: (getoptLong none words).1, (getoptLong none words).2)
  | none, w :: words =>
    if w = ['-', '-'] then ([], words)
    else
      let (found, wait, operand) := word T w
      let (more, operands) := getoptLong wait words
      (found ++ more, if operand then w :: operands else operands)

/-! ### The language -/

/-- The letters of options without an argument, and the options they stand for. -/
inductive Flags : Text → List (K × Option Text) → Prop where
  | nil : Flags [] []
  | cons {c : Char} {k : K} {cs : Text} {es : List (K × Option Text)} (hc : T.short c = some (k, false))
    (hcs : Flags cs es) : Flags (c :: cs) ((k, none) :: es)

/-- **The language of command lines**, with what each of them means. -/
inductive Spelled [DecidableEq K] : List Text → List (K × Option Text) → Prop where
  | nil : Spelled [] []
  | stop : Spelled [['-', '-']] []
  | flag {name : Text} {o : LongOption K} {ws : List Text} {es : List (K × Option Text)}
    (hname : name ≠ []) (heq : '=' ∉ name) (ho : findLong T name = some o) (harg : o.takesArg = false)
    (hws : Spelled ws es) : Spelled (('-' :: '-' :: name) :: ws) ((o.val, none) :: es)
  | joined {name value : Text} {o : LongOption K} {ws : List Text} {es : List (K × Option Text)}
    (heq : '=' ∉ name) (ho : findLong T name = some o) (harg : o.takesArg = true)
    (hws : Spelled ws es) :
    Spelled (('-' :: '-' :: (name ++ '=' :: value)) :: ws) ((o.val, some value) :: es)
  | apart {name value : Text} {o : LongOption K} {ws : List Text} {es : List (K × Option Text)}
    (hname : name ≠ []) (heq : '=' ∉ name) (ho : findLong T name = some o) (harg : o.takesArg = true)
    (hws : Spelled ws es) :
    Spelled (('-' :: '-' :: name) :: value :: ws) ((o.val, some value) :: es)
  | letters {cs : Text} {fs es : List (K × Option Text)} {ws : List Text} (hcs : cs ≠ [])
    (hfs : Flags T cs fs) (hws : Spelled ws es) : Spelled (('-' :: cs) :: ws) (fs ++ es)
  | lettersJoined {cs value : Text} {c : Char} {k : K} {fs es : List (K × Option Text)}
    {ws : List Text} (hfs : Flags T cs fs) (hc : T.short c = some (k, true)) (hvalue : value ≠ [])
    (hws : Spelled ws es) :
    Spelled (('-' :: (cs ++ c :: value)) :: ws) (fs ++ (k, some value) :: es)
  | lettersApart {cs value : Text} {c : Char} {k : K} {fs es : List (K × Option Text)}
    {ws : List Text} (hfs : Flags T cs fs) (hc : T.short c = some (k, true)) (hws : Spelled ws es) :
    Spelled (('-' :: (cs ++ [c])) :: value :: ws) (fs ++ (k, some value) :: es)

end Scan

/-- What is found when there is no error. -/
def opts {K : Type*} (es : List (K × Option Text)) : List (Found K) := es.map fun e => .opt e.1 e.2

section Lemmas

variable {K : Type*} {T : OptionTable K}

@[simp] theorem opts_nil : opts ([] : List (K × Option Text)) = [] := rfl

@[simp] theorem opts_cons (e : K × Option Text) (es : List (K × Option Text)) :
    opts (e :: es) = .opt e.1 e.2 :: opts es := rfl

@[simp] theorem opts_append (es es' : List (K × Option Text)) : opts (es ++ es') = opts es ++ opts es' :=
  List.map_append

theorem cons_eq_opts {f : Found K} {fs : List (Found K)} {es : List (K × Option Text)}
    (h : f :: fs = opts es) : ∃ e es', es = e :: es' ∧ f = .opt e.1 e.2 ∧ fs = opts es' := by
  cases es with
  | nil => cases h
  | cons e es' =>
    rw [opts_cons] at h
    exact ⟨e, es', rfl, (List.cons.inj h).1, (List.cons.inj h).2⟩

theorem bad_ne_opts {fs : List (Found K)} {es : List (K × Option Text)} : .bad :: fs ≠ opts es := by
  intro h
  obtain ⟨e, es', -, hbad, -⟩ := cons_eq_opts h
  cases hbad

theorem append_eq_opts {fs gs : List (Found K)} {es : List (K × Option Text)}
    (h : fs ++ gs = opts es) : ∃ es₁ es₂, es = es₁ ++ es₂ ∧ fs = opts es₁ ∧ gs = opts es₂ := by
  obtain ⟨es₁, es₂, hes, h1, h2⟩ := List.append_eq_map_iff.1 h
  exact ⟨es₁, es₂, hes, h1.symm, h2.symm⟩

/-! ### Letters -/

theorem Flags.cluster_append {cs : Text} {fs : List (K × Option Text)} (h : Flags T cs fs) (rest : Text) :
    cluster T (cs ++ rest) = (opts fs ++ (cluster T rest).1, (cluster T rest).2) := by
  induction h with
  | nil => rfl
  | cons hc _ ih => simp [cluster, hc, ih]

/-- **What is read in a cluster without an error**: letters without an argument, and perhaps a last one
whose argument is the rest or the next word. -/
theorem cluster_inv {cs : Text} {es : List (K × Option Text)} {wait : Option K}
    (h : cluster T cs = (opts es, wait)) :
    (wait = none ∧ Flags T cs es) ∨
      (∃ fs ds c k value, cs = ds ++ c :: value ∧ value ≠ [] ∧ Flags T ds fs ∧
        T.short c = some (k, true) ∧ es = fs ++ [(k, some value)] ∧ wait = none) ∨
      ∃ ds c k, cs = ds ++ [c] ∧ Flags T ds es ∧ T.short c = some (k, true) ∧ wait = some k := by
  induction cs generalizing es with
  | nil =>
    obtain ⟨hes, rfl⟩ := Prod.mk.inj h
    cases es with
    | nil => exact .inl ⟨rfl, .nil⟩
    | cons e es => cases hes
  | cons c cs ih =>
    rcases hc : T.short c with _ | ⟨k, _ | _⟩
    · simp only [cluster, hc, Prod.mk.injEq] at h
      exact absurd h.1 bad_ne_opts
    · simp only [cluster, hc, Prod.mk.injEq] at h
      obtain ⟨hes, hwait⟩ := h
      obtain ⟨e, es', rfl, he, hrest⟩ := cons_eq_opts hes
      obtain ⟨hk, harg⟩ := Found.opt.inj he
      obtain rfl : e = (k, none) := Prod.ext hk.symm harg.symm
      rcases ih (Prod.ext hrest hwait) with
        ⟨hw, hfs⟩ | ⟨fs, ds, d, k', value, rfl, hv, hfs, hd, rfl, hw⟩ | ⟨ds, d, k', rfl, hfs, hd, hw⟩
      · exact .inl ⟨hw, .cons hc hfs⟩
      · exact .inr (.inl ⟨(k, none) :: fs, c :: ds, d, k', value, rfl, hv, .cons hc hfs, hd, rfl, hw⟩)
      · exact .inr (.inr ⟨c :: ds, d, k', rfl, .cons hc hfs, hd, hw⟩)
    · by_cases hcs : cs = []
      · simp only [cluster, hc, if_pos hcs, Prod.mk.injEq] at h
        cases es with
        | nil => exact .inr (.inr ⟨[], c, k, by rw [hcs]; rfl, .nil, hc, h.2.symm⟩)
        | cons e es => cases h.1
      · simp only [cluster, hc, if_neg hcs, Prod.mk.injEq] at h
        obtain ⟨e, es', rfl, he, hrest⟩ := cons_eq_opts h.1
        obtain ⟨hk, harg⟩ := Found.opt.inj he
        obtain rfl : e = (k, some cs) := Prod.ext hk.symm harg.symm
        obtain rfl : es' = [] := List.map_eq_nil_iff.1 hrest.symm
        exact .inr (.inl ⟨[], [], c, k, cs, rfl, hcs, .nil, hc, rfl, h.2.symm⟩)

variable [DecidableEq K]

/-- A letter that begins a word is not `-`. -/
theorem word_of_short {c : Char} {cs : Text} {k : K × Bool} (hc : T.short c = some k) :
    word T ('-' :: c :: cs) = ((cluster T (c :: cs)).1, (cluster T (c :: cs)).2, false) := by
  have hne : c ≠ '-' := by
    rintro rfl
    rw [T.dash] at hc
    cases hc
  unfold word
  split
  · rename_i heq
    exact absurd (List.cons.inj (List.cons.inj heq).2).1 hne
  · rename_i heq
    cases heq
    rfl
  · rename_i hno
    exact absurd rfl (hno c cs)

theorem Flags.word_append {cs : Text} {fs : List (K × Option Text)} (h : Flags T cs fs) (rest : Text)
    (hrest : ∀ c ∈ rest.head?, T.short c ≠ none) (hne : cs ++ rest ≠ []) :
    word T ('-' :: (cs ++ rest)) =
      (opts fs ++ (cluster T rest).1, (cluster T rest).2, false) := by
  have hcluster := h.cluster_append rest
  cases h with
  | nil =>
    cases rest with
    | nil => exact absurd rfl hne
    | cons c rest =>
      obtain ⟨k, hk⟩ := Option.ne_none_iff_exists'.1 (hrest c rfl)
      rw [List.nil_append, word_of_short hk]
      rfl
  | cons hc _ =>
    rw [List.cons_append, word_of_short hc]
    rw [List.cons_append] at hcluster
    rw [hcluster]

/-! ### Long options -/

theorem split_of_not_mem {name : Text} (h : '=' ∉ name) (rest : Text) (hrest : ∀ c ∈ rest.head?, c = '=') :
    (name ++ rest).takeWhile (· ≠ '=') = name ∧ (name ++ rest).dropWhile (· ≠ '=') = rest := by
  have hall : ∀ c ∈ name, decide (c ≠ '=') = true := by
    intro c hc
    simpa using fun heq : c = '=' => h (heq ▸ hc)
  rw [List.takeWhile_append_of_pos hall, List.dropWhile_append_of_pos hall]
  cases rest with
  | nil => simp
  | cons c rest =>
    obtain rfl := hrest c rfl
    simp

theorem longWord_name {name : Text} (h : '=' ∉ name) {o : LongOption K} (ho : findLong T name = some o) :
    longWord T name = if o.takesArg then ([], some o.val) else ([.opt o.val none], none) := by
  obtain ⟨htake, hdrop⟩ := split_of_not_mem h [] (by simp)
  rw [List.append_nil] at htake hdrop
  simp only [longWord, htake, hdrop, ho]

theorem longWord_joined {name : Text} (h : '=' ∉ name) {o : LongOption K}
    (ho : findLong T name = some o) (value : Text) :
    longWord T (name ++ '=' :: value) =
      if o.takesArg then ([.opt o.val (some value)], none) else ([.bad], none) := by
  obtain ⟨htake, hdrop⟩ := split_of_not_mem h ('=' :: value) (by simp)
  simp only [longWord, htake, hdrop, ho]

/-- **What is read after `--` without an error.** -/
theorem longWord_inv {body : Text} {es : List (K × Option Text)} {wait : Option K}
    (h : longWord T body = (opts es, wait)) :
    ∃ name o, '=' ∉ name ∧ findLong T name = some o ∧
      ((body = name ∧ o.takesArg = false ∧ es = [(o.val, none)] ∧ wait = none) ∨
        (body = name ∧ o.takesArg = true ∧ es = [] ∧ wait = some o.val) ∨
        ∃ value, body = name ++ '=' :: value ∧ o.takesArg = true ∧ es = [(o.val, some value)] ∧
          wait = none) := by
  have hsplit := List.takeWhile_append_dropWhile (p := fun c => decide (c ≠ '=')) (l := body)
  have hname : '=' ∉ body.takeWhile (· ≠ '=') := by
    intro hmem
    simpa using List.mem_takeWhile_imp hmem
  refine ⟨body.takeWhile (· ≠ '='), ?_⟩
  unfold longWord at h
  cases ho : findLong T (body.takeWhile (· ≠ '=')) with
  | none =>
    simp only [ho, Prod.mk.injEq] at h
    exact absurd h.1 bad_ne_opts
  | some o =>
    refine ⟨o, hname, rfl, ?_⟩
    cases hd : body.dropWhile (· ≠ '=') with
    | nil =>
      rw [hd, List.append_nil] at hsplit
      simp only [ho, hd] at h
      cases harg : o.takesArg with
      | true =>
        simp only [harg, if_true, Prod.mk.injEq] at h
        exact .inr (.inl ⟨hsplit.symm, rfl, List.map_eq_nil_iff.1 h.1.symm, h.2.symm⟩)
      | false =>
        simp only [harg, Bool.false_eq_true, if_false, Prod.mk.injEq] at h
        obtain ⟨e, es', rfl, he, hrest⟩ := cons_eq_opts h.1
        obtain ⟨hk, harg⟩ := Found.opt.inj he
        obtain rfl : e = (o.val, none) := Prod.ext hk.symm harg.symm
        obtain rfl : es' = [] := List.map_eq_nil_iff.1 hrest.symm
        exact .inl ⟨hsplit.symm, rfl, rfl, h.2.symm⟩
    | cons c value =>
      obtain rfl : c = '=' := by
        have hhead := List.head?_dropWhile_not (fun c => decide (c ≠ '=')) body
        rw [hd] at hhead
        simpa using hhead
      rw [hd] at hsplit
      simp only [ho, hd] at h
      cases harg : o.takesArg with
      | true =>
        simp only [harg, if_true, Prod.mk.injEq] at h
        obtain ⟨e, es', rfl, he, hrest⟩ := cons_eq_opts h.1
        obtain ⟨hk, harg⟩ := Found.opt.inj he
        obtain rfl : e = (o.val, some value) := Prod.ext hk.symm harg.symm
        obtain rfl : es' = [] := List.map_eq_nil_iff.1 hrest.symm
        exact .inr (.inr ⟨value, hsplit.symm, rfl, rfl, h.2.symm⟩)
      | false =>
        simp only [harg, Bool.false_eq_true, if_false, Prod.mk.injEq] at h
        exact absurd h.1 bad_ne_opts

/-! ### Command lines -/

theorem getoptLong_stop (ws : List Text) : getoptLong T none (['-', '-'] :: ws) = ([], ws) := by
  simp [getoptLong]

theorem getoptLong_word {w : Text} (hw : w ≠ ['-', '-']) {found : List (Found K)} {wait : Option K}
    (h : word T w = (found, wait, false)) (ws : List Text) :
    getoptLong T none (w :: ws) =
      (found ++ (getoptLong T wait ws).1, (getoptLong T wait ws).2) := by
  simp [getoptLong, if_neg hw, h]

theorem word_long (body : Text) :
    word T ('-' :: '-' :: body) = ((longWord T body).1, (longWord T body).2, false) := rfl

/-- **What is spelled is found.** -/
theorem Spelled.getoptLong_eq {ws : List Text} {es : List (K × Option Text)} (h : Spelled T ws es) :
    getoptLong T none ws = (opts es, []) := by
  induction h with
  | nil => rfl
  | stop => exact getoptLong_stop []
  | @flag name o ws es hname heq ho harg _ ih =>
    have hw := word_long (T := T) name
    rw [longWord_name heq ho, harg] at hw
    simp only [Bool.false_eq_true, if_false] at hw
    rw [getoptLong_word (by simpa using hname) hw, ih]
    rfl
  | @joined name value o ws es heq ho harg _ ih =>
    have hw := word_long (T := T) (name ++ '=' :: value)
    rw [longWord_joined heq ho, harg] at hw
    simp only [if_true] at hw
    rw [getoptLong_word (by simp) hw, ih]
    rfl
  | @apart name value o ws es hname heq ho harg _ ih =>
    have hw := word_long (T := T) name
    rw [longWord_name heq ho, harg] at hw
    simp only [if_true] at hw
    rw [getoptLong_word (by simpa using hname) hw]
    simp only [getoptLong, ih]
    rfl
  | @letters cs fs es ws hcs hfs _ ih =>
    have hw := hfs.word_append [] (by simp) (by simpa using hcs)
    rw [List.append_nil] at hw
    rw [getoptLong_word ?_ hw]
    · simp [cluster, ih]
    · rintro heq
      obtain rfl : cs = ['-'] := (List.cons.inj heq).2
      cases hfs with
      | cons hc _ =>
        rw [T.dash] at hc
        cases hc
  | @lettersJoined cs value c k fs es ws hfs hc hvalue _ ih =>
    have hw := hfs.word_append (c :: value) (by simp [hc]) (by simp)
    rw [getoptLong_word ?_ hw]
    · simp [cluster, hc, hvalue, ih]
    · intro heq
      have hlen := congrArg List.length heq
      have := List.length_pos_iff.2 hvalue
      simp at hlen
      omega
  | @lettersApart cs value c k fs es ws hfs hc _ ih =>
    have hw := hfs.word_append [c] (by simp [hc]) (by simp)
    rw [getoptLong_word ?_ hw]
    · simp [cluster, hc, getoptLong, ih]
    · intro heq
      have hlast : cs ++ [c] = [] ++ ['-'] := (List.cons.inj heq).2
      obtain rfl : c = '-' := (List.append_inj' hlast rfl).2 |> List.singleton_inj.1
      rw [T.dash] at hc
      cases hc

/-- A command line after an option that waits is an argument and a command line. -/
theorem getoptLong_wait_inv {k : K} {ws : List Text} {es : List (K × Option Text)}
    (h : getoptLong T (some k) ws = (opts es, [])) :
    ∃ value ws' es', ws = value :: ws' ∧ es = (k, some value) :: es' ∧
      getoptLong T none ws' = (opts es', []) := by
  cases ws with
  | nil => exact absurd (Prod.mk.inj h).1 bad_ne_opts
  | cons value ws' =>
    simp only [getoptLong, Prod.mk.injEq] at h
    obtain ⟨e, es', rfl, he, hrest⟩ := cons_eq_opts h.1
    obtain ⟨hk, harg⟩ := Found.opt.inj he
    obtain rfl : e = (k, some value) := Prod.ext hk.symm harg.symm
    exact ⟨value, ws', es', rfl, rfl, Prod.ext hrest h.2⟩

/-- **What is found without an error is spelled.** By induction on the words, two at a time where an
argument is the next word. -/
theorem spelled_of_getoptLong {ws : List Text} {es : List (K × Option Text)}
    (h : getoptLong T none ws = (opts es, [])) : Spelled T ws es := by
  induction hn : ws.length using Nat.strong_induction_on generalizing ws es with
  | _ n ih =>
  subst hn
  cases ws with
  | nil =>
    obtain rfl : es = [] := List.map_eq_nil_iff.1 (Prod.mk.inj h).1.symm
    exact .nil
  | cons w ws =>
    have hrec : ∀ {ws' es'}, ws'.length ≤ ws.length → getoptLong T none ws' = (opts es', []) →
        Spelled T ws' es' := fun hle h' => ih _ (by simp; omega) h' rfl
    by_cases hw : w = ['-', '-']
    · subst hw
      rw [getoptLong_stop] at h
      obtain ⟨hes, rfl⟩ := Prod.mk.inj h
      obtain rfl : es = [] := List.map_eq_nil_iff.1 hes.symm
      exact .stop
    rcases hword : word T w with ⟨found, wait, operand⟩
    have hoperand : operand = false := by
      by_contra hne
      rw [Bool.not_eq_false] at hne
      simp [getoptLong, if_neg hw, hword, hne] at h
    subst hoperand
    rw [getoptLong_word hw hword, Prod.mk.injEq] at h
    obtain ⟨es₁, es₂, rfl, hfound, hmore⟩ := append_eq_opts h.1
    have hrest : getoptLong T wait ws = (opts es₂, []) := Prod.ext hmore h.2
    unfold word at hword
    split at hword
    · rename_i body
      have hne : body ≠ [] := by
        rintro rfl
        exact hw rfl
      have hlong : longWord T body = (opts es₁, wait) := by
        rw [← hfound, ← (Prod.mk.inj hword).1, ← (Prod.mk.inj (Prod.mk.inj hword).2).1]
      obtain ⟨name, o, heq, ho, hcase⟩ := longWord_inv hlong
      rcases hcase with ⟨rfl, harg, rfl, rfl⟩ | ⟨rfl, harg, rfl, rfl⟩ | ⟨value, rfl, harg, rfl, rfl⟩
      · exact .flag hne heq ho harg (hrec le_rfl hrest)
      · obtain ⟨value, ws', es', rfl, rfl, h'⟩ := getoptLong_wait_inv hrest
        exact .apart hne heq ho harg (hrec (by simp) h')
      · exact .joined heq ho harg (hrec le_rfl hrest)
    · rename_i c cs _
      have hcluster : cluster T (c :: cs) = (opts es₁, wait) := by
        rw [← hfound, ← (Prod.mk.inj hword).1, ← (Prod.mk.inj (Prod.mk.inj hword).2).1]
      rcases cluster_inv hcluster with
        ⟨rfl, hfs⟩ | ⟨fs, ds, d, k, value, hcs, hv, hfs, hd, rfl, rfl⟩ | ⟨ds, d, k, hcs, hfs, hd, rfl⟩
      · exact .letters (List.cons_ne_nil _ _) hfs (hrec le_rfl hrest)
      · rw [hcs, List.append_assoc]
        exact .lettersJoined hfs hd hv (hrec le_rfl hrest)
      · obtain ⟨value, ws', es', rfl, rfl, h'⟩ := getoptLong_wait_inv hrest
        rw [hcs]
        exact .lettersApart hfs hd (hrec (by simp) h')
    · cases (Prod.mk.inj (Prod.mk.inj hword).2).2

/-- **The scanner reads the language.** -/
theorem getoptLong_eq_iff {ws : List Text} {es : List (K × Option Text)} :
    getoptLong T none ws = (opts es, []) ↔ Spelled T ws es :=
  ⟨spelled_of_getoptLong, Spelled.getoptLong_eq⟩

/-! ### Spelling options out -/

omit [DecidableEq K] in
theorem find_name_of_mem {l : List (LongOption K)} (hnodup : (l.map LongOption.name).Nodup)
    {o : LongOption K} (ho : o ∈ l) : l.find? (fun p => decide (p.name = o.name)) = some o := by
  induction l with
  | nil => cases ho
  | cons p l ih =>
    rw [List.map_cons, List.nodup_cons] at hnodup
    rcases List.mem_cons.1 ho with rfl | ho
    · simp
    · have hne : p.name ≠ o.name := fun heq => hnodup.1 (heq ▸ List.mem_map_of_mem ho)
      rw [List.find?_cons_of_neg (by simpa using hne)]
      exact ih hnodup.2 ho

theorem findLong_of_mem (hnodup : (T.long.map LongOption.name).Nodup) {o : LongOption K}
    (ho : o ∈ T.long) : findLong T o.name = some o := by
  simp only [findLong, find_name_of_mem hnodup ho]

/-- An option with its long name. -/
def spell (o : LongOption K) (arg : Option Text) : Text :=
  '-' :: '-' :: (o.name ++ arg.elim [] fun value => '=' :: value)

/-- A command line that spells options. An option that is not in the table is left out. -/
def render (T : OptionTable K) (es : List (K × Option Text)) : List Text :=
  es.flatMap fun e => ((T.long.find? (·.val = e.1)).map fun o => spell o e.2).toList

/-- The options of the table, with an argument if they need one. -/
def Proper (T : OptionTable K) (e : K × Option Text) : Prop :=
  ∃ o, T.long.find? (·.val = e.1) = some o ∧ o.takesArg = e.2.isSome

theorem render_spelled (hnodup : (T.long.map LongOption.name).Nodup)
    (hnames : ∀ o ∈ T.long, o.name ≠ [] ∧ '=' ∉ o.name) {es : List (K × Option Text)}
    (hes : ∀ e ∈ es, Proper T e) : Spelled T (render T es) es := by
  induction es with
  | nil => exact .nil
  | cons e es ih =>
    obtain ⟨k, arg⟩ := e
    obtain ⟨o, ho, harg⟩ := hes (k, arg) (by simp)
    have hrest := ih fun e he => hes e (List.mem_cons_of_mem _ he)
    have hmem : o ∈ T.long := List.mem_of_find?_eq_some ho
    obtain rfl : o.val = k := by simpa using List.find?_some ho
    have hfind := findLong_of_mem hnodup hmem
    obtain ⟨hne, heq⟩ := hnames o hmem
    have hrender : render T ((o.val, arg) :: es) = spell o arg :: render T es := by
      simp only [render, List.flatMap_cons, ho]
      rfl
    rw [hrender]
    cases arg with
    | none =>
      simp only [spell, Option.elim, List.append_nil]
      exact .flag hne heq hfind harg hrest
    | some value => exact .joined heq hfind harg hrest

end Lemmas

/-! ### Options as settings of fields -/

section Settings

variable {F : Type*} [DecidableEq F] {V : F → Type*}

/-- The last value a field is set to. -/
def lastOf (f : F) : List (Σ f, V f) → Option (V f)
  | [] => none
  | s :: l => (lastOf f l).or (if h : s.1 = f then some (h ▸ s.2) else none)

/-- **The last one wins.** -/
theorem foldl_set_apply (l : List (Σ f, V f)) (g : ∀ f, V f) (f : F) :
    l.foldl (fun g s => Function.update g s.1 s.2) g f = (lastOf f l).getD (g f) := by
  induction l generalizing g with
  | nil => rfl
  | cons s l ih =>
    rw [List.foldl_cons, ih]
    cases hl : lastOf f l with
    | some v => simp [lastOf, hl]
    | none =>
      by_cases h : s.1 = f
      · subst h
        simp [lastOf, hl]
      · simp [lastOf, hl, h, Function.update_of_ne (Ne.symm h)]

/-- A field that is only ever set to one value has it. -/
theorem lastOf_of_agree {g : ∀ f, V f} {l : List (Σ f, V f)} (hl : ∀ s ∈ l, s.2 = g s.1) (f : F) :
    lastOf f l = if f ∈ l.map Sigma.fst then some (g f) else none := by
  induction l with
  | nil => rfl
  | cons s l ih =>
    have hs := hl s (by simp)
    rw [lastOf, ih fun s hs => hl s (List.mem_cons_of_mem _ hs), List.map_cons]
    by_cases hmem : f ∈ l.map Sigma.fst
    · rw [if_pos hmem, if_pos (List.mem_cons_of_mem _ hmem), Option.some_or]
    · rw [if_neg hmem, Option.none_or]
      by_cases h : s.1 = f
      · subst h
        simp [hs]
      · rw [dif_neg h, if_neg]
        simpa [hmem] using fun heq : f = s.1 => h heq.symm

end Settings

end KvBench.Cli
