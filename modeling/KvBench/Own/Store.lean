import Mathlib

/-!
# Objects with reference counts

Objects are made and unmade by calls to some library. An object is made from other ones, which it
`uses` and which have to outlive it. How long it lives is decided by the references to it: those the
program has, and those that other objects hold as members (`holds`). When the last reference to an
object is dropped the object is unmade, and then the references it holds are dropped.

The log of a store notes the calls, the latest first, and with each of them what would be wrong with
it: the handles an object is made from that are already gone, and the objects that still use one that
is unmade.

`Owned R s` says that the counts of `s` are right for a program that has the references `R`. Dropping
a reference keeps this (`Owned.drop`), so a program without references has no objects left
(`Owned.gone_of_zero`).
-/

namespace KvBench.Own

/-- An object of a kind `K`. -/
structure Obj (K : Type) where
  kind : K
  /-- The objects it is made from. -/
  uses : List ℕ
  /-- The references among its members. -/
  holds : List ℕ

/-- A call to the library. `X` are the calls that neither make nor unmake an object. -/
inductive Entry (X : Type) where
  | made (h : ℕ) (missing : List ℕ)
  | gone (h : ℕ) (users : List ℕ)
  | mark (x : X) (alive : List ℕ)
  deriving DecidableEq

namespace Entry

variable {X : Type}

/-- The call makes `h`. -/
def Makes (h : ℕ) : Entry X → Bool
  | made g _ => g = h
  | _ => false

/-- The call unmakes `h`. -/
def Unmakes (h : ℕ) : Entry X → Bool
  | gone g _ => g = h
  | _ => false

/-- Nothing is wrong with the call: it makes an object from living ones, or unmakes one that is not
used. -/
def Clean : Entry X → Prop
  | made _ missing => missing = []
  | gone _ users => users = []
  | mark _ _ => True

instance : DecidablePred (Clean : Entry X → Prop)
  | made _ missing => inferInstanceAs (Decidable (missing = []))
  | gone _ users => inferInstanceAs (Decidable (users = []))
  | mark _ _ => isTrue trivial

end Entry

/-- The objects made so far, which are named by the order in which they were made, and the number of
references to each. -/
structure Store (K X : Type) where
  objs : List (Obj K)
  count : ℕ → ℕ
  log : List (Entry X)

namespace Store

variable {K X : Type}

/-- No objects. -/
def empty : Store K X := ⟨[], fun _ => 0, []⟩

section Operations

variable (s : Store K X)

/-- What the object `h` uses. -/
def usesOf (h : ℕ) : List ℕ := s.objs[h]?.elim [] Obj.uses

/-- The references that the object `h` holds. -/
def holdsOf (h : ℕ) : List ℕ := s.objs[h]?.elim [] Obj.holds

/-- The objects that have been made and not unmade. -/
def alive : List ℕ := (List.range s.objs.length).filter (s.count · ≠ 0)

/-- The living objects that use `h`. -/
def users (h : ℕ) : List ℕ := s.alive.filter (h ∈ s.usesOf ·)

/-- Makes an object, whose name is the number of objects before. The caller has the reference to it,
and has given away those that it holds. -/
def new (o : Obj K) : Store K X where
  objs := s.objs ++ [o]
  count := Function.update s.count s.objs.length 1
  log := .made s.objs.length (o.uses.filter (s.count · = 0)) :: s.log

/-- Another call. -/
def note (x : X) : Store K X := { s with log := .mark x s.alive :: s.log }

/-- One more reference. -/
def copy (h : ℕ) : Store K X := { s with count := Function.update s.count h (s.count h + 1) }

/-- One reference less, of several. -/
def lessen (h : ℕ) : Store K X := { s with count := Function.update s.count h (s.count h - 1) }

/-- The last reference goes. -/
def unmake (h : ℕ) : Store K X where
  objs := s.objs
  count := Function.update s.count h 0
  log := .gone h ((s.users h).filter (· ≠ h)) :: s.log

end Operations

/-- Drops a reference, with a bound on the depth of what is unmade by it. -/
def dropN : ℕ → Store K X → ℕ → Store K X
  | 0, s, _ => s
  | depth + 1, s, h =>
    if s.count h = 1 then (s.holdsOf h).foldl (dropN depth) (s.unmake h) else s.lessen h

/-- Drops a reference. What an object holds is older than the object, which bounds the depth. -/
def drop (s : Store K X) (h : ℕ) : Store K X := dropN (h + 1) s h

/-- Drops references one after the other. -/
def dropAll (s : Store K X) (hs : List ℕ) : Store K X := hs.foldl drop s

@[simp] theorem dropAll_nil (s : Store K X) : s.dropAll [] = s := rfl

@[simp] theorem dropAll_cons (s : Store K X) (h : ℕ) (hs : List ℕ) :
    s.dropAll (h :: hs) = (s.drop h).dropAll hs := rfl

theorem dropAll_append (s : Store K X) (hs hs' : List ℕ) :
    s.dropAll (hs ++ hs') = (s.dropAll hs).dropAll hs' :=
  List.foldl_append

/-! ### Fields -/

section Fields

variable {s : Store K X} {h g : ℕ} {o : Obj K} {x : X}

@[simp] theorem unmake_objs : (s.unmake h).objs = s.objs := rfl
@[simp] theorem unmake_count : (s.unmake h).count = Function.update s.count h 0 := rfl
@[simp] theorem unmake_holdsOf : (s.unmake h).holdsOf = s.holdsOf := rfl
@[simp] theorem unmake_usesOf : (s.unmake h).usesOf = s.usesOf := rfl
@[simp] theorem unmake_log :
    (s.unmake h).log = .gone h ((s.users h).filter (· ≠ h)) :: s.log := rfl
@[simp] theorem lessen_objs : (s.lessen h).objs = s.objs := rfl
@[simp] theorem lessen_count :
    (s.lessen h).count = Function.update s.count h (s.count h - 1) := rfl
@[simp] theorem lessen_holdsOf : (s.lessen h).holdsOf = s.holdsOf := rfl
@[simp] theorem lessen_log : (s.lessen h).log = s.log := rfl
@[simp] theorem copy_objs : (s.copy h).objs = s.objs := rfl
@[simp] theorem copy_holdsOf : (s.copy h).holdsOf = s.holdsOf := rfl
@[simp] theorem copy_log : (s.copy h).log = s.log := rfl
@[simp] theorem note_objs : (s.note x).objs = s.objs := rfl
@[simp] theorem note_count : (s.note x).count = s.count := rfl
@[simp] theorem note_log : (s.note x).log = .mark x s.alive :: s.log := rfl
@[simp] theorem new_objs : (s.new o).objs = s.objs ++ [o] := rfl
@[simp] theorem new_log :
    (s.new o).log = .made s.objs.length (o.uses.filter (s.count · = 0)) :: s.log := rfl

theorem new_getElem? (hg : g ≠ s.objs.length) : (s.new o).objs[g]? = s.objs[g]? := by
  rw [new_objs]
  rcases Nat.lt_or_gt_of_ne hg with hlt | hgt
  · rw [List.getElem?_append_left hlt]
  · rw [List.getElem?_eq_none (by simpa using hgt), List.getElem?_eq_none hgt.le]

theorem new_getElem?_self : (s.new o).objs[s.objs.length]? = some o := by simp

theorem mem_alive : g ∈ s.alive ↔ g < s.objs.length ∧ s.count g ≠ 0 := by simp [alive]

theorem mem_users : g ∈ s.users h ↔ (g < s.objs.length ∧ s.count g ≠ 0) ∧ h ∈ s.usesOf g := by
  simp [users, mem_alive]

end Fields

/-! ### Counting references -/

/-- The number of references to `h` that living objects hold. -/
def held (s : Store K X) (h : ℕ) : ℕ :=
  ∑ g ∈ Finset.range s.objs.length, if s.count g = 0 then 0 else (s.holdsOf g).count h

/-- The counts are those of a program that has the references `R`, and every object is made once and
unmade at most once. -/
structure Owned (R : Multiset ℕ) (s : Store K X) : Prop where
  count_eq : ∀ h, s.count h = R.count h + s.held h
  fresh : ∀ h, s.objs.length ≤ h → s.count h = 0
  older : ∀ h, ∀ g ∈ s.holdsOf h, g < h
  made_once : ∀ h, s.log.countP (Entry.Makes h) = if h < s.objs.length then 1 else 0
  gone_once : ∀ h, s.log.countP (Entry.Unmakes h) =
    if h < s.objs.length ∧ s.count h = 0 then 1 else 0

theorem Owned.empty : Owned 0 (empty : Store K X) where
  count_eq h := by simp [Store.empty, held]
  fresh h _ := rfl
  older h g hg := by simp [holdsOf, Store.empty] at hg
  made_once h := by simp [Store.empty]
  gone_once h := by simp [Store.empty]

section Owned

variable {R : Multiset ℕ} {s : Store K X} {h g : ℕ}

theorem Owned.count_pos (hs : Owned R s) (hh : h ∈ R) : s.count h ≠ 0 := by
  have := Multiset.count_pos.2 hh
  have := hs.count_eq h
  omega

theorem Owned.lt_length (hs : Owned R s) (hh : s.count h ≠ 0) : h < s.objs.length := by
  by_contra hle
  exact hh (hs.fresh h (by omega))

theorem le_held (hg : s.count g ≠ 0) (hlt : g < s.objs.length) : (s.holdsOf g).count h ≤ s.held h := by
  unfold held
  refine le_trans (le_of_eq ?_) (Finset.single_le_sum (fun _ _ => Nat.zero_le _)
    (Finset.mem_range.2 hlt))
  rw [if_neg hg]

/-- A living object is referred to by the program or by another living object. -/
theorem Owned.alive_cases (hs : Owned R s) (hh : s.count h ≠ 0) :
    h ∈ R ∨ ∃ g, s.count g ≠ 0 ∧ h ∈ s.holdsOf g := by
  by_cases hR : h ∈ R
  · exact .inl hR
  have hheld : s.held h ≠ 0 := by
    have := hs.count_eq h
    rw [Multiset.count_eq_zero.2 hR] at this
    omega
  obtain ⟨g, -, hg⟩ := Finset.exists_ne_zero_of_sum_ne_zero hheld
  refine .inr ⟨g, fun hz => hg (if_pos hz), ?_⟩
  by_contra hnot
  exact hg (by rw [List.count_eq_zero.2 hnot, ite_self])

/-- What holds of the references of the program, and of what is held if it holds of the holder, holds
of everything that lives. -/
theorem Owned.alive_induct (hs : Owned R s) {p : ℕ → Prop} (hR : ∀ h ∈ R, p h)
    (hold : ∀ g, s.count g ≠ 0 → p g → ∀ h ∈ s.holdsOf g, p h) (hh : s.count h ≠ 0) : p h := by
  -- a holder is younger than what it holds
  induction hd : s.objs.length - h using Nat.strong_induction_on generalizing h with
  | _ d ih =>
    rcases hs.alive_cases hh with hmem | ⟨g, hg, hmem⟩
    · exact hR h hmem
    · have hlt := hs.older g h hmem
      have hglt := hs.lt_length hg
      exact hold g hg (ih _ (by omega) hg rfl) h hmem

/-- What can be reached from the references `R`. -/
inductive Reached (R : Multiset ℕ) (s : Store K X) : ℕ → Prop where
  | root {h : ℕ} (hh : h ∈ R) : Reached R s h
  | held {g h : ℕ} (hg : Reached R s g) (hh : h ∈ s.holdsOf g) : Reached R s h

/-- What lives is what the program can reach. -/
theorem Owned.mem_alive_iff (hs : Owned R s) : h ∈ s.alive ↔ Reached R s h := by
  rw [mem_alive]
  constructor
  · exact fun hh => hs.alive_induct (fun _ => .root) (fun _ _ hg _ => .held hg) hh.2
  · intro hh
    have hcount : s.count h ≠ 0 := by
      induction hh with
      | root hh => exact hs.count_pos hh
      | @held g h _ hmem ih =>
        have hle := le_held (h := h) ih (hs.lt_length ih)
        have hpos := List.count_pos_iff.2 hmem
        have heq := hs.count_eq h
        omega
    exact ⟨hs.lt_length hcount, hcount⟩

/-- **No leak**: a program that has no reference left has no object left. -/
theorem Owned.gone_of_zero (hs : Owned 0 s) (h : ℕ) : s.count h = 0 := by
  by_contra hh
  exact hs.alive_induct (p := fun _ => False) (by simp) (fun _ _ hf => hf.elim) hh

/-! ### The operations -/

/-- What is held after the count of `h` has become zero. -/
theorem held_unmake (hlt : h < s.objs.length) (hh : s.count h ≠ 0) (x : ℕ) :
    s.held x = (s.unmake h).held x + (s.holdsOf h).count x := by
  unfold held
  rw [unmake_objs, unmake_holdsOf, unmake_count,
    ← Finset.add_sum_erase _ _ (Finset.mem_range.2 hlt), if_neg hh,
    ← Finset.add_sum_erase _ _ (Finset.mem_range.2 hlt), Function.update_self, if_pos rfl, zero_add,
    add_comm]
  congr 1
  refine Finset.sum_congr rfl fun g hg => ?_
  rw [Function.update_of_ne (Finset.ne_of_mem_erase hg)]

/-- What is held depends on what lives only. -/
theorem held_congr {s' : Store K X} (hobjs : s'.objs = s.objs)
    (hcount : ∀ g, s'.count g = 0 ↔ s.count g = 0) (x : ℕ) : s'.held x = s.held x := by
  unfold held holdsOf
  rw [hobjs]
  refine Finset.sum_congr rfl fun g _ => ?_
  by_cases hg : s.count g = 0
  · rw [if_pos hg, if_pos ((hcount g).2 hg)]
  · rw [if_neg hg, if_neg fun h => hg ((hcount g).1 h)]

/-- Only the counts change, and nothing is made or unmade by it. -/
theorem Owned.recount (hs : Owned R s) {R' : Multiset ℕ} {c : ℕ → ℕ}
    (hzero : ∀ g, c g = 0 ↔ s.count g = 0) (hcount : ∀ g, c g + R.count g = s.count g + R'.count g) :
    Owned R' { s with count := c } where
  count_eq x := by
    have hheld : Store.held { s with count := c } x = s.held x := by
      apply held_congr
      · rfl
      · exact hzero
    rw [hheld]
    have h1 := hs.count_eq x
    have h2 := hcount x
    show c x = _
    omega
  fresh x hx := (hzero x).2 (hs.fresh x hx)
  older := hs.older
  made_once := hs.made_once
  gone_once x := by
    rw [hs.gone_once x]
    simp only [hzero]

theorem Owned.lessen (hs : Owned (h ::ₘ R) s) (hh : s.count h ≠ 1) : Owned R (s.lessen h) := by
  have hpos : s.count h ≠ 0 := hs.count_pos (Multiset.mem_cons_self h R)
  refine hs.recount (fun g => ?_) fun g => ?_ <;> by_cases hg : g = h
  · subst hg
    rw [Function.update_self]
    omega
  · rw [Function.update_of_ne hg]
  · subst hg
    rw [Function.update_self, Multiset.count_cons_self]
    omega
  · rw [Function.update_of_ne hg, Multiset.count_cons_of_ne hg]

theorem Owned.copy (hs : Owned R s) (hh : s.count h ≠ 0) : Owned (h ::ₘ R) (s.copy h) := by
  refine hs.recount (fun g => ?_) fun g => ?_ <;> by_cases hg : g = h
  · subst hg
    rw [Function.update_self]
    omega
  · rw [Function.update_of_ne hg]
  · subst hg
    rw [Function.update_self, Multiset.count_cons_self]
    omega
  · rw [Function.update_of_ne hg, Multiset.count_cons_of_ne hg]

theorem Owned.unmake (hs : Owned (h ::ₘ R) s) (hh : s.count h = 1) :
    Owned (s.holdsOf h + R) (s.unmake h) := by
  have hlt : h < s.objs.length := hs.lt_length (by omega)
  have hself : (s.holdsOf h).count h = 0 := List.count_eq_zero.2 fun hmem =>
    absurd (hs.older h h hmem) (lt_irrefl h)
  refine ⟨fun x => ?_, fun x hx => ?_, hs.older, fun x => ?_, fun x => ?_⟩
  · have heq := hs.count_eq x
    rw [held_unmake hlt (by omega)] at heq
    rw [Multiset.count_add, Multiset.coe_count]
    by_cases hx : x = h
    · subst hx
      rw [Multiset.count_cons_self] at heq
      rw [unmake_count, Function.update_self]
      omega
    · rw [Multiset.count_cons_of_ne hx] at heq
      rw [unmake_count, Function.update_of_ne hx]
      omega
  · rw [unmake_objs] at hx
    rw [unmake_count, Function.update_of_ne (by omega)]
    exact hs.fresh x hx
  · exact hs.made_once x
  · have hold := hs.gone_once x
    show (Entry.gone h _ :: s.log).countP _ = _
    rw [List.countP_cons, hold, unmake_count, unmake_objs]
    by_cases hx : x = h
    · subst hx
      simp [Entry.Unmakes, hlt, hh]
    · have hne : h ≠ x := fun h' => hx h'.symm
      simp [Entry.Unmakes, hne, Function.update_of_ne hx]

/-- **The rule for `drop`.** An invariant of the references and the store, `D` being what is dropped
on the way. -/
theorem drop_induct {P : Multiset ℕ → Store K X → Prop} {D : ℕ → Prop}
    (hless : ∀ R s h, D h → P (h ::ₘ R) s → s.count h ≠ 1 → P R (s.lessen h))
    (hlast : ∀ R s h, D h → P (h ::ₘ R) s → s.count h = 1 → P (s.holdsOf h + R) (s.unmake h))
    (hold : ∀ R s h, D h → P R s → ∀ g ∈ s.holdsOf h, g < h ∧ D g)
    (hD : D h) (hP : P (h ::ₘ R) s) : P R (s.drop h) := by
  -- the references among the members are dropped in turn, and each is older than the object
  have key : ∀ depth R s h, D h → h < depth → P (h ::ₘ R) s → P R (dropN depth s h) := by
    intro depth
    induction depth with
    | zero => exact fun _ _ _ _ hlt => absurd hlt (Nat.not_lt_zero _)
    | succ depth ih =>
      intro R s h hD hlt hP
      unfold dropN
      by_cases hh : s.count h = 1
      · rw [if_pos hh]
        have hmem := hold _ s h hD hP
        have hall : ∀ (hs : List ℕ) s, (∀ g ∈ hs, g < depth ∧ D g) → P (hs + R) s →
            P R (hs.foldl (dropN depth) s) := by
          intro hs
          induction hs with
          | nil => exact fun s _ hP => by simpa using hP
          | cons g hs ihs =>
            intro s hg hP
            obtain ⟨⟨hgd, hgD⟩, hrest⟩ := List.forall_mem_cons.1 hg
            exact ihs _ hrest (ih _ _ _ hgD hgd (by rwa [← Multiset.cons_add, Multiset.cons_coe]))
        exact hall _ _ (fun g hg => ⟨by have := (hmem g hg).1; omega, (hmem g hg).2⟩)
          (hlast R s h hD hP hh)
      · rw [if_neg hh]
        exact hless R s h hD hP hh
  exact key _ R s h hD (Nat.lt_succ_self h) hP

theorem Owned.drop (hs : Owned (h ::ₘ R) s) : Owned R (s.drop h) :=
  drop_induct (D := fun _ => True) (fun _ _ _ _ => Owned.lessen) (fun _ _ _ _ => Owned.unmake)
    (fun _ _ h _ hs g hg => ⟨hs.older h g hg, trivial⟩) trivial hs

theorem Owned.dropAll {hs : List ℕ} (h : Owned (hs + R) s) : Owned R (s.dropAll hs) := by
  induction hs generalizing s with
  | nil => simpa using h
  | cons g hs ih =>
    rw [dropAll_cons]
    refine ih (Owned.drop ?_)
    rwa [← Multiset.cons_add, Multiset.cons_coe]

theorem Owned.note (hs : Owned R s) (x : X) : Owned R (s.note x) where
  count_eq := hs.count_eq
  fresh := hs.fresh
  older := hs.older
  made_once h := by
    rw [note_log, List.countP_cons_of_neg (by simp [Entry.Makes])]
    exact hs.made_once h
  gone_once h := by
    rw [note_log, List.countP_cons_of_neg (by simp [Entry.Unmakes])]
    exact hs.gone_once h

theorem Owned.new {o : Obj K} (hs : Owned (o.holds + R) s) : Owned (s.objs.length ::ₘ R) (s.new o) := by
  have hholds : ∀ g ∈ o.holds, g < s.objs.length := fun g hg =>
    hs.lt_length (hs.count_pos (Multiset.mem_add.2 (.inl (Multiset.mem_coe.2 hg))))
  have hfresh : s.count s.objs.length = 0 := hs.fresh _ le_rfl
  have hcount : ∀ g, g ≠ s.objs.length → (s.new o).count g = s.count g := fun g hg =>
    Function.update_of_ne hg _ _
  have hself : (s.new o).count s.objs.length = 1 := Function.update_self ..
  have hholdsOf : ∀ g, g ≠ s.objs.length → (s.new o).holdsOf g = s.holdsOf g := by
    intro g hg
    unfold holdsOf
    rw [new_getElem? hg]
  have hnew : (s.new o).holdsOf s.objs.length = o.holds := by
    unfold holdsOf
    rw [new_getElem?_self]
    rfl
  have hheld : ∀ x, (s.new o).held x = s.held x + o.holds.count x := by
    intro x
    unfold held
    rw [new_objs, List.length_append, List.length_singleton, Finset.sum_range_succ, hself,
      if_neg one_ne_zero, hnew]
    congr 1
    refine Finset.sum_congr rfl fun g hg => ?_
    have hne : g ≠ s.objs.length := (Finset.mem_range.1 hg).ne
    rw [hcount g hne, hholdsOf g hne]
  refine ⟨fun x => ?_, fun x hx => ?_, fun x g hg => ?_, fun x => ?_, fun x => ?_⟩
  · have heq := hs.count_eq x
    rw [Multiset.count_add, Multiset.coe_count] at heq
    rw [hheld]
    by_cases hx : x = s.objs.length
    · subst hx
      have hzero : o.holds.count s.objs.length = 0 := List.count_eq_zero.2 fun hmem =>
        absurd (hholds _ hmem) (lt_irrefl _)
      rw [Multiset.count_cons_self, hself]
      omega
    · rw [Multiset.count_cons_of_ne hx, hcount x hx]
      omega
  · rw [new_objs, List.length_append, List.length_singleton] at hx
    rw [hcount x (by omega)]
    exact hs.fresh x (by omega)
  · by_cases hx : x = s.objs.length
    · subst hx
      rw [hnew] at hg
      exact hholds g hg
    · rw [hholdsOf x hx] at hg
      exact hs.older x g hg
  · rw [new_log, List.countP_cons, hs.made_once x, new_objs, List.length_append,
      List.length_singleton]
    by_cases hx : x = s.objs.length
    · subst hx
      simp [Entry.Makes]
    · have hne : s.objs.length ≠ x := fun h => hx h.symm
      have hiff : x < s.objs.length + 1 ↔ x < s.objs.length := by omega
      simp [Entry.Makes, hne, hiff]
  · rw [new_log, List.countP_cons_of_neg (by simp [Entry.Unmakes]), hs.gone_once x, new_objs,
      List.length_append, List.length_singleton]
    by_cases hx : x = s.objs.length
    · subst hx
      simp [hself]
    · have hiff : x < s.objs.length + 1 ↔ x < s.objs.length := by omega
      simp only [hcount x hx, hiff]

/-- Dropping the last reference to an object that holds nothing. -/
theorem drop_last (hh : s.count h = 1) (hold : s.holdsOf h = []) : s.drop h = s.unmake h := by
  unfold drop dropN
  rw [if_pos hh, hold]
  rfl

theorem drop_count (hold : s.holdsOf h = []) :
    (s.drop h).count = Function.update s.count h (s.count h - 1) := by
  by_cases hh : s.count h = 1
  · rw [drop_last hh hold, hh]
    rfl
  · unfold drop dropN
    rw [if_neg hh]
    rfl

/-- Dropping a reference only unmakes objects. -/
theorem Owned.drop_frame (hs : Owned (h ::ₘ R) s) :
    (s.drop h).objs = s.objs ∧
      ∃ l, (s.drop h).log = l ++ s.log ∧ ∀ e ∈ l, ∃ g users, e = .gone g users := by
  refine (drop_induct (D := fun _ => True) (P := fun R s' => Owned R s' ∧ s'.objs = s.objs ∧
    ∃ l, s'.log = l ++ s.log ∧ ∀ e ∈ l, ∃ g users, e = .gone g users) ?_ ?_ ?_ trivial
    ⟨hs, rfl, [], rfl, by simp⟩).2
  · rintro R s' h - ⟨hs, hobjs, hlog⟩ hh
    exact ⟨hs.lessen hh, hobjs, hlog⟩
  · rintro R s' h - ⟨hs, hobjs, l, hlog, hl⟩ hh
    refine ⟨hs.unmake hh, hobjs, .gone h _ :: l, congrArg (_ :: ·) hlog, ?_⟩
    exact List.forall_mem_cons.2 ⟨⟨_, _, rfl⟩, hl⟩
  · rintro R s' h - ⟨hs, -, -⟩ g hg
    exact ⟨hs.older h g hg, trivial⟩

end Owned

end Store

end KvBench.Own
