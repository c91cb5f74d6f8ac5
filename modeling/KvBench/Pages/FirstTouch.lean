import Mathlib.Tactic

/-!
# Memory by first touch

A page gets its memory when it is touched for the first time, on the node that is due by the policy the
page has at that time. A policy that is set later does not move the page.
-/

namespace KvBench.Pages

variable {P π ν : Type}

/-- What the system keeps for the pages `P`. -/
structure Memory (P π ν : Type) where
  /-- The policy that has been set for a page. -/
  policy : P → Option π
  /-- The node of its memory, once it has been touched. -/
  home : P → Option ν

namespace Memory

@[ext] theorem ext {m m' : Memory P π ν} (hpolicy : ∀ q, m.policy q = m'.policy q)
    (hhome : ∀ q, m.home q = m'.home q) : m = m' := by
  cases m
  cases m'
  congr 1
  · exact funext hpolicy
  · exact funext hhome

/-- The policy of the pages of `A` is set. -/
def setPolicy (m : Memory P π ν) (A : P → Prop) [DecidablePred A] (p : π) : Memory P π ν :=
  { m with policy := fun q => if A q then some p else m.policy q }

section Touch

variable (place : P → Option π → ν) (m : Memory P π ν)

/-- The node of a page once it has been touched. -/
def homeOf (q : P) : ν := (m.home q).getD (place q (m.policy q))

/-- A page is touched. -/
def touch [DecidableEq P] (q : P) : Memory P π ν :=
  { m with home := fun r => if r = q then some (m.homeOf place r) else m.home r }

/-- The pages of `A` are touched. -/
def touchAll (A : P → Prop) [DecidablePred A] : Memory P π ν :=
  { m with home := fun q => if A q then some (m.homeOf place q) else m.home q }

/-- The policy of the pages of `A` is set, then they are touched. -/
def bind (A : P → Prop) [DecidablePred A] (p : π) : Memory P π ν :=
  (m.setPolicy A p).touchAll place A

end Touch

section Lemmas

variable {place : P → Option π → ν} {m : Memory P π ν} {A B C : P → Prop} [DecidablePred A]
  [DecidablePred B] [DecidablePred C] {p : π}

@[simp] theorem setPolicy_policy (q : P) :
    (m.setPolicy A p).policy q = if A q then some p else m.policy q := rfl

@[simp] theorem setPolicy_home : (m.setPolicy A p).home = m.home := rfl

@[simp] theorem touchAll_policy : (m.touchAll place A).policy = m.policy := rfl

@[simp] theorem touchAll_home (q : P) :
    (m.touchAll place A).home q = if A q then some (m.homeOf place q) else m.home q := rfl

@[simp] theorem homeOf_touchAll (q : P) : (m.touchAll place A).homeOf place q = m.homeOf place q := by
  unfold homeOf
  rw [touchAll_home, touchAll_policy]
  by_cases hq : A q
  · rw [if_pos hq]
    rfl
  · rw [if_neg hq]

/-- Touching again changes nothing. -/
theorem touchAll_touchAll (hC : ∀ q, C q ↔ A q ∨ B q) :
    (m.touchAll place A).touchAll place B = m.touchAll place C := by
  ext1 q
  · rfl
  · by_cases hA : A q <;> by_cases hB : B q <;> simp [hA, hB, hC]

theorem touchAll_congr (hAB : ∀ q, A q ↔ B q) : m.touchAll place A = m.touchAll place B := by
  ext1 q
  · rfl
  · simp [hAB]

theorem touchAll_of_not (hA : ∀ q, ¬ A q) : m.touchAll place A = m := by
  ext1 q
  · rfl
  · simp [hA]

theorem touch_eq_touchAll [DecidableEq P] (q : P) : m.touch place q = m.touchAll place (· = q) := rfl

theorem bind_policy (q : P) :
    (m.bind place A p).policy q = if A q then some p else m.policy q := rfl

theorem bind_home (q : P) :
    (m.bind place A p).home q = if A q then some ((m.home q).getD (place q (some p))) else m.home q := by
  unfold bind
  rw [touchAll_home, setPolicy_home]
  by_cases hq : A q
  · rw [if_pos hq, if_pos hq]
    unfold homeOf
    rw [setPolicy_home, setPolicy_policy, if_pos hq]
  · rw [if_neg hq, if_neg hq]

/-- Binding one part after the other is binding the whole. -/
theorem bind_bind (hC : ∀ q, C q ↔ A q ∨ B q) :
    (m.bind place A p).bind place B p = m.bind place C p := by
  ext1 q
  · by_cases hA : A q <;> by_cases hB : B q <;> simp [bind_policy, hA, hB, hC]
  · by_cases hA : A q <;> by_cases hB : B q <;> simp [bind_home, hA, hB, hC]

theorem bind_congr (hAB : ∀ q, A q ↔ B q) : m.bind place A p = m.bind place B p := by
  ext1 q <;> simp [bind_policy, bind_home, hAB]

theorem bind_of_not (hA : ∀ q, ¬ A q) : m.bind place A p = m := by
  ext1 q <;> simp [bind_policy, bind_home, hA]

/-- **A policy that comes after the touch moves nothing.** -/
theorem bind_touched (hA : ∀ q, A q → m.home q ≠ none) : (m.bind place A p).home = m.home := by
  funext q
  rw [bind_home]
  by_cases hq : A q
  · obtain ⟨node, hnode⟩ := Option.ne_none_iff_exists'.1 (hA q hq)
    rw [if_pos hq, hnode]
    rfl
  · rw [if_neg hq]

end Lemmas

end Memory

end KvBench.Pages
