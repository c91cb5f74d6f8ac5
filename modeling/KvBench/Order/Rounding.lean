import Mathlib.Tactic

/-!
# Rounding with error feedback

Units are handed out to two parties, one in every step, in the proportion `a : W - a`. The first
party gets the unit when at least half a unit is owed to it, and the error is carried over to the
next step. So no prefix is off by more than half a unit, and the errors repeat once a whole number
of units is due.
-/

namespace KvBench.Order

section Error

variable (a W : ℤ)

/-- A step adds the share `a` of the first of two parties to the error `e`; if at least half a unit
`W` is owed then, the party gets a unit. -/
def nextError (e : ℤ) : ℤ := if W ≤ 2 * (e + a) then e + a - W else e + a

/-- The error after `n` steps. -/
def errorAt (n : ℕ) : ℤ := (nextError a W)^[n] 0

/-- The number of units handed out in the first `n` steps. -/
def unitsAt (n : ℕ) : ℕ := (List.range n).countP fun j => decide (W ≤ 2 * (errorAt a W j + a))

theorem errorAt_succ (n : ℕ) : errorAt a W (n + 1) = nextError a W (errorAt a W n) :=
  Function.iterate_succ_apply' _ _ _

variable {a W}

theorem nextError_bound (ha : 0 ≤ a) (haW : a ≤ W) {e : ℤ} (he : 2 * |e| ≤ W) :
    2 * |nextError a W e| ≤ W := by
  obtain ⟨h1, h2⟩ := abs_le.1 (show |2 * e| ≤ W by rwa [abs_mul, abs_two])
  have hgoal : |2 * nextError a W e| ≤ W := by
    unfold nextError
    rw [abs_le]
    split <;> constructor <;> linarith
  rwa [abs_mul, abs_two] at hgoal

/-- **The error stays within half a unit.** -/
theorem errorAt_bound (ha : 0 ≤ a) (haW : a ≤ W) (n : ℕ) : 2 * |errorAt a W n| ≤ W := by
  induction n with
  | zero => simpa [errorAt] using ha.trans haW
  | succ n ih =>
    rw [errorAt_succ]
    exact nextError_bound ha haW ih

/-- **What the error says**: the share that is due, less the units handed out. -/
theorem errorAt_eq (n : ℕ) : errorAt a W n = n * a - unitsAt a W n * W := by
  induction n with
  | zero => simp [errorAt, unitsAt]
  | succ n ih =>
    have hunits : unitsAt a W (n + 1) =
        unitsAt a W n + if W ≤ 2 * (errorAt a W n + a) then 1 else 0 := by
      simp only [unitsAt, List.range_succ, List.countP_append, List.countP_singleton,
        decide_eq_true_eq]
    rw [errorAt_succ, nextError, hunits]
    split <;> push_cast <;> rw [ih] <;> ring

theorem errorAt_lt (hW : 0 < W) (haW : a ≤ W) (n : ℕ) : 2 * errorAt a W n < W := by
  induction n with
  | zero => simpa [errorAt] using hW
  | succ n ih =>
    rw [errorAt_succ, nextError]
    split <;> linarith

/-- **The error without the recursion**: the remainder of the share that is due, taken around
zero. -/
theorem errorAt_eq_bmod {W : ℕ} (hW : 0 < W) (ha : 0 ≤ a) (haW : a ≤ W) (n : ℕ) :
    errorAt a W n = (n * a).bmod W := by
  have hlow := (abs_le.1 (show |2 * errorAt a W n| ≤ W by
    rw [abs_mul, abs_two]
    exact errorAt_bound ha haW n)).1
  have hhigh := errorAt_lt (by exact_mod_cast hW) haW n
  have hrange : (errorAt a W n).bmod W = errorAt a W n :=
    Int.bmod_eq_of_le_mul_two (by omega) (by omega)
  rw [← hrange, errorAt_eq, Int.sub_mul_bmod_self_right]

/-- When a whole number of units is due, they have been handed out. -/
theorem errorAt_eq_zero (hW : 0 < W) (ha : 0 ≤ a) (haW : a ≤ W) {n : ℕ} (hdvd : W ∣ n * a) :
    errorAt a W n = 0 := by
  have hbound := errorAt_bound ha haW n
  refine Int.eq_zero_of_abs_lt_dvd (m := W) ?_ (by have := abs_nonneg (errorAt a W n); linarith)
  rw [errorAt_eq]
  exact dvd_sub hdvd (dvd_mul_left W _)

/-- **The errors repeat** from the first time on that a whole number of units is due. -/
theorem errorAt_add (hW : 0 < W) (ha : 0 ≤ a) (haW : a ≤ W) {period : ℕ} (hdvd : W ∣ period * a)
    (n : ℕ) : errorAt a W (n + period) = errorAt a W n := by
  have hzero := errorAt_eq_zero hW ha haW hdvd
  unfold errorAt at hzero ⊢
  rw [Function.iterate_add_apply, hzero]

end Error

end KvBench.Order
