import Mathlib.Tactic
import Mathlib.Data.Int.Log
import Mathlib.Data.Rat.Floor

/-!
# Rounding to floating-point numbers

`roundTo p` rounds a nonnegative rational number to `p` significant bits, to nearest with ties to even.
The range of the exponents is not bounded.

A result of a computation with several roundings is off by a factor. `Near γ n x y` says that `x` and `y`
are within `n` factors of `γ` of each other. The relation goes through sums, products and quotients of
nonnegative numbers, and every rounding costs one factor (`near_roundTo`).
-/

namespace KvBench.Floats

/-! ### Rounding -/

/-- The nearest integer, and the even one if two are equally near. -/
def nearestEven (x : ℚ) : ℤ :=
  if x - ⌊x⌋ < 1 / 2 then ⌊x⌋
  else if 1 / 2 < x - ⌊x⌋ then ⌊x⌋ + 1
  else if ⌊x⌋ % 2 = 0 then ⌊x⌋ else ⌊x⌋ + 1

/-- The distance of neighbours with `p` bits, at `x`. -/
def ulp (p : ℕ) (x : ℚ) : ℚ := 2 ^ (Int.log 2 x + 1 - p)

/-- `x` with `p` significant bits. -/
def roundTo (p : ℕ) (x : ℚ) : ℚ := nearestEven (x / ulp p x) * ulp p x

theorem abs_nearestEven_sub_le (x : ℚ) : |(nearestEven x : ℚ) - x| ≤ 1 / 2 := by
  have hle : (⌊x⌋ : ℚ) ≤ x := Int.floor_le x
  have hlt : x < ⌊x⌋ + 1 := Int.lt_floor_add_one x
  unfold nearestEven
  rw [abs_le]
  split_ifs <;> push_cast <;> constructor <;> linarith

theorem ulp_pos (p : ℕ) (x : ℚ) : 0 < ulp p x := zpow_pos (by norm_num) _

theorem ulp_le {p : ℕ} {x : ℚ} (hx : 0 < x) : ulp p x * 2 ^ p ≤ 2 * x := by
  have hlog : (2 : ℚ) ^ Int.log 2 x ≤ x := Int.zpow_log_le_self (by norm_num) hx
  have heq : ulp p x * 2 ^ p = 2 * 2 ^ Int.log 2 x := by
    unfold ulp
    rw [← zpow_natCast, ← zpow_add₀ two_ne_zero, ← zpow_one_add₀ two_ne_zero]
    congr 1
    ring
  rw [heq]
  linarith

theorem abs_roundTo_sub_le (p : ℕ) {x : ℚ} (hx : 0 ≤ x) : |roundTo p x - x| * 2 ^ p ≤ x := by
  rcases hx.eq_or_lt with rfl | hx
  · simp [roundTo, nearestEven]
  have hulp := ulp_pos p x
  have hnear := abs_nearestEven_sub_le (x / ulp p x)
  have heq : roundTo p x - x = (nearestEven (x / ulp p x) - x / ulp p x) * ulp p x := by
    unfold roundTo
    rw [sub_mul, div_mul_cancel₀ _ hulp.ne']
  have habs : |roundTo p x - x| ≤ 1 / 2 * ulp p x := by
    rw [heq, abs_mul, abs_of_pos hulp]
    exact mul_le_mul_of_nonneg_right hnear hulp.le
  have hpow : (0 : ℚ) < 2 ^ p := by positivity
  calc |roundTo p x - x| * 2 ^ p ≤ 1 / 2 * ulp p x * 2 ^ p := mul_le_mul_of_nonneg_right habs hpow.le
    _ = 1 / 2 * (ulp p x * 2 ^ p) := by ring
    _ ≤ 1 / 2 * (2 * x) := mul_le_mul_of_nonneg_left (ulp_le hx) (by norm_num)
    _ = x := by ring

/-! ### Numbers that are off by factors -/

/-- `x` and `y` are within `n` factors of `γ`. -/
def Near (γ : ℚ) (n : ℕ) (x y : ℚ) : Prop := x ≤ γ ^ n * y ∧ y ≤ γ ^ n * x

section Near

variable {γ : ℚ} {n m : ℕ} {x y z x' y' : ℚ}

theorem Near.refl (γ : ℚ) (x : ℚ) : Near γ 0 x x := by
  unfold Near
  rw [pow_zero, one_mul]
  exact ⟨le_rfl, le_rfl⟩

theorem Near.mono (hγ : 1 ≤ γ) (hx : 0 ≤ x) (hy : 0 ≤ y) (h : Near γ n x y) (hnm : n ≤ m) :
    Near γ m x y := by
  have hpow : γ ^ n ≤ γ ^ m := pow_le_pow_right₀ hγ hnm
  exact ⟨h.1.trans (mul_le_mul_of_nonneg_right hpow hy), h.2.trans (mul_le_mul_of_nonneg_right hpow hx)⟩

theorem Near.trans (hγ : 1 ≤ γ) (h : Near γ n x y) (h' : Near γ m y z) : Near γ (n + m) x z := by
  have hn : 0 ≤ γ ^ n := pow_nonneg (zero_le_one.trans hγ) n
  have hm : 0 ≤ γ ^ m := pow_nonneg (zero_le_one.trans hγ) m
  constructor
  · calc x ≤ γ ^ n * y := h.1
      _ ≤ γ ^ n * (γ ^ m * z) := mul_le_mul_of_nonneg_left h'.1 hn
      _ = γ ^ (n + m) * z := by ring
  · calc z ≤ γ ^ m * y := h'.2
      _ ≤ γ ^ m * (γ ^ n * x) := mul_le_mul_of_nonneg_left h.2 hm
      _ = γ ^ (n + m) * x := by ring

theorem Near.add (h : Near γ n x y) (h' : Near γ n x' y') : Near γ n (x + x') (y + y') := by
  unfold Near
  rw [mul_add, mul_add]
  exact ⟨add_le_add h.1 h'.1, add_le_add h.2 h'.2⟩

theorem Near.mul (hγ : 1 ≤ γ) (hx : 0 ≤ x) (hy : 0 ≤ y) (hx' : 0 ≤ x') (hy' : 0 ≤ y')
    (h : Near γ n x y) (h' : Near γ m x' y') : Near γ (n + m) (x * x') (y * y') := by
  have hn : 0 ≤ γ ^ n := pow_nonneg (zero_le_one.trans hγ) n
  constructor
  · calc x * x' ≤ γ ^ n * y * (γ ^ m * y') := mul_le_mul h.1 h'.1 hx' (mul_nonneg hn hy)
      _ = γ ^ (n + m) * (y * y') := by ring
  · calc y * y' ≤ γ ^ n * x * (γ ^ m * x') := mul_le_mul h.2 h'.2 hy' (mul_nonneg hn hx)
      _ = γ ^ (n + m) * (x * x') := by ring

theorem Near.inv (hx : 0 < x) (hy : 0 < y) (h : Near γ n x y) : Near γ n x⁻¹ y⁻¹ := by
  constructor
  · rw [inv_le_iff_one_le_mul₀ hx, mul_right_comm, ← div_eq_mul_inv, le_div_iff₀ hy, one_mul]
    exact h.2
  · rw [inv_le_iff_one_le_mul₀ hy, mul_right_comm, ← div_eq_mul_inv, le_div_iff₀ hx, one_mul]
    exact h.1

theorem Near.div (hγ : 1 ≤ γ) (hx : 0 ≤ x) (hy : 0 ≤ y) (hx' : 0 < x') (hy' : 0 < y')
    (h : Near γ n x y) (h' : Near γ m x' y') : Near γ (n + m) (x / x') (y / y') := by
  rw [div_eq_mul_inv, div_eq_mul_inv]
  exact h.mul hγ hx hy (inv_nonneg.2 hx'.le) (inv_nonneg.2 hy'.le) (h'.inv hx' hy')

end Near

/-! ### The factor of a rounding -/

/-- The factor by which a rounding to `p` bits can be off. -/
def stretch (p : ℕ) : ℚ := 2 ^ p / (2 ^ p - 1)

section Stretch

variable {p : ℕ}

theorem two_le_pow (hp : 1 ≤ p) : (2 : ℚ) ≤ 2 ^ p := by
  calc (2 : ℚ) = 2 ^ 1 := (pow_one 2).symm
    _ ≤ 2 ^ p := pow_le_pow_right₀ one_le_two hp

theorem one_le_stretch (hp : 1 ≤ p) : 1 ≤ stretch p := by
  have htwo := two_le_pow hp
  unfold stretch
  rw [le_div_iff₀ (by linarith)]
  linarith

theorem stretch_pos (hp : 1 ≤ p) : 0 < stretch p := one_pos.trans_le (one_le_stretch hp)

/-- **A rounding costs one factor.** -/
theorem near_roundTo (hp : 1 ≤ p) {x : ℚ} (hx : 0 ≤ x) : Near (stretch p) 1 (roundTo p x) x := by
  have htwo := two_le_pow hp
  have hpos : (0 : ℚ) < 2 ^ p - 1 := by linarith
  obtain ⟨hlow, hhigh⟩ := abs_le.1
    ((le_div_iff₀ (by linarith : (0 : ℚ) < 2 ^ p)).2 (abs_roundTo_sub_le p hx))
  have hu : x / 2 ^ p * 2 ^ p = x := div_mul_cancel₀ _ (by linarith)
  unfold Near stretch
  rw [pow_one, div_mul_eq_mul_div, div_mul_eq_mul_div, le_div_iff₀ hpos, le_div_iff₀ hpos]
  have hu0 : 0 ≤ x / 2 ^ p := div_nonneg hx (by linarith)
  constructor
  · nlinarith
  · nlinarith

theorem roundTo_nonneg {x : ℚ} (hx : 0 ≤ x) : 0 ≤ roundTo p x := by
  obtain ⟨hlow, -⟩ := abs_le.1
    ((le_div_iff₀ (by positivity : (0 : ℚ) < 2 ^ p)).2 (abs_roundTo_sub_le p hx))
  have hu : x / 2 ^ p ≤ x := div_le_self hx (one_le_pow₀ one_le_two)
  linarith

theorem roundTo_pos (hp : 1 ≤ p) {x : ℚ} (hx : 0 < x) : 0 < roundTo p x := by
  obtain ⟨-, hle⟩ := near_roundTo hp hx.le
  rw [pow_one] at hle
  exact (mul_pos_iff_of_pos_left (stretch_pos hp)).1 (hx.trans_le hle)

end Stretch

end KvBench.Floats
