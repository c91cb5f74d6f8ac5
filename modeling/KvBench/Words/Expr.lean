import Mathlib

/-!
# Sums and products of machine words, and intervals of addresses

`Expr` are the expressions a program computes addresses with. A machine of `w` bits evaluates them
with every intermediate result reduced (`eval`); `value` is the number that is meant. The two agree
when no intermediate result wraps (`Fits`).

`cell` are the intervals of a region that is divided into pieces of equal length.
-/

namespace KvBench.Words

/-! ### Expressions -/

/-- A word, a sum or a product. -/
inductive Expr where
  | word (x : ℕ)
  | add (a b : Expr)
  | mul (a b : Expr)

namespace Expr

instance : Coe ℕ Expr := ⟨word⟩
instance : Add Expr := ⟨add⟩
instance : Mul Expr := ⟨mul⟩

/-- The result on a machine of `w` bits. -/
def eval (w : ℕ) : Expr → ℕ
  | word x => x % 2 ^ w
  | add a b => (a.eval w + b.eval w) % 2 ^ w
  | mul a b => a.eval w * b.eval w % 2 ^ w

/-- The number that is meant. -/
def value : Expr → ℕ
  | word x => x
  | add a b => a.value + b.value
  | mul a b => a.value * b.value

/-- No intermediate result exceeds `w` bits. -/
def Fits (w : ℕ) : Expr → Prop
  | word x => x < 2 ^ w
  | add a b => a.Fits w ∧ b.Fits w ∧ a.value + b.value < 2 ^ w
  | mul a b => a.Fits w ∧ b.Fits w ∧ a.value * b.value < 2 ^ w

variable {w : ℕ} {a b e : Expr}

@[simp] theorem value_word (x : ℕ) : (word x).value = x := rfl
@[simp] theorem value_add : (a + b).value = a.value + b.value := rfl
@[simp] theorem value_mul : (a * b).value = a.value * b.value := rfl
@[simp] theorem fits_word (x : ℕ) : (word x).Fits w ↔ x < 2 ^ w := Iff.rfl

theorem Fits.add (ha : a.Fits w) (hb : b.Fits w) (h : a.value + b.value < 2 ^ w) :
    (a + b).Fits w := ⟨ha, hb, h⟩

theorem Fits.mul (ha : a.Fits w) (hb : b.Fits w) (h : a.value * b.value < 2 ^ w) :
    (a * b).Fits w := ⟨ha, hb, h⟩

/-- Reduction at the end is enough. -/
theorem eval_eq (w : ℕ) (e : Expr) : e.eval w = e.value % 2 ^ w := by
  induction e with
  | word x => rfl
  | add a b iha ihb =>
    simp only [eval, value, iha, ihb]
    exact (Nat.add_mod _ _ _).symm
  | mul a b iha ihb =>
    simp only [eval, value, iha, ihb]
    exact (Nat.mul_mod _ _ _).symm

theorem Fits.value_lt (h : e.Fits w) : e.value < 2 ^ w := by
  cases e with
  | word x => exact h
  | add a b => exact h.2.2
  | mul a b => exact h.2.2

/-- Without wrapping, the machine computes what is meant. -/
theorem Fits.eval (h : e.Fits w) : e.eval w = e.value := by
  rw [eval_eq, Nat.mod_eq_of_lt h.value_lt]

end Expr

/-! ### Cells -/

/-- The piece `k` of a region at `base` that is divided into pieces of length `h`. -/
def cell (base h k : ℕ) : Set ℕ := Set.Ico (base + k * h) (base + k * h + h)

variable {base h k k' x : ℕ}

theorem mem_cell : x ∈ cell base h k ↔ 0 < h ∧ base ≤ x ∧ (x - base) / h = k := by
  unfold cell
  rw [Set.mem_Ico]
  constructor
  · rintro ⟨hle, hlt⟩
    refine ⟨by omega, by omega, ?_⟩
    rw [Nat.div_eq_iff (by omega)]
    omega
  · rintro ⟨hh, hle, hk⟩
    rw [Nat.div_eq_iff hh] at hk
    omega

/-- Different pieces do not meet. -/
theorem disjoint_cell (base h : ℕ) (hk : k ≠ k') : Disjoint (cell base h k) (cell base h k') := by
  rw [Set.disjoint_left]
  intro x hx hx'
  exact hk ((mem_cell.1 hx).2.2.symm.trans (mem_cell.1 hx').2.2)

/-- Consecutive pieces make up an interval. -/
theorem iUnion_cell (hh : 0 < h) (base a n : ℕ) :
    ⋃ k ∈ Set.Iio n, cell base h (a + k) = Set.Ico (base + a * h) (base + (a + n) * h) := by
  ext x
  simp only [Set.mem_iUnion, Set.mem_Iio, exists_prop, mem_cell, Set.mem_Ico]
  constructor
  · rintro ⟨k, hk, -, hle, hx⟩
    rw [Nat.div_eq_iff hh] at hx
    have hlow : a * h ≤ (a + k) * h := Nat.mul_le_mul_right h (by omega)
    have hhigh : (a + k + 1) * h ≤ (a + n) * h := Nat.mul_le_mul_right h (by omega)
    rw [Nat.add_mul, Nat.one_mul] at hhigh
    omega
  · rintro ⟨hle, hlt⟩
    have hlow : a ≤ (x - base) / h := (Nat.le_div_iff_mul_le hh).2 (by omega)
    have hhigh : (x - base) / h < a + n := (Nat.div_lt_iff_lt_mul hh).2 (by omega)
    exact ⟨(x - base) / h - a, by omega, hh, by omega, by omega⟩

/-- The first `n` pieces lie in the region they make up. -/
theorem cell_subset {n len : ℕ} (hk : k < n) (hlen : n * h ≤ len) :
    cell base h k ⊆ Set.Ico base (base + len) := by
  intro x hx
  have hle : (k + 1) * h ≤ n * h := Nat.mul_le_mul_right h hk
  rw [Nat.add_mul, Nat.one_mul] at hle
  unfold cell at hx
  rw [Set.mem_Ico] at hx ⊢
  omega

end KvBench.Words
