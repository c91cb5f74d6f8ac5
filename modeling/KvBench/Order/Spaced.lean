import Mathlib.Algebra.BigOperators.Fin
import Mathlib.Algebra.Order.BigOperators.Group.Finset
import Mathlib.Tactic

/-!
# Points in time with a least distance

A schedule that never acts twice within `δ` has at most `T / δ + 1` of its points in a window of
length `T`, and several such schedules together have the sum of that.
-/

namespace KvBench.Order

section Spaced

variable {α : Type*} [AddCommMonoid α] [LinearOrder α] {δ a T x : α} {l : List α}

/-- Points, the last first, each at least `δ` after all before it. -/
def Spaced (δ : α) (l : List α) : Prop := l.Pairwise fun later earlier => earlier + δ ≤ later

/-- The number of points in a closed window. -/
def inWindow (a T : α) (l : List α) : ℕ := (l.filter fun x => a ≤ x ∧ x ≤ a + T).length

theorem spaced_nil : Spaced δ [] := List.Pairwise.nil

theorem spaced_cons : Spaced δ (x :: l) ↔ (∀ y ∈ l, y + δ ≤ x) ∧ Spaced δ l := List.pairwise_cons

theorem Spaced.filter (h : Spaced δ l) (p : α → Bool) : Spaced δ (l.filter p) :=
  List.Pairwise.filter p h

/-- Points after `a` that have `l` before them. -/
theorem Spaced.add_nsmul_le [IsOrderedAddMonoid α] (h : Spaced δ (x :: l)) (ha : ∀ y ∈ x :: l, a ≤ y) :
    a + l.length • δ ≤ x := by
  induction l generalizing x with
  | nil => simpa using ha x List.mem_cons_self
  | cons y l ih =>
    obtain ⟨hx, hl⟩ := spaced_cons.1 h
    have hy : a + l.length • δ ≤ y := ih hl fun z hz => ha z (List.mem_cons_of_mem _ hz)
    calc a + (y :: l).length • δ = a + l.length • δ + δ := by
          rw [List.length_cons, succ_nsmul, add_assoc]
      _ ≤ y + δ := by gcongr
      _ ≤ x := hx y List.mem_cons_self

end Spaced

section Window

variable {δ a T : ℕ} {l : List ℕ}

/-- **One schedule in a window.** -/
theorem Spaced.inWindow_mul_le (h : Spaced δ l) (a T : ℕ) : inWindow a T l * δ ≤ T + δ := by
  have hmem : ∀ y ∈ l.filter fun x => a ≤ x ∧ x ≤ a + T, a ≤ y ∧ y ≤ a + T := by
    intro y hy
    simpa using (List.mem_filter.1 hy).2
  have hspaced := h.filter fun x => a ≤ x ∧ x ≤ a + T
  unfold inWindow
  cases hf : l.filter fun x => a ≤ x ∧ x ≤ a + T with
  | nil => simp
  | cons x rest =>
    rw [hf] at hmem hspaced
    have hlow := hspaced.add_nsmul_le fun y hy => (hmem y hy).1
    have hhigh := (hmem x List.mem_cons_self).2
    rw [smul_eq_mul] at hlow
    rw [List.length_cons, Nat.add_mul, Nat.one_mul]
    omega

/-- **Several schedules in a window.** When `n` schedules with the distance `δ` amount to at most
`rate` points in `unit`, they have at most `rate * T / unit + n` points in a window of length `T`. -/
theorem sum_inWindow_mul_le {n rate unit : ℕ} {l : Fin n → List ℕ} (h : ∀ i, Spaced δ (l i))
    (hpos : 0 < δ) (hrate : n * unit ≤ rate * δ) (a T : ℕ) :
    (∑ i, inWindow a T (l i)) * unit ≤ rate * T + n * unit := by
  have hsum : (∑ i, inWindow a T (l i)) * δ ≤ n * (T + δ) := by
    rw [Finset.sum_mul]
    calc ∑ i, inWindow a T (l i) * δ ≤ ∑ _i : Fin n, (T + δ) :=
          Finset.sum_le_sum fun i _ => (h i).inWindow_mul_le a T
      _ = n * (T + δ) := by rw [Fin.sum_const, smul_eq_mul]
  set count := ∑ i, inWindow a T (l i)
  -- both sides times `δ`
  refine Nat.le_of_mul_le_mul_right ?_ hpos
  calc count * unit * δ = count * δ * unit := by ring
    _ ≤ n * (T + δ) * unit := Nat.mul_le_mul_right _ hsum
    _ = n * unit * T + n * unit * δ := by ring
    _ ≤ rate * δ * T + n * unit * δ := by gcongr
    _ = (rate * T + n * unit) * δ := by ring

end Window

end KvBench.Order
