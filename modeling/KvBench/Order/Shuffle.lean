import Mathlib.Data.List.Basic
import Mathlib.Tactic

/-!
# A partial Fisher–Yates shuffle

In every round the next place of a list is exchanged with a place drawn from those that are left.
The generator is arbitrary. A remainder by zero and an access beyond the end are failures (`none`).
Neither happens as long as there are no more rounds than places, and the list is permuted.
-/

namespace KvBench.Order

/-- The remainder, which is not defined for zero. -/
def checkedMod (a b : ℕ) : Option ℕ := if b = 0 then none else some (a % b)

theorem checkedMod_of_pos (a : ℕ) {b : ℕ} (hb : 0 < b) : checkedMod a b = some (a % b) :=
  if_neg hb.ne'

variable {α σ : Type}

/-- The exchange of two places. -/
def exchange (l : List α) (i j : ℕ) : Option (List α) := do
  let x ← l[i]?
  let y ← l[j]?
  some ((l.set i y).set j x)

theorem exchange_perm {l : List α} {i j : ℕ} (hi : i < l.length) (hj : j < l.length) :
    ∃ l', exchange l i j = some l' ∧ l'.Perm l := by
  refine ⟨_, ?_, List.set_set_perm hi hj⟩
  simp [exchange, List.getElem?_eq_getElem hi, List.getElem?_eq_getElem hj]

/-- The shuffle from the place `i` on, with a generator that steps by `next` and of whose states the
drawn numbers are read by `draw`: the list, and the last state of the generator. -/
def shuffleFrom (next : σ → σ) (draw : σ → ℕ) :
    (rounds i : ℕ) → List α → σ → Option (List α × σ)
  | 0, _, l, s => some (l, s)
  | rounds + 1, i, l, s => do
    let r ← checkedMod (draw (next s)) (l.length - i)
    let l ← exchange l i (i + r)
    shuffleFrom next draw rounds (i + 1) l (next s)

/-- **A shuffle permutes the list.** -/
theorem shuffleFrom_perm (next : σ → σ) (draw : σ → ℕ) :
    ∀ (rounds i : ℕ) (l : List α) (s : σ), i + rounds ≤ l.length →
      ∃ l' s', shuffleFrom next draw rounds i l s = some (l', s') ∧ l'.Perm l := by
  intro rounds
  induction rounds with
  | zero => intro i l s _; exact ⟨l, s, rfl, .refl l⟩
  | succ rounds ih =>
    intro i l s hle
    have hpos : 0 < l.length - i := by omega
    have hdraw : draw (next s) % (l.length - i) < l.length - i := Nat.mod_lt _ hpos
    obtain ⟨l₁, hex, hperm₁⟩ := exchange_perm (l := l) (i := i)
      (j := i + draw (next s) % (l.length - i)) (by omega) (by omega)
    obtain ⟨l', s', hrest, hperm⟩ := ih (i + 1) l₁ (next s) (by rw [hperm₁.length_eq]; omega)
    refine ⟨l', s', ?_, hperm.trans hperm₁⟩
    rw [shuffleFrom, checkedMod_of_pos _ hpos]
    simp only [Option.bind_eq_bind, Option.bind_some, hex]
    exact hrest

end KvBench.Order
