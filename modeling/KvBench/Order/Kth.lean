import Mathlib.Data.List.Sort
import Mathlib.Algebra.BigOperators.Group.Finset.Basic
import Mathlib.Tactic

/-!
# Order statistics of a list under a monotone key

The `k`-th smallest element of a list of a linear order, and how to find its key by counting: when
fewer than `k` elements have a key below `i` and at least `k` have a key at most `i`, the `k`-th
smallest element has the key `i`. A cumulative scan over the number of elements of each key finds
that `i`.
-/

namespace KvBench.Order

variable {α : Type*} [LinearOrder α]

/-- The `k`-th smallest element of `l`, counted from 1. -/
def kthSmallest (l : List α) (k : ℕ) : Option α := (l.mergeSort (fun a b => decide (a ≤ b)))[k - 1]?

theorem mergeSort_pairwise_le (l : List α) :
    (l.mergeSort (fun a b => decide (a ≤ b))).Pairwise (· ≤ ·) := by
  have h : (l.mergeSort (fun a b => decide (a ≤ b))).Pairwise (fun a b => decide (a ≤ b) = true) :=
    List.pairwise_mergeSort (fun a b c h1 h2 => by simp only [decide_eq_true_eq] at *; exact h1.trans h2)
      (fun a b => by simpa using le_total a b) l
  simpa using h

theorem exists_kthSmallest {l : List α} {k : ℕ} (hk1 : 1 ≤ k) (hk : k ≤ l.length) :
    ∃ x ∈ l, kthSmallest l k = some x := by
  have hlt : k - 1 < (l.mergeSort (fun a b => decide (a ≤ b))).length := by
    rw [List.length_mergeSort]; omega
  refine ⟨_, ?_, List.getElem?_eq_getElem hlt⟩
  exact (List.mergeSort_perm l _).mem_iff.1 (List.getElem_mem hlt)

theorem kthSmallest_mono {l : List α} {k k' : ℕ} {x y : α} (hk : k ≤ k')
    (hx : kthSmallest l k = some x) (hy : kthSmallest l k' = some y) : x ≤ y := by
  obtain ⟨h1, rfl⟩ := List.getElem?_eq_some_iff.1 hx
  obtain ⟨h2, rfl⟩ := List.getElem?_eq_some_iff.1 hy
  rcases Nat.eq_or_lt_of_le (show k - 1 ≤ k' - 1 by omega) with he | hlt
  · exact le_of_eq (getElem_congr_idx he)
  · exact List.pairwise_iff_getElem.1 (mergeSort_pairwise_le l) _ _ h1 h2 hlt

/-- In a sorted list, an element is at least everything before it and at most everything from it
on. -/
theorem le_of_mem_take {s : List α} (hs : s.Pairwise (· ≤ ·)) {j : ℕ} (hj : j < s.length) {a : α}
    (ha : a ∈ s.take (j + 1)) : a ≤ s[j] := by
  obtain ⟨i, hi, rfl⟩ := List.mem_take_iff_getElem.1 ha
  rcases Nat.eq_or_lt_of_le (show i ≤ j by omega) with rfl | hlt
  · exact le_rfl
  · exact List.pairwise_iff_getElem.1 hs _ _ (by omega) hj hlt

theorem le_of_mem_drop {s : List α} (hs : s.Pairwise (· ≤ ·)) {j : ℕ} (hj : j < s.length) {a : α}
    (ha : a ∈ s.drop j) : s[j] ≤ a := by
  obtain ⟨i, hi, rfl⟩ := List.mem_drop_iff_getElem.1 ha
  rcases Nat.eq_or_lt_of_le (show j ≤ j + i by omega) with he | hlt
  · exact le_of_eq (getElem_congr_idx he)
  · exact List.pairwise_iff_getElem.1 hs _ _ hj (by omega) hlt

/-- The last order statistic is the maximum. -/
theorem le_kthSmallest_length {l : List α} {a x : α} (ha : a ∈ l)
    (hx : kthSmallest l l.length = some x) : a ≤ x := by
  obtain ⟨hj, rfl⟩ := List.getElem?_eq_some_iff.1 hx
  refine le_of_mem_take (mergeSort_pairwise_le l) hj ?_
  rw [List.length_mergeSort] at hj
  rw [List.take_of_length_le (by rw [List.length_mergeSort]; omega)]
  exact (List.mergeSort_perm l _).mem_iff.2 ha

section Key

variable {l : List α} {f : α → ℕ} {i k : ℕ}

/-- **Finding the key of the `k`-th smallest by counting.** -/
theorem key_kthSmallest (hf : ∀ a ∈ l, ∀ b ∈ l, a ≤ b → f a ≤ f b) (hk1 : 1 ≤ k)
    (hlt : l.countP (fun a => decide (f a < i)) < k)
    (hle : k ≤ l.countP (fun a => decide (f a < i + 1))) :
    ∃ x ∈ l, kthSmallest l k = some x ∧ f x = i := by
  obtain ⟨x, hx, hkx⟩ := exists_kthSmallest hk1 (hle.trans List.countP_le_length)
  refine ⟨x, hx, hkx, ?_⟩
  have hperm := List.mergeSort_perm l (fun a b => decide (a ≤ b))
  have hsort := mergeSort_pairwise_le l
  set s := l.mergeSort (fun a b => decide (a ≤ b)) with hs
  obtain ⟨hj, rfl⟩ : ∃ hj : k - 1 < s.length, s[k - 1] = x := List.getElem?_eq_some_iff.1 hkx
  rw [← hperm.countP_eq] at hlt hle
  have hmem : ∀ a ∈ s, a ∈ l := fun a ha => hperm.mem_iff.1 ha
  apply le_antisymm
  · -- otherwise only the elements before it have a key below `i + 1`
    by_contra hgt
    have hdrop : (s.drop (k - 1)).countP (fun a => decide (f a < i + 1)) = 0 := by
      rw [List.countP_eq_zero]
      intro a ha
      have := hf _ hx a (hmem a (List.mem_of_mem_drop ha)) (le_of_mem_drop hsort hj ha)
      simp; omega
    have htake : (s.take (k - 1)).countP (fun a => decide (f a < i + 1)) ≤ k - 1 :=
      List.countP_le_length.trans (by simp)
    rw [← List.take_append_drop (k - 1) s, List.countP_append] at hle
    omega
  · -- otherwise the first `k` elements all have a key below `i`
    by_contra hlt'
    have htake : (s.take (k - 1 + 1)).countP (fun a => decide (f a < i)) = k - 1 + 1 := by
      rw [List.countP_eq_length.2, List.length_take]
      · omega
      · intro a ha
        have := hf a (hmem a (List.mem_of_mem_take ha)) _ hx (le_of_mem_take hsort hj ha)
        simp; omega
    rw [← List.take_append_drop (k - 1 + 1) s, List.countP_append] at hlt
    omega

end Key

/-- An order statistic lies below a bound exactly when that many elements do. -/
theorem kthSmallest_lt_iff {l : List α} {k : ℕ} {x : α} (hk1 : 1 ≤ k) (hx : kthSmallest l k = some x)
    (t : α) : x < t ↔ k ≤ l.countP (fun a => decide (a < t)) := by
  -- the bound as a key with two values
  set f : α → ℕ := fun a => if a < t then 0 else 1 with hf
  have hmono : ∀ a ∈ l, ∀ b ∈ l, a ≤ b → f a ≤ f b := by
    intro a _ b _ hab
    by_cases hb : b < t
    · simp [hf, hb, hab.trans_lt hb]
    · simp only [hf, if_neg hb]
      split_ifs <;> omega
  have hbelow : l.countP (fun a => decide (f a < 0 + 1)) = l.countP (fun a => decide (a < t)) := by
    refine List.countP_congr fun a _ => ?_
    by_cases ha : a < t <;> simp [hf, ha]
  by_cases hk : k ≤ l.countP (fun a => decide (a < t))
  · obtain ⟨y, -, hy, hfy⟩ := key_kthSmallest (i := 0) hmono hk1 (by simpa using Nat.pos_of_ne_zero (by omega)) (by rwa [hbelow])
    obtain rfl : y = x := Option.some.inj (hy.symm.trans hx)
    refine iff_of_true (by_contra fun hge => ?_) hk
    simp [hf, hge] at hfy
  · have hlen : k ≤ l.length := by
      obtain ⟨hlt, -⟩ := List.getElem?_eq_some_iff.1 hx
      rw [List.length_mergeSort] at hlt
      omega
    have hall : l.countP (fun a => decide (f a < 1 + 1)) = l.length := by
      refine List.countP_eq_length.2 fun a _ => ?_
      by_cases ha : a < t <;> simp [hf, ha]
    obtain ⟨y, -, hy, hfy⟩ := key_kthSmallest (i := 1) hmono hk1
      (by rw [hbelow] at *; exact not_le.1 hk) (by rwa [hall])
    obtain rfl : y = x := Option.some.inj (hy.symm.trans hx)
    refine iff_of_false (fun hlt => ?_) hk
    simp [hf, hlt] at hfy

theorem countP_lt_succ {β : Type*} (l : List β) (f : β → ℕ) (i : ℕ) :
    l.countP (fun a => decide (f a < i + 1)) =
      l.countP (fun a => decide (f a < i)) + l.countP (fun a => decide (f a = i)) := by
  induction l with
  | nil => simp
  | cons a l ih =>
    simp only [List.countP_cons, decide_eq_true_eq, ih]
    split_ifs <;> omega

/-- The elements with a key below `i`, counted key by key. -/
theorem sum_countP_eq {β : Type*} (l : List β) (f : β → ℕ) (i : ℕ) :
    ∑ j ∈ Finset.range i, l.countP (fun a => decide (f a = j)) =
      l.countP (fun a => decide (f a < i)) := by
  induction i with
  | zero => simp
  | succ i ih => rw [Finset.sum_range_succ, ih, countP_lt_succ]

end KvBench.Order
