import KvBench.Bench.Weights

/-!
# The weighted choice of chips

`pick_weighted_chip` hands the sends of a request out to two chips in proportion to their weights: it
gives each send to the chip that is further behind. The counters and products wrap at 32 bits, but
for a sum of 30 bits the deficits they are compared by fit, so that the loop of the source rounds
with error feedback (`pickWeightedChip_eq`).
-/

namespace KvBench.Bench

open KvBench.Order

section Args

variable {args : Argument} (h1 : 0 < args.chipWeight.1) (h2 : 0 < args.chipWeight.2)
  (hsum : args.chipWeight.1 + args.chipWeight.2 ≤ 2 ^ 30)
include h1 h2 hsum

omit h1 h2 in
theorem faithful_errorAt (j : ℕ) :
    Faithful args.chipWeight.1 (args.chipWeight.1 + args.chipWeight.2 : ℕ)
      (errorAt args.chipWeight.1 (args.chipWeight.1 + args.chipWeight.2 : ℕ) j) :=
  faithful_of_small (by omega) (by omega) (errorAt_bound (by positivity) (by omega) j)

/-- The choice for a send, from the error before it. -/
theorem pickWeightedChip_eq (j : ℕ) :
    pickWeightedChip args j =
      chipFor args.chipWeight.1 (args.chipWeight.1 + args.chipWeight.2 : ℕ)
        (errorAt args.chipWeight.1 (args.chipWeight.1 + args.chipWeight.2 : ℕ) j) := by
  have hne : (args.chipWeight.1 + args.chipWeight.2) % 2 ^ 32 ≠ 0 := by omega
  rw [pickWeightedChip_walk rfl h1.ne' h2.ne' hne fun k _ => faithful_errorAt hsum k]
  exact if_congr (faithful_errorAt hsum j) rfl rfl

/-- The sends of the first chip are the units it is handed. -/
theorem countP_pickWeightedChip (n : ℕ) :
    (List.range n).countP (fun j => decide (pickWeightedChip args j = 1)) =
      unitsAt args.chipWeight.1 (args.chipWeight.1 + args.chipWeight.2 : ℕ) n := by
  refine List.countP_congr fun j _ => ?_
  rw [pickWeightedChip_eq h1 h2 hsum]
  simp only [chipFor, decide_eq_true_eq]
  split <;> simp_all

end Args

/-- **The quota of the weighted choice.** For positive weights whose sum has 30 bits, of the first
`n` sends the first chip gets its share up to half a send, and exactly its share when that is a whole
number; the choices repeat after `(w1 + w2) / gcd w1 w2` sends, and for equal weights they
alternate. -/
theorem weighted_chip_quota (args : Argument) (w1 w2 : ℕ) (hw : args.chipWeight = (w1, w2))
    (h1 : 0 < w1) (h2 : 0 < w2) (hsum : w1 + w2 ≤ 2 ^ 30) :
    (∀ n : ℕ, let c1 := (List.range n).countP fun j => decide (pickWeightedChip args j = 1)
      2 * |(c1 : ℤ) * (w1 + w2) - n * w1| ≤ w1 + w2 ∧
        (w1 + w2 ∣ n * w1 → c1 * (w1 + w2) = n * w1)) ∧
    (∀ j, pickWeightedChip args j = 1 ∨ pickWeightedChip args j = 2) ∧
    (∀ j, pickWeightedChip args (j + (w1 + w2) / Nat.gcd w1 w2) = pickWeightedChip args j) ∧
    (w1 = w2 → ∀ j, pickWeightedChip args j = if j % 2 = 0 then 1 else 2) := by
  obtain ⟨rfl, rfl⟩ : args.chipWeight.1 = w1 ∧ args.chipWeight.2 = w2 := by simp [hw]
  set w1 := args.chipWeight.1
  set w2 := args.chipWeight.2
  have hW : (0 : ℤ) < (w1 + w2 : ℕ) := by omega
  have ha : (0 : ℤ) ≤ w1 := by positivity
  have haW : (w1 : ℤ) ≤ (w1 + w2 : ℕ) := by omega
  refine ⟨fun n => ?_, fun j => ?_, fun j => ?_, fun heq j => ?_⟩
  · have herr := errorAt_eq (a := w1) (W := (w1 + w2 : ℕ)) n
    have hbound := errorAt_bound ha haW n
    intro c1
    rw [← countP_pickWeightedChip h1 h2 hsum] at herr
    have hneg : (c1 : ℤ) * (w1 + w2) - n * w1 = -errorAt w1 (w1 + w2 : ℕ) n := by
      rw [herr]; push_cast; ring
    refine ⟨by rw [hneg, abs_neg]; exact_mod_cast hbound, fun hdvd => ?_⟩
    have hzero := errorAt_eq_zero hW ha haW (n := n) (by exact_mod_cast hdvd)
    rw [hzero, neg_zero, sub_eq_zero] at hneg
    exact_mod_cast hneg
  · rw [pickWeightedChip_eq h1 h2 hsum, chipFor]
    split
    · exact Or.inl rfl
    · exact Or.inr rfl
  · rw [pickWeightedChip_eq h1 h2 hsum, pickWeightedChip_eq h1 h2 hsum, errorAt_add hW ha haW]
    obtain ⟨q, hq⟩ := Nat.gcd_dvd_left w1 w2
    have hg : Nat.gcd w1 w2 ∣ w1 + w2 := dvd_add (Nat.gcd_dvd_left _ _) (Nat.gcd_dvd_right _ _)
    refine ⟨q, ?_⟩
    have hnat : (w1 + w2) / Nat.gcd w1 w2 * w1 = (w1 + w2) * q := by
      calc (w1 + w2) / Nat.gcd w1 w2 * w1
          = (w1 + w2) / Nat.gcd w1 w2 * (Nat.gcd w1 w2 * q) := by rw [← hq]
        _ = (w1 + w2) * q := by rw [← mul_assoc, Nat.div_mul_cancel hg]
    exact_mod_cast hnat
  · -- the error is zero before every other send
    have hperiod : ((w1 + w2 : ℕ) : ℤ) ∣ (2 : ℕ) * w1 := ⟨1, by rw [← heq]; push_cast; ring⟩
    rw [pickWeightedChip_eq h1 h2 hsum]
    induction j using Nat.twoStepInduction with
    | zero =>
      rw [chipFor, if_pos, if_pos rfl]
      simp only [errorAt, Function.iterate_zero, id]
      omega
    | one =>
      rw [chipFor, if_neg, if_neg (by norm_num)]
      simp only [errorAt, Function.iterate_one, nextError]
      split <;> omega
    | more j ih _ =>
      rw [errorAt_add hW ha haW hperiod, ih, Nat.add_mod_right]

/-- Weights 7 and 3: of ten sends the first chip gets seven. -/
theorem weighted_chip_quota_seven :
    (List.range 10).countP (fun j => decide
      (pickWeightedChip { smallArgs .write 1 1 with chipWeight := (7, 3) } j = 1)) * 10 = 70 :=
  ((weighted_chip_quota { smallArgs .write 1 1 with chipWeight := (7, 3) } 7 3 rfl (by norm_num)
    (by norm_num) (by norm_num)).1 10).2 (by norm_num)

end KvBench.Bench
