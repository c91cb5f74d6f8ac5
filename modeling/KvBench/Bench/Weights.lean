import KvBench.Bench.Chips
import KvBench.Order.Rounding

/-!
# The arithmetic of the chip weights

`pick_weighted_chip` gives each send to the chip that is further behind. In unbounded integers
(`exactChip`) this is rounding with error feedback. The source computes the sum of the weights, the
targets and the deficits in 32 bits: the deficits are right modulo `2 ^ 32` even when the sum wraps
around, but they are compared as signed numbers. So the choice is the right one exactly as long as
the comparison of the remainders agrees with the comparison of the deficits (`weightsExact_iff`).
-/

namespace KvBench.Bench

open KvBench.Order

/-! ### The algorithm in unbounded integers -/

/-- How much a chip of weight `w` is behind after `i + 1` sends of which it got `c`. -/
def exactDeficit (w total i c : ℕ) : ℤ := ((i + 1) * w : ℕ) - (c * total : ℕ)

/-- The loop of `pick_weighted_chip` in unbounded integers, with `left` rounds before the last. -/
def exactLoop (w1 w2 : ℕ) : (left i c1 c2 : ℕ) → ℤ
  | 0, i, c1, c2 =>
    if exactDeficit w2 (w1 + w2) i c2 ≤ exactDeficit w1 (w1 + w2) i c1 then 1 else 2
  | left + 1, i, c1, c2 =>
    if exactDeficit w2 (w1 + w2) i c2 ≤ exactDeficit w1 (w1 + w2) i c1 then
      exactLoop w1 w2 left (i + 1) (c1 + 1) c2
    else exactLoop w1 w2 left (i + 1) c1 (c2 + 1)

/-- `pick_weighted_chip` in unbounded integers. -/
def exactChip (w1 w2 sendIdx : ℕ) : ℤ :=
  if w1 + w2 = 0 then 1
  else if w2 = 0 then 1
  else if w1 = 0 then 2
  else exactLoop w1 w2 sendIdx 0 0 0

/-- The chip that gets the next send when the first one is owed `e`, in units of `1 / W` sends. -/
def chipFor (w1 W e : ℤ) : ℤ := if W ≤ 2 * (e + w1) then 1 else 2

/-- The comparison of the source prefers the first chip when that is owed `e`: the deficits of the
two chips are `e + w1` and `W - (e + w1)`, read as signed 32-bit numbers. -/
def WordPrefers (w1 W e : ℤ) : Prop :=
  (W - (e + w1)).bmod (2 ^ 32) ≤ (e + w1).bmod (2 ^ 32)

instance (w1 W e : ℤ) : Decidable (WordPrefers w1 W e) := by
  unfold WordPrefers
  infer_instance

/-- The comparison of the source is right when the first chip is owed `e`. -/
def Faithful (w1 W e : ℤ) : Prop := WordPrefers w1 W e ↔ W ≤ 2 * (e + w1)

theorem deficit_mod (w total i c : ℕ) :
    deficit w (total % 2 ^ 32) i c = (exactDeficit w total i c).bmod (2 ^ 32) := by
  have hsplit : (((i + 1) * w : ℕ) - (c * (total % 2 ^ 32) : ℕ) : ℤ) =
      exactDeficit w total i c + ((2 ^ 32 : ℕ) : ℤ) * (c * (total / 2 ^ 32) : ℕ) := by
    have htotal : (total : ℤ) = (2 ^ 32 : ℕ) * (total / 2 ^ 32 : ℕ) + (total % 2 ^ 32 : ℕ) := by
      exact_mod_cast (Nat.div_add_mod total (2 ^ 32)).symm
    unfold exactDeficit
    push_cast at htotal ⊢
    linear_combination (c : ℤ) * htotal
  rw [deficit, hsplit, Int.add_mul_bmod_self_left]

section Walk

variable {w1 w2 : ℕ} {i c1 c2 : ℕ} {e : ℤ}

theorem exactDeficit_fst (he : e = i * w1 - c1 * (w1 + w2 : ℕ)) :
    exactDeficit w1 (w1 + w2) i c1 = e + w1 := by
  rw [he, exactDeficit]
  push_cast
  ring

theorem exactDeficit_snd (hi : c1 + c2 = i) (he : e = i * w1 - c1 * (w1 + w2 : ℕ)) :
    exactDeficit w2 (w1 + w2) i c2 = (w1 + w2 : ℕ) - (e + w1) := by
  rw [he, ← hi, exactDeficit]
  push_cast
  ring

theorem nextError_fst (he : e = i * w1 - c1 * (w1 + w2 : ℕ))
    (h : ((w1 + w2 : ℕ) : ℤ) ≤ 2 * (e + w1)) :
    nextError w1 (w1 + w2 : ℕ) e =
      ((i + 1 : ℕ) : ℤ) * w1 - ((c1 + 1 : ℕ) : ℤ) * (w1 + w2 : ℕ) := by
  rw [nextError, if_pos h, he]
  push_cast
  ring

theorem nextError_snd (he : e = i * w1 - c1 * (w1 + w2 : ℕ))
    (h : ¬ ((w1 + w2 : ℕ) : ℤ) ≤ 2 * (e + w1)) :
    nextError w1 (w1 + w2 : ℕ) e = ((i + 1 : ℕ) : ℤ) * w1 - (c1 : ℤ) * (w1 + w2 : ℕ) := by
  rw [nextError, if_neg h, he]
  push_cast
  ring

theorem exactDeficit_le_iff (hi : c1 + c2 = i) (he : e = i * w1 - c1 * (w1 + w2 : ℕ)) :
    exactDeficit w2 (w1 + w2) i c2 ≤ exactDeficit w1 (w1 + w2) i c1 ↔
      ((w1 + w2 : ℕ) : ℤ) ≤ 2 * (e + w1) := by
  rw [exactDeficit_fst he, exactDeficit_snd hi he]
  omega

theorem deficit_le_iff (hi : c1 + c2 = i) (he : e = i * w1 - c1 * (w1 + w2 : ℕ)) :
    deficit w2 ((w1 + w2) % 2 ^ 32) i c2 ≤ deficit w1 ((w1 + w2) % 2 ^ 32) i c1 ↔
      WordPrefers w1 (w1 + w2 : ℕ) e := by
  rw [deficit_mod, deficit_mod, exactDeficit_fst he, exactDeficit_snd hi he]
  exact Iff.rfl

/-- **The loop in unbounded integers** carries the error over from send to send. -/
theorem exactLoop_eq (left : ℕ) (hi : c1 + c2 = i) (he : e = i * w1 - c1 * (w1 + w2 : ℕ)) :
    exactLoop w1 w2 left i c1 c2 =
      chipFor w1 (w1 + w2 : ℕ) ((nextError w1 (w1 + w2 : ℕ))^[left] e) := by
  induction left generalizing i c1 c2 e with
  | zero => exact if_congr (exactDeficit_le_iff hi he) rfl rfl
  | succ left ih =>
    simp only [exactLoop, exactDeficit_le_iff hi he, Function.iterate_succ_apply]
    split
    · rename_i hge
      exact ih (by omega) (nextError_fst he hge)
    · rename_i hlt
      exact ih (by omega) (nextError_snd he hlt)

/-- **The loop of the source** carries the same error over, as long as its comparisons are right;
the last one decides. -/
theorem weightedLoop_walk (left : ℕ) (hi : c1 + c2 = i) (he : e = i * w1 - c1 * (w1 + w2 : ℕ))
    (hfaithful : ∀ k < left,
      Faithful w1 (w1 + w2 : ℕ) ((nextError w1 (w1 + w2 : ℕ))^[k] e)) :
    weightedLoop w1 w2 left i c1 c2 =
      if WordPrefers w1 (w1 + w2 : ℕ) ((nextError w1 (w1 + w2 : ℕ))^[left] e) then 1 else 2 := by
  induction left generalizing i c1 c2 e with
  | zero => exact if_congr (deficit_le_iff hi he) rfl rfl
  | succ left ih =>
    have hfirst : WordPrefers w1 (w1 + w2 : ℕ) e ↔ ((w1 + w2 : ℕ) : ℤ) ≤ 2 * (e + w1) :=
      hfaithful 0 (by omega)
    have hrest : ∀ k < left, Faithful w1 (w1 + w2 : ℕ)
        ((nextError w1 (w1 + w2 : ℕ))^[k] (nextError w1 (w1 + w2 : ℕ) e)) := by
      intro k hk
      rw [← Function.iterate_succ_apply]
      exact hfaithful (k + 1) (by omega)
    simp only [weightedLoop, deficit_le_iff hi he, hfirst, Function.iterate_succ_apply]
    split
    · rename_i hge
      exact ih (by omega) (nextError_fst he hge) hrest
    · rename_i hlt
      exact ih (by omega) (nextError_snd he hlt) hrest

end Walk

/-! ### Deficits that fit -/

theorem bmod_word {d : ℤ} (hlow : -2 ^ 31 ≤ d) (hhigh : d < 2 ^ 31) : d.bmod (2 ^ 32) = d :=
  Int.bmod_eq_of_le (by norm_num; omega) (by norm_num; omega)

theorem faithful_of_fits {w1 W e : ℤ} (h1 : -2 ^ 31 ≤ e + w1) (h2 : e + w1 < 2 ^ 31)
    (h3 : -2 ^ 31 ≤ W - (e + w1)) (h4 : W - (e + w1) < 2 ^ 31) : Faithful w1 W e := by
  rw [Faithful, WordPrefers, bmod_word h1 h2, bmod_word h3 h4]
  omega

/-- The error is at most half a send, so the deficits fit when one and a half times a weight and
half the other one have 31 bits together. -/
theorem faithful_of_small {w1 w2 : ℕ} {e : ℤ} (h1 : 3 * w1 + w2 < 2 ^ 32)
    (h2 : w1 + 3 * w2 < 2 ^ 32) (he : 2 * |e| ≤ (w1 + w2 : ℕ)) :
    Faithful w1 (w1 + w2 : ℕ) e := by
  obtain ⟨hlow, hhigh⟩ := abs_le.1 (show |2 * e| ≤ (w1 + w2 : ℕ) by rwa [abs_mul, abs_two])
  push_cast at hlow hhigh
  apply faithful_of_fits <;> push_cast <;> omega

/-! ### The weights that are handled exactly -/

/-- **The arithmetic is exact for a pair of weights**: options that are otherwise in order are
rejected as both zero exactly when both are zero, and every choice of accepted options is the one
of unbounded integers. -/
structure WeightsExact (w1 w2 : ℕ) : Prop where
  rejected : ∀ args : Argument, validateInputParams { args with chipWeight := (1, 1) } = .ok () →
    (validateInputParams { args with chipWeight := (w1, w2) } =
        .error ("Invalid --chip-weight " ++ toString w1 ++ ":" ++ toString w2 ++ " (both zero)") ↔
      w1 = 0 ∧ w2 = 0)
  chip : ∀ args : Argument, validateInputParams args = .ok () → args.chipWeight = (w1, w2) →
    ∀ sendIdx < 10, pickWeightedChip args sendIdx = exactChip w1 w2 sendIdx

section Exact

variable {args : Argument} {w1 w2 : ℕ}

/-- What the checks say of weights when everything else is in order. -/
theorem validateInputParams_weights
    (h : validateInputParams { args with chipWeight := (1, 1) } = .ok ()) (w1 w2 : ℕ) :
    validateInputParams { args with chipWeight := (w1, w2) } =
      if (w1 + w2) % 2 ^ 32 = 0 then
        .error ("Invalid --chip-weight " ++ toString w1 ++ ":" ++ toString w2 ++ " (both zero)")
      else if args.singleChip ≠ 0 ∧ (w1 ≠ 1 ∨ w2 ≠ 1) then
        .error "--single-chip and --chip-weight are mutually exclusive"
      else .ok () := by
  unfold validateInputParams at h ⊢
  dsimp only at h ⊢
  obtain ⟨hvalue, h⟩ := check_ok h
  obtain ⟨hsend, h⟩ := check_ok h
  obtain ⟨hget, h⟩ := check_ok h
  obtain ⟨hdual, h⟩ := check_ok h
  obtain ⟨hthreads, h⟩ := check_ok h
  obtain ⟨hconc, h⟩ := check_ok h
  obtain ⟨hsingle, h⟩ := check_ok h
  obtain ⟨-, h⟩ := check_ok h
  obtain ⟨-, h⟩ := check_ok h
  obtain ⟨hratio, h⟩ := check_ok h
  obtain ⟨htrans, h⟩ := check_ok h
  obtain ⟨hbond, -⟩ := check_ok h
  rw [if_neg hvalue, if_neg hsend, if_neg hget, if_neg hdual, if_neg hthreads, if_neg hconc,
    if_neg hsingle, if_neg hratio, if_neg htrans, if_neg hbond]

/-- The message of the check before tells the two apart. -/
theorem single_ne_bothZero (s : String) :
    "--single-chip and --chip-weight are mutually exclusive" ≠
      "Invalid --chip-weight " ++ s := by
  intro h
  have hhead := congrArg (fun t => t.toList.head?) h
  simp at hhead

theorem rejected_iff (h1 : w1 < 2 ^ 32) (h2 : w2 < 2 ^ 32) (hne : w1 + w2 ≠ 2 ^ 32)
    (h : validateInputParams { args with chipWeight := (1, 1) } = .ok ()) :
    validateInputParams { args with chipWeight := (w1, w2) } =
        .error ("Invalid --chip-weight " ++ toString w1 ++ ":" ++ toString w2 ++ " (both zero)") ↔
      w1 = 0 ∧ w2 = 0 := by
  rw [validateInputParams_weights h]
  constructor
  · intro herr
    by_cases hzero : (w1 + w2) % 2 ^ 32 = 0
    · omega
    · rw [if_neg hzero] at herr
      split at herr
      · rw [String.append_assoc, String.append_assoc, String.append_assoc] at herr
        exact absurd (Except.error.inj herr) (single_ne_bothZero _)
      · cases herr
  · rintro ⟨rfl, rfl⟩
    rfl

/-- The options with the given weights that everything else is in order for. -/
def weighted (w1 w2 : ℕ) : Argument :=
  { smallArgs .write 1 1 with singleChip := 0, chipWeight := (w1, w2) }

theorem weighted_one_ok :
    validateInputParams { weighted 1 1 with chipWeight := (1, 1) } = .ok () := by decide

theorem weighted_ok (hne : (w1 + w2) % 2 ^ 32 ≠ 0) :
    validateInputParams (weighted w1 w2) = .ok () := by
  have hw := validateInputParams_weights weighted_one_ok w1 w2
  rw [if_neg hne, if_neg fun hon => hon.1 rfl] at hw
  exact hw

theorem weights_of_ok (h : validateInputParams args = .ok ()) :
    (args.chipWeight.1 + args.chipWeight.2) % 2 ^ 32 ≠ 0 := by
  unfold validateInputParams at h
  obtain ⟨-, h⟩ := check_ok h
  obtain ⟨-, h⟩ := check_ok h
  obtain ⟨-, h⟩ := check_ok h
  obtain ⟨-, h⟩ := check_ok h
  obtain ⟨-, h⟩ := check_ok h
  obtain ⟨-, h⟩ := check_ok h
  obtain ⟨-, h⟩ := check_ok h
  exact (check_ok h).1

theorem pickWeightedChip_walk (hw : args.chipWeight = (w1, w2)) (h1 : w1 ≠ 0) (h2 : w2 ≠ 0)
    (hne : (w1 + w2) % 2 ^ 32 ≠ 0) {j : ℕ}
    (hfaithful : ∀ k < j, Faithful w1 (w1 + w2 : ℕ) (errorAt w1 (w1 + w2 : ℕ) k)) :
    pickWeightedChip args j =
      if WordPrefers w1 (w1 + w2 : ℕ) (errorAt w1 (w1 + w2 : ℕ) j) then 1 else 2 := by
  unfold pickWeightedChip
  rw [hw]
  dsimp only
  rw [if_neg hne, if_neg h2, if_neg h1]
  exact weightedLoop_walk j rfl (by simp) hfaithful

theorem exactChip_eq (h1 : w1 ≠ 0) (h2 : w2 ≠ 0) (j : ℕ) :
    exactChip w1 w2 j = chipFor w1 (w1 + w2 : ℕ) (errorAt w1 (w1 + w2 : ℕ) j) := by
  unfold exactChip
  rw [if_neg (by omega), if_neg h2, if_neg h1]
  exact exactLoop_eq j rfl (by simp)

/-- The choices agree up to a send exactly when the comparisons do. -/
theorem pickWeightedChip_eq_exactChip_iff (hw : args.chipWeight = (w1, w2)) (h1 : w1 ≠ 0)
    (h2 : w2 ≠ 0) (hne : (w1 + w2) % 2 ^ 32 ≠ 0) (n : ℕ) :
    (∀ j < n, pickWeightedChip args j = exactChip w1 w2 j) ↔
      ∀ j < n, Faithful w1 (w1 + w2 : ℕ) (errorAt w1 (w1 + w2 : ℕ) j) := by
  constructor
  · intro hsame j
    -- the comparisons before `j` are right, so the loop of the source arrives at the same error
    induction j using Nat.strong_induction_on with
    | _ j ih =>
      intro hj
      have hpick := hsame j hj
      rw [pickWeightedChip_walk hw h1 h2 hne fun k hk => ih k hk (hk.trans hj),
        exactChip_eq h1 h2, chipFor] at hpick
      unfold Faithful
      split at hpick <;> split at hpick <;> simp_all
  · intro hfaithful j hj
    rw [pickWeightedChip_walk hw h1 h2 hne fun k hk => hfaithful k (hk.trans hj),
      exactChip_eq h1 h2, chipFor]
    exact if_congr (hfaithful j hj) rfl rfl

theorem pickWeightedChip_of_zero (hw : args.chipWeight = (w1, w2)) (hzero : w1 = 0 ∨ w2 = 0)
    (hne : (w1 + w2) % 2 ^ 32 ≠ 0) (j : ℕ) : pickWeightedChip args j = exactChip w1 w2 j := by
  have hpos : w1 + w2 ≠ 0 := fun h => hne (by rw [h, Nat.zero_mod])
  unfold pickWeightedChip exactChip
  rw [hw]
  dsimp only
  rw [if_neg hne, if_neg hpos]
  by_cases hw2 : w2 = 0
  · rw [if_pos hw2, if_pos hw2]
  · have hw1 := hzero.resolve_right hw2
    rw [if_neg hw2, if_neg hw2, if_pos hw1, if_pos hw1]

theorem WeightsExact.sum_ne (h : WeightsExact w1 w2) : w1 + w2 ≠ 2 ^ 32 := by
  intro hsum
  have hrejected := validateInputParams_weights weighted_one_ok w1 w2
  rw [if_pos (by rw [hsum]; rfl)] at hrejected
  have hzero := (h.rejected _ weighted_one_ok).1 hrejected
  omega

theorem weightsExact_iff_faithful (h1 : w1 < 2 ^ 32) (h2 : w2 < 2 ^ 32) :
    WeightsExact w1 w2 ↔ w1 + w2 ≠ 2 ^ 32 ∧ (w1 = 0 ∨ w2 = 0 ∨
      ∀ j < 10, Faithful w1 (w1 + w2 : ℕ) (errorAt w1 (w1 + w2 : ℕ) j)) := by
  constructor
  · intro hexact
    have hne := hexact.sum_ne
    refine ⟨hne, ?_⟩
    by_cases hw1 : w1 = 0
    · exact .inl hw1
    by_cases hw2 : w2 = 0
    · exact .inr (.inl hw2)
    have hsum : (w1 + w2) % 2 ^ 32 ≠ 0 := by omega
    have hw : (weighted w1 w2).chipWeight = (w1, w2) := rfl
    exact .inr (.inr ((pickWeightedChip_eq_exactChip_iff hw hw1 hw2 hsum 10).1
      (hexact.chip _ (weighted_ok hsum) hw)))
  · rintro ⟨hne, hchips⟩
    refine ⟨fun args h => rejected_iff h1 h2 hne h, fun args hok hw j hj => ?_⟩
    have hsum := weights_of_ok hok
    rw [hw] at hsum
    by_cases hzero : w1 = 0 ∨ w2 = 0
    · exact pickWeightedChip_of_zero hw hzero hsum j
    · have hfaithful := (or_assoc.2 hchips).resolve_left hzero
      push Not at hzero
      exact (pickWeightedChip_eq_exactChip_iff hw hzero.1 hzero.2 hsum 10).2 hfaithful j hj

end Exact

/-- **The weights that are handled exactly.** The sum must not wrap around to zero, and unless one of
the weights is zero, the signed comparison of the two deficits must be right before each of the ten
sends. After `j` sends the first chip is owed the remainder of `j * w1` by the sum, taken around zero,
and its share of the next send. The comparison is right when the deficits fit, which is so for
`3 w1 + w2` and `w1 + 3 w2` below `2 ^ 32`. -/
theorem weightsExact_iff (w1 w2 : ℕ) (h1 : w1 < 2 ^ 32) (h2 : w2 < 2 ^ 32) :
    (WeightsExact w1 w2 ↔ w1 + w2 ≠ 2 ^ 32 ∧ (w1 = 0 ∨ w2 = 0 ∨ ∀ j < 10,
      let owed := ((j * w1 : ℕ) : ℤ).bmod (w1 + w2) + w1
      (((w1 + w2 : ℕ) - owed).bmod (2 ^ 32) ≤ owed.bmod (2 ^ 32) ↔
        ((w1 + w2 : ℕ) : ℤ) - owed ≤ owed))) ∧
    (3 * w1 + w2 < 2 ^ 32 → w1 + 3 * w2 < 2 ^ 32 → WeightsExact w1 w2) := by
  have hsigned : ∀ owed : ℤ, ((w1 + w2 : ℕ) : ℤ) - owed ≤ owed ↔ ((w1 + w2 : ℕ) : ℤ) ≤ 2 * owed :=
    fun owed => by omega
  constructor
  · rw [weightsExact_iff_faithful h1 h2]
    refine and_congr_right fun _ => or_congr_right' fun hw1 => or_congr_right' fun hw2 =>
      forall₂_congr fun j _ => ?_
    have herr := errorAt_eq_bmod (a := w1) (W := w1 + w2) (by omega) (by positivity) (by omega) j
    rw [← Nat.cast_mul] at herr
    dsimp only
    rw [hsigned, ← herr]
    exact Iff.rfl
  · intro h3 h4
    rw [weightsExact_iff_faithful h1 h2]
    refine ⟨by omega, .inr (.inr fun j _ => faithful_of_small h3 h4 ?_)⟩
    exact errorAt_bound (by positivity) (by omega) j

/-- Weights 7 and 3. -/
theorem weightsExact_seven : WeightsExact 7 3 :=
  (weightsExact_iff 7 3 (by norm_num) (by norm_num)).2 (by norm_num) (by norm_num)

/-- Twice `2 ^ 31` is rejected as both zero. Twice `2 ^ 30` is accepted, but the second chip is owed
`2 ^ 31` before the second send, which reads as a negative number: the first chip gets it again. -/
theorem weights_wrap :
    validateInputParams (weighted (2 ^ 31) (2 ^ 31)) =
        .error "Invalid --chip-weight 2147483648:2147483648 (both zero)" ∧
      validateInputParams (weighted (2 ^ 30) (2 ^ 30)) = .ok () ∧
      pickWeightedChip (weighted (2 ^ 30) (2 ^ 30)) 1 = 1 ∧ exactChip (2 ^ 30) (2 ^ 30) 1 = 2 := by
  decide +kernel

end KvBench.Bench
