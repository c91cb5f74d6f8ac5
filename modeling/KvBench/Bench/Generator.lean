import KvBench.Bench.Chips
import KvBench.Bench.Clients
import KvBench.Words.Linear

/-!
# The random generators of the workers

Each worker draws from its own xorshift generator, seeded with `seed + i * 2654435761` modulo
`2 ^ 32`. A step of the generator is three rounds `x ^ (x << k)` or `x ^ (x >> k)`, and a round
gives zero only for zero: a word that equals its own shift is zero. So a stream is stuck at zero
exactly when it starts there, and since the multiplier is odd at most one worker does.
-/

namespace KvBench.Bench

open KvBench.Hist KvBench.Words

/-! ### One step -/

section Step

variable {x : ℕ}

theorem eq_zero_of_xor_shiftLeft {k : ℕ} (hk : k = 13 ∨ k = 5) (hx : x < 2 ^ 32)
    (h : x ^^^ (x <<< k % 2 ^ 32) = 0) : x = 0 := by
  rw [Nat.xor_eq_zero_iff, Nat.shiftLeft_eq] at h
  rcases hk with rfl | rfl <;> omega

theorem eq_zero_of_xor_shiftRight (h : x ^^^ (x >>> 17) = 0) : x = 0 := by
  rw [Nat.xor_eq_zero_iff, Nat.shiftRight_eq_div_pow] at h
  omega

theorem rngNext_linear : Linear 32 rngNext :=
  (linear_shiftLeft 32 5).xor_self.comp
    ((linear_shiftRight 32 17).xor_self.comp (linear_shiftLeft 32 13).xor_self)

theorem rngNext_ne_zero (hx : x < 2 ^ 32) (h0 : x ≠ 0) : rngNext x ≠ 0 := by
  intro h
  have h1 := (linear_shiftLeft 32 13).xor_self.lt x hx
  have h2 := eq_zero_of_xor_shiftLeft (.inr rfl) ((linear_shiftRight 32 17).xor_self.lt _ h1) h
  exact h0 (eq_zero_of_xor_shiftLeft (.inl rfl) hx (eq_zero_of_xor_shiftRight h2))

end Step

/-! ### Every number of draws -/

/-- A stream that does not start at zero never gets there. -/
theorem rngNext_iterate_ne_zero {x : ℕ} (hx : x < 2 ^ 32) (h0 : x ≠ 0) (n : ℕ) :
    rngNext^[n] x < 2 ^ 32 ∧ rngNext^[n] x ≠ 0 := by
  induction n with
  | zero => exact ⟨hx, h0⟩
  | succ n ih =>
    rw [Function.iterate_succ_apply']
    exact ⟨rngNext_linear.lt _ ih.1, rngNext_ne_zero ih.1 ih.2⟩

/-! ### The period -/

/-- The words a generator goes through. -/
def nonzeroWords : Finset ℕ := Finset.Ico 1 (2 ^ 32)

theorem card_nonzeroWords : nonzeroWords.card = 2 ^ 32 - 1 := Nat.card_Ico _ _

theorem prime_of_dvd_period (q : ℕ) (hq : q.Prime) (hdvd : q ∣ 2 ^ 32 - 1) :
    q ∈ [3, 5, 17, 257, 65537] := by
  have hfactors : (2 ^ 32 - 1 : ℕ) = 3 * 5 * 17 * 257 * 65537 := by norm_num
  rw [hfactors] at hdvd
  have hone : ∀ {p : ℕ}, p.Prime → (q ∣ p ↔ q = p) := fun hp => Nat.prime_dvd_prime_iff_eq hq hp
  simp only [hq.dvd_mul, hone (p := 3) (by norm_num), hone (p := 5) (by norm_num),
    hone (p := 17) (by norm_num), hone (p := 257) (by norm_num),
    hone (p := 65537) (by norm_num)] at hdvd
  simp only [List.mem_cons, List.not_mem_nil, or_false]
  tauto

/-- **The generator has the full period**: from every word but zero it goes through all of them. -/
theorem rngNext_turns : Turns rngNext nonzeroWords 1 where
  maps x hx := by
    rw [nonzeroWords, Finset.mem_Ico] at hx ⊢
    exact ⟨Nat.one_le_iff_ne_zero.2 (rngNext_ne_zero hx.2 (by omega)), rngNext_linear.lt x hx.2⟩
  mem := by simp [nonzeroWords]
  period := by
    rw [card_nonzeroWords]
    exact rngNext_linear.minimalPeriod_eq (k := 32) (by norm_num) (by norm_num) prime_of_dvd_period
      (by decide +kernel)
  many := by
    rw [card_nonzeroWords]
    norm_num

section Workers

variable (args : Argument) (hist : KvHist)

theorem createWorker_rng (i : ℕ) :
    (createWorker args hist i).rng = (args.seed + i * 2654435761) % 2 ^ 32 := rfl

theorem createWorker_rng_lt (i : ℕ) : (createWorker args hist i).rng < 2 ^ 32 := by
  rw [createWorker_rng]
  exact Nat.mod_lt _ (by norm_num)

/-- The multiplier is odd, so the seeds of two workers differ. -/
theorem createWorker_rng_inj {i j : ℕ} (hi : i < 2 ^ 32) (hj : j < 2 ^ 32)
    (h : (createWorker args hist i).rng = (createWorker args hist j).rng) : i = j := by
  rw [createWorker_rng, createWorker_rng] at h
  have hmod : args.seed + i * 2654435761 ≡ args.seed + j * 2654435761 [MOD 2 ^ 32] := h
  have hcoprime : Nat.gcd (2 ^ 32) 2654435761 = 1 := by norm_num
  have hij := (hmod.add_left_cancel' _).cancel_right_of_coprime hcoprime
  rwa [Nat.ModEq, Nat.mod_eq_of_lt hi, Nat.mod_eq_of_lt hj] at hij

/-- **The generators of the workers are distinct**, and none of them is ever stuck at zero exactly
when no worker's seed is zero. -/
theorem generators_live_iff (threads : ℕ) (ht : threads ≤ 512) :
    ((∀ i < threads, ∀ j < threads, i ≠ j →
        (createWorker args hist i).rng ≠ (createWorker args hist j).rng) ∧
      (∀ i < threads, ∀ n, rngNext^[n] (createWorker args hist i).rng ≠ 0)) ↔
      ∀ i < threads, (args.seed + i * 2654435761) % 2 ^ 32 ≠ 0 := by
  simp only [← createWorker_rng args hist]
  constructor
  · rintro ⟨-, hlive⟩ i hi
    have hstart := hlive i hi 0
    rwa [Function.iterate_zero_apply] at hstart
  · intro hseed
    refine ⟨fun i hi j hj hij h => hij ?_, fun i hi n => ?_⟩
    · exact createWorker_rng_inj args hist (by omega) (by omega) h
    · exact (rngNext_iterate_ne_zero (createWorker_rng_lt args hist i) (hseed i hi) n).2

end Workers

/-- Two workers that start from the seed 1. -/
theorem generators_live_two :
    (∀ i < 2, ∀ j < 2, i ≠ j → (createWorker (smallArgs .mixed 2 1) freshHist i).rng ≠
        (createWorker (smallArgs .mixed 2 1) freshHist j).rng) ∧
      (∀ i < 2, ∀ n, rngNext^[n] (createWorker (smallArgs .mixed 2 1) freshHist i).rng ≠ 0) := by
  refine (generators_live_iff (smallArgs .mixed 2 1) freshHist 2 (by norm_num)).2 fun i hi => ?_
  interval_cases i <;> norm_num [smallArgs]

/-- With `--seed 0` the first worker draws zero for ever. -/
theorem generator_stuck_seed_zero :
    validateInputParams { smallArgs .mixed 1 1 with seed := 0 } = .ok () ∧
      ∀ n, rngNext^[n]
        (createWorker { smallArgs .mixed 1 1 with seed := 0 } freshHist 0).rng = 0 := by
  refine ⟨by decide, fun n => ?_⟩
  have hstart : (createWorker { smallArgs .mixed 1 1 with seed := 0 } freshHist 0).rng = 0 := by
    rw [createWorker_rng, zero_mul]
    rfl
  rw [hstart]
  exact Function.iterate_fixed (by decide) n

end KvBench.Bench
