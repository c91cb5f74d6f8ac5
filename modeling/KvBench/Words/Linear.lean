import Mathlib

/-!
# Linear maps of machine words, and how they turn

A map of words that respects exclusive or is given by its columns, its values at the powers of two.
Columns compose, so a late iterate of the map takes as many compositions as its number has bits
(`iterateBy`), and the period of a point can be computed (`Linear.minimalPeriod_eq`).

A map that goes once round a finite set comes by every point of it also in strides of a length that is
coprime to the number of points (`Turns.stride`). So if two iterates at such a distance always agree
in something, all points do (`Turns.constant`).
-/

namespace KvBench.Words

open Function

/-! ### Columns -/

/-- A linear map of words of `w` bits. -/
structure Linear (w : ℕ) (f : ℕ → ℕ) : Prop where
  lt : ∀ x < 2 ^ w, f x < 2 ^ w
  xor : ∀ x y, f (x ^^^ y) = f x ^^^ f y

/-- The values of `f` at the first `w` powers of two. -/
def columns (f : ℕ → ℕ) : (w : ℕ) → List ℕ
  | 0 => []
  | w + 1 => f 1 :: columns (fun x => f (x <<< 1)) w

/-- The exclusive or of the columns at the bits of `x`. -/
def combine : List ℕ → ℕ → ℕ
  | [], _ => 0
  | c :: cs, x => (if x % 2 = 1 then c else 0) ^^^ combine cs (x / 2)

/-- For each pair of a number `n` of at most `k` bits and a word, the image of the word after `n`
rounds of the map with the columns `cs`. -/
def iterateBy : (k : ℕ) → List ℕ → List (ℕ × ℕ) → List ℕ
  | 0, _, l => l.map Prod.snd
  | k + 1, cs, l => iterateBy k (cs.map (combine cs))
    (l.map fun a => (a.1 / 2, if a.1 % 2 = 1 then combine cs a.2 else a.2))

section Columns

variable {f g : ℕ → ℕ} {w k n x : ℕ}

theorem Linear.comp (hf : Linear w f) (hg : Linear w g) : Linear w (f ∘ g) :=
  ⟨fun x hx => hf.lt _ (hg.lt x hx), fun x y => by simp only [comp_apply, hg.xor, hf.xor]⟩

/-- A map and its own word added. -/
theorem Linear.xor_self (hf : Linear w f) : Linear w fun x => x ^^^ f x where
  lt x hx := Nat.xor_lt_two_pow hx (hf.lt x hx)
  xor x y := by
    rw [hf.xor]
    ac_rfl

theorem linear_shiftLeft (w k : ℕ) : Linear w fun x => x <<< k % 2 ^ w where
  lt x _ := Nat.mod_lt _ (Nat.two_pow_pos w)
  xor x y := by rw [Nat.shiftLeft_xor_distrib, Nat.xor_mod_two_pow]

theorem linear_shiftRight (w k : ℕ) : Linear w fun x => x >>> k where
  lt x hx := by
    rw [Nat.shiftRight_eq_div_pow]
    exact (Nat.div_le_self _ _).trans_lt hx
  xor x y := Nat.shiftRight_xor_distrib

theorem mod_two_xor (x : ℕ) : x % 2 ^^^ (x / 2) <<< 1 = x := by
  refine Nat.eq_of_testBit_eq fun i => ?_
  have hlow := Nat.testBit_mod_two_pow x 1 i
  rw [pow_one] at hlow
  rw [Nat.testBit_xor, Nat.testBit_shiftLeft, hlow]
  cases i with
  | zero => simp
  | succ i => simp [Nat.testBit_succ]

theorem map_zero_of_xor (hf : ∀ x y, f (x ^^^ y) = f x ^^^ f y) : f 0 = 0 := by
  have h := hf 0 0
  rwa [Nat.xor_self, Nat.xor_self] at h

theorem combine_columns (hf : ∀ x y, f (x ^^^ y) = f x ^^^ f y) (hx : x < 2 ^ w) :
    combine (columns f w) x = f x := by
  induction w generalizing f x with
  | zero =>
    obtain rfl : x = 0 := by omega
    exact (map_zero_of_xor hf).symm
  | succ w ih =>
    have hhigh : combine (columns (fun x => f (x <<< 1)) w) (x / 2) = f ((x / 2) <<< 1) := by
      refine ih (f := fun x => f (x <<< 1)) (fun a b => ?_) (by omega)
      rw [Nat.shiftLeft_xor_distrib, hf]
    have hlow : (if x % 2 = 1 then f 1 else 0) = f (x % 2) := by
      rcases Nat.mod_two_eq_zero_or_one x with h | h
      · rw [h, map_zero_of_xor hf, if_neg (by decide)]
      · rw [h, if_pos rfl]
    show (if x % 2 = 1 then f 1 else 0) ^^^ combine (columns _ w) (x / 2) = f x
    rw [hlow, hhigh, ← hf, mod_two_xor]

theorem map_columns (f g : ℕ → ℕ) (w : ℕ) : (columns f w).map g = columns (g ∘ f) w := by
  induction w generalizing f with
  | zero => rfl
  | succ w ih => exact congrArg (g (f 1) :: ·) (ih _)

theorem columns_congr (h : ∀ x < 2 ^ w, f x = g x) : columns f w = columns g w := by
  induction w generalizing f g with
  | zero => rfl
  | succ w ih =>
    have hone : f 1 = g 1 := h 1 (Nat.one_lt_two_pow (by omega))
    show f 1 :: _ = g 1 :: _
    rw [hone, ih fun x hx => h (x <<< 1) (by rw [Nat.shiftLeft_eq]; omega)]

/-- The columns of `f ∘ f`. -/
theorem map_combine_columns (hf : Linear w f) :
    (columns f w).map (combine (columns f w)) = columns (f ∘ f) w := by
  rw [map_columns]
  exact columns_congr fun x hx => combine_columns hf.xor (hf.lt x hx)

theorem iterate_div_two (f : ℕ → ℕ) (n x : ℕ) : (f ∘ f)^[n / 2] (f^[n % 2] x) = f^[n] x := by
  show (f^[2])^[n / 2] (f^[n % 2] x) = f^[n] x
  rw [← iterate_mul, ← iterate_add_apply, Nat.div_add_mod]

theorem iterateBy_columns (hf : Linear w f) {l : List (ℕ × ℕ)}
    (hl : ∀ a ∈ l, a.1 < 2 ^ k ∧ a.2 < 2 ^ w) :
    iterateBy k (columns f w) l = l.map fun a => f^[a.1] a.2 := by
  induction k generalizing f l with
  | zero =>
    refine List.map_congr_left fun a ha => ?_
    have hzero : a.1 = 0 := by
      have := (hl a ha).1
      omega
    rw [hzero, iterate_zero_apply]
  | succ k ih =>
    have hstep : ∀ a ∈ l, (if a.1 % 2 = 1 then combine (columns f w) a.2 else a.2) =
        f^[a.1 % 2] a.2 := by
      intro a ha
      rw [combine_columns hf.xor (hl a ha).2]
      rcases Nat.mod_two_eq_zero_or_one a.1 with h | h
      · rw [h, if_neg (by decide), iterate_zero_apply]
      · rw [h, if_pos rfl, iterate_one]
    have hlt : ∀ a ∈ l, f^[a.1 % 2] a.2 < 2 ^ w := by
      intro a ha
      rw [← hstep a ha, combine_columns hf.xor (hl a ha).2]
      split
      · exact hf.lt _ (hl a ha).2
      · exact (hl a ha).2
    have hhalf : l.map (fun a => (a.1 / 2, if a.1 % 2 = 1 then combine (columns f w) a.2 else a.2)) =
        l.map fun a => (a.1 / 2, f^[a.1 % 2] a.2) :=
      List.map_congr_left fun a ha => congrArg (Prod.mk _) (hstep a ha)
    show iterateBy k ((columns f w).map (combine (columns f w))) _ = _
    rw [hhalf, map_combine_columns hf, ih (hf.comp hf), List.map_map]
    · exact List.map_congr_left fun a _ => iterate_div_two f a.1 a.2
    · intro b hb
      obtain ⟨a, ha, rfl⟩ := List.mem_map.1 hb
      have := (hl a ha).1
      exact ⟨by dsimp only; omega, hlt a ha⟩

end Columns

/-! ### Orbits -/

section Orbits

variable {α β : Type*} {f : α → α} {g : α → β} {e x y : α} {N m : ℕ}

/-- A period none of whose maximal divisors is one is the least. -/
theorem minimalPeriod_eq_of_primes (h : f^[N] e = e)
    (hprime : ∀ q, q.Prime → q ∣ N → f^[N / q] e ≠ e) : minimalPeriod f e = N := by
  have hdvd : minimalPeriod f e ∣ N := IsPeriodicPt.minimalPeriod_dvd h
  obtain ⟨c, hc⟩ := hdvd
  by_contra hne
  have hc1 : c ≠ 1 := by
    rintro rfl
    exact hne (by rw [hc, mul_one])
  obtain ⟨q, hq, d, rfl⟩ := Nat.exists_prime_and_dvd hc1
  have hquot : N / q = minimalPeriod f e * d := by
    rw [hc, show minimalPeriod f e * (q * d) = q * (minimalPeriod f e * d) by ring,
      Nat.mul_div_cancel_left _ hq.pos]
  refine hprime q hq ⟨minimalPeriod f e * d, by rw [hc]; ring⟩ ?_
  rw [hquot]
  exact (isPeriodicPt_minimalPeriod f e).mul_const d

/-- **The period, computed**: `N`, when all primes that divide it are among `primes`. -/
theorem Linear.minimalPeriod_eq {f : ℕ → ℕ} {w k e : ℕ} {primes : List ℕ} (hf : Linear w f)
    (hN : N < 2 ^ k) (he : e < 2 ^ w) (hprimes : ∀ q, q.Prime → q ∣ N → q ∈ primes)
    (h : (iterateBy k (columns f w) ((1 :: primes).map fun q => (N / q, e))).map (· == e) =
      true :: primes.map fun _ => false) : minimalPeriod f e = N := by
  have hbound : ∀ a ∈ (1 :: primes).map fun q => (N / q, e), a.1 < 2 ^ k ∧ a.2 < 2 ^ w := by
    intro a ha
    obtain ⟨q, -, rfl⟩ := List.mem_map.1 ha
    exact ⟨(Nat.div_le_self _ _).trans_lt hN, he⟩
  rw [iterateBy_columns hf hbound, List.map_map, List.map_map, List.map_cons, List.cons.injEq,
    List.map_inj_left] at h
  refine minimalPeriod_eq_of_primes ?_ fun q hq hdvd heq => ?_
  · simpa using h.1
  · have hne := h.2 q (hprimes q hq hdvd)
    simp [heq] at hne

/-- From `e` the map goes once round the set `s`. -/
structure Turns (f : α → α) (s : Finset α) (e : α) : Prop where
  maps : ∀ x ∈ s, f x ∈ s
  mem : e ∈ s
  period : minimalPeriod f e = s.card
  many : 1 < s.card

variable {s : Finset α}

theorem Turns.iterate_mem (h : Turns f s e) (n : ℕ) : f^[n] e ∈ s := by
  induction n with
  | zero => exact h.mem
  | succ n ih =>
    rw [iterate_succ_apply']
    exact h.maps _ ih

/-- Every point of the set is met. -/
theorem Turns.exists_iterate (h : Turns f s e) (hy : y ∈ s) : ∃ n, f^[n] e = y := by
  classical
  have hinj : Set.InjOn (f^[·] e) (Finset.range s.card) := by
    rw [← h.period, Finset.coe_range]
    exact iterate_injOn_Iio_minimalPeriod
  have himage : (Finset.range s.card).image (f^[·] e) = s := by
    refine Finset.eq_of_subset_of_card_le ?_ ?_
    · intro z hz
      obtain ⟨n, -, rfl⟩ := Finset.mem_image.1 hz
      exact h.iterate_mem n
    · rw [Finset.card_image_of_injOn hinj, Finset.card_range]
  rw [← himage] at hy
  obtain ⟨n, -, rfl⟩ := Finset.mem_image.1 hy
  exact ⟨n, rfl⟩

/-- **Strides.** From every point, every other one is met in strides of a length coprime to the number
of points. -/
theorem Turns.stride (h : Turns f s e) (hm : m.Coprime s.card) (hx : x ∈ s) (hy : y ∈ s) (r : ℕ) :
    ∃ j, f^[m * j + r] x = y := by
  obtain ⟨a, rfl⟩ := h.exists_iterate hx
  obtain ⟨b, rfl⟩ := h.exists_iterate hy
  obtain ⟨u, -, hu⟩ := Nat.exists_mul_mod_eq_one_of_coprime hm h.many
  -- `r + a + back` is a multiple of the number of points
  obtain ⟨back, c, hback⟩ : ∃ back c, r + a + back = s.card * c := by
    refine ⟨s.card * (r + a) - (r + a), r + a, ?_⟩
    have := Nat.le_mul_of_pos_left (r + a) (Nat.lt_of_succ_lt h.many)
    omega
  refine ⟨u * (back + b), ?_⟩
  rw [← iterate_add_apply, ← iterate_mod_minimalPeriod_eq (n := b),
    ← iterate_mod_minimalPeriod_eq (n := m * (u * (back + b)) + r + a), h.period]
  have hmod : m * (u * (back + b)) + r + a ≡ b [MOD s.card] := by
    have hone : m * u ≡ 1 [MOD s.card] := by
      rw [Nat.ModEq, hu, Nat.mod_eq_of_lt h.many]
    calc m * (u * (back + b)) + r + a = m * u * (back + b) + (r + a) := by ring
      _ ≡ 1 * (back + b) + (r + a) [MOD s.card] := (hone.mul_right _).add_right _
      _ = b + s.card * c := by omega
      _ ≡ b [MOD s.card] := by simp [Nat.ModEq]
  rw [show (m * (u * (back + b)) + r + a) % s.card = b % s.card from hmod]

/-- **What two iterates at a distance agree in, all points agree in.** -/
theorem Turns.constant {d : ℕ} (h : Turns f s e) (hm : m.Coprime s.card) (hd : d.Coprime s.card)
    (hx : x ∈ s) (r : ℕ) (hg : ∀ j, g (f^[m * j + r] x) = g (f^[m * j + r + d] x)) {y z : α}
    (hy : y ∈ s) (hz : z ∈ s) : g y = g z := by
  have hone : ∀ y ∈ s, g y = g (f^[d] y) := by
    intro y hy
    obtain ⟨j, rfl⟩ := h.stride hm hx hy r
    rw [hg j, Nat.add_comm _ d, iterate_add_apply]
  have hmany : ∀ j, g y = g (f^[d * j] y) := by
    intro j
    induction j with
    | zero => rfl
    | succ j ih =>
      have hmem : f^[d * j] y ∈ s := by
        obtain ⟨a, rfl⟩ := h.exists_iterate hy
        rw [← iterate_add_apply]
        exact h.iterate_mem _
      rw [ih, hone _ hmem, ← iterate_add_apply, Nat.mul_succ, Nat.add_comm]
  obtain ⟨j, rfl⟩ := h.stride hd hy hz 0
  exact hmany j

end Orbits

end KvBench.Words
