import Mathlib.Data.Nat.Size
import Mathlib.Algebra.Order.Floor.Semiring
import Mathlib.Tactic

/-!
The cycle-counter clock of `clock.cpp`: the calibration of `mult` and `shift` from the counter
frequency, and the conversion of a raw counter reading to nanoseconds.

All words are 64 bit, so every product and sum is taken modulo `2 ^ 64`. The calibration picks
`mult` so that `cycles * mult` fits into a word for 600 seconds' worth of cycles; the conversion
multiplies the absolute counter since boot. `kvNowNs_monotone_iff` is what follows from that: the
readings are monotone up to the reading `C` exactly as long as `C * mult` fits into a word.
`calcMultShift_accurate` is about the window itself: the search for the shift ends with its `break`,
and within the window the conversion is off by the rounding of `mult` and of the quotient only.
-/

namespace KvBench.Clock

/-- `kNsPerSec`. -/
def kNsPerSec : ℕ := 1000000000

/-- `kMaxSec`, the window for which the product is meant to be safe. -/
def kMaxSec : ℕ := 600

/-- `kMultBits`. -/
def kMultBits : ℕ := 32

/-- The two calibration words `g_mult` and `g_shift`; `gMult = 0` stands for "not calibrated". -/
structure Calib where
  gMult : ℕ
  gShift : ℕ
  deriving DecidableEq

/-- The first loop of `CalcMultShift`: `while (tmp > 0) { tmp >>= 1; sftacc--; }`. -/
def sftaccLoop (tmp sftacc : ℕ) : ℕ :=
  if 0 < tmp then sftaccLoop (tmp >>> 1) (sftacc - 1) else sftacc
termination_by tmp
decreasing_by rw [Nat.shiftRight_eq_div_pow]; omega

/-- `tmp = ((kNsPerSec << sft) + freq / 2) / freq`. -/
def multAt (freq sft : ℕ) : ℕ :=
  ((kNsPerSec <<< sft) % 2 ^ 64 + freq / 2) % 2 ^ 64 / freq

/-- The second loop of `CalcMultShift`, from `sft` downwards; `tmp` is the last value computed. -/
def shiftLoop (freq sftacc : ℕ) : ℕ → ℕ → Calib
  | 0, tmp => ⟨tmp, 0⟩
  | sft + 1, _ =>
    if multAt freq (sft + 1) >>> sftacc = 0 then ⟨multAt freq (sft + 1), sft + 1⟩
    else shiftLoop freq sftacc sft (multAt freq (sft + 1))

/-- `CalcMultShift`. -/
def calcMultShift (freq : ℕ) : Calib :=
  if freq = 0 then ⟨0, 0⟩
  else
    shiftLoop freq (sftaccLoop (((kMaxSec * freq) % 2 ^ 64) >>> kMultBits) kMultBits) kMultBits 0

/-- `kv_clock_init`: `cntfrq` is what `ReadCntfrq` reads and `calibrated` what `CalibrateFreq`
estimates (`0` when it fails). -/
def kvClockInit (cntfrq calibrated : ℕ) (g : Calib) : Calib :=
  if g.gMult ≠ 0 then g
  else
    let g := if cntfrq ≠ 0 then calcMultShift cntfrq else g
    if g.gMult = 0 then (if calibrated ≠ 0 then calcMultShift calibrated else g) else g

/-- `kv_now_ns` on the raw reading `cycles`; without a calibration it falls back to the
`CLOCK_MONOTONIC` reading `mono`. -/
def kvNowNs (g : Calib) (mono cycles : ℕ) : ℕ :=
  if g.gMult = 0 then mono else ((cycles * g.gMult) % 2 ^ 64) >>> g.gShift

/-! ### What the calibration yields -/

theorem multAt_le (freq sft : ℕ) (hf : 1 ≤ freq) (hsft : sft ≤ 32) :
    multAt freq sft ≤ kNsPerSec * 2 ^ sft + 1 := by
  have hpow : (2 : ℕ) ^ sft ≤ 2 ^ 32 := Nat.pow_le_pow_right (by norm_num) hsft
  unfold multAt kNsPerSec
  rw [Nat.shiftLeft_eq]
  have hn : 1000000000 * 2 ^ sft < 2 ^ 64 := by omega
  rw [Nat.mod_eq_of_lt hn]
  have hle : (1000000000 * 2 ^ sft + freq / 2) % 2 ^ 64 ≤ 1000000000 * 2 ^ sft + freq / 2 :=
    Nat.mod_le _ _
  refine (Nat.div_le_div_right hle).trans ?_
  rw [Nat.div_le_iff_le_mul_add_pred hf]
  have h1 : 1000000000 * 2 ^ sft ≤ freq * (1000000000 * 2 ^ sft) := Nat.le_mul_of_pos_left _ hf
  have h2 : freq * (1000000000 * 2 ^ sft + 1) = freq * (1000000000 * 2 ^ sft) + freq := by ring
  omega

theorem sftaccLoop_le (tmp sftacc : ℕ) : sftaccLoop tmp sftacc ≤ sftacc := by
  fun_induction sftaccLoop tmp sftacc with
  | case1 tmp sftacc h ih => omega
  | case2 tmp sftacc h => exact le_rfl

/-- Whichever way the search ends, by the `break` or by running off its end, `mult` fits into 32
bits and the shift is at most 32. -/
theorem shiftLoop_bounds {freq sftacc : ℕ} (hf : 1 ≤ freq) (hacc : sftacc ≤ 32) :
    ∀ (sft tmp : ℕ), sft ≤ 32 → (sft = 0 → tmp < 2 ^ 32) →
      (shiftLoop freq sftacc sft tmp).gMult < 2 ^ 32 ∧
        (shiftLoop freq sftacc sft tmp).gShift ≤ 32 := by
  intro sft
  induction sft with
  | zero => intro tmp _ h0; exact ⟨h0 rfl, by simp [shiftLoop]⟩
  | succ sft ih =>
    intro tmp hsft _
    unfold shiftLoop
    split
    · rename_i hz
      refine ⟨?_, hsft⟩
      rw [Nat.shiftRight_eq_div_pow, Nat.div_eq_zero_iff] at hz
      have hp : (2 : ℕ) ^ sftacc ≤ 2 ^ 32 := Nat.pow_le_pow_right (by norm_num) hacc
      rcases hz with hz | hz
      · exact absurd hz (by positivity)
      · exact lt_of_lt_of_le hz hp
    · refine ih _ (by omega) fun h0 => ?_
      -- the last value computed before running off the end is the one at `sft = 1`
      subst h0
      have hle := multAt_le freq (0 + 1) hf (by norm_num)
      unfold kNsPerSec at hle
      omega

theorem calcMultShift_bounds {freq : ℕ} (hf : 1 ≤ freq) :
    (calcMultShift freq).gMult < 2 ^ 32 ∧ (calcMultShift freq).gShift ≤ 32 := by
  unfold calcMultShift
  rw [if_neg (by omega)]
  exact shiftLoop_bounds hf (sftaccLoop_le _ _) _ _ le_rfl (by unfold kMultBits; omega)

/-! ### Monotonicity of the readings -/

/-- As long as the product fits into a word, the conversion is the exact fixed-point product. -/
theorem kvNowNs_of_lt {g : Calib} (mono : ℕ) {c : ℕ} (hg : g.gMult ≠ 0)
    (hc : c * g.gMult < 2 ^ 64) : kvNowNs g mono c = c * g.gMult / 2 ^ g.gShift := by
  unfold kvNowNs
  rw [if_neg hg, Nat.mod_eq_of_lt hc, Nat.shiftRight_eq_div_pow]

/-- **The wrap.** At the first reading whose product leaves the word, the clock falls back below
the value it had one cycle earlier. -/
theorem kvNowNs_wrap {g : Calib} (mono : ℕ) {c : ℕ} (hm : g.gMult < 2 ^ 32) (hs : g.gShift ≤ 32)
    (hlt : c * g.gMult < 2 ^ 64) (hge : 2 ^ 64 ≤ (c + 1) * g.gMult) :
    kvNowNs g mono (c + 1) < kvNowNs g mono c := by
  have hg : g.gMult ≠ 0 := by rintro h; rw [h] at hge; omega
  have hsucc : (c + 1) * g.gMult = c * g.gMult + g.gMult := by ring
  have hmod : (c + 1) * g.gMult % 2 ^ 64 = (c + 1) * g.gMult - 2 ^ 64 := by
    rw [Nat.mod_eq_sub_mod hge, Nat.mod_eq_of_lt (by omega)]
  rw [kvNowNs_of_lt mono hg hlt]
  unfold kvNowNs
  rw [if_neg hg, hmod, Nat.shiftRight_eq_div_pow]
  have hpos : 0 < 2 ^ g.gShift := by positivity
  have hp32 : (2 : ℕ) ^ g.gShift ≤ 2 ^ 32 := Nat.pow_le_pow_right (by norm_num) hs
  -- one whole unit of the shifted value lies between the two products
  have hgap : (c + 1) * g.gMult - 2 ^ 64 + 2 ^ g.gShift ≤ c * g.gMult := by omega
  calc ((c + 1) * g.gMult - 2 ^ 64) / 2 ^ g.gShift
      < ((c + 1) * g.gMult - 2 ^ 64) / 2 ^ g.gShift + 1 := Nat.lt_succ_self _
    _ = ((c + 1) * g.gMult - 2 ^ 64 + 2 ^ g.gShift) / 2 ^ g.gShift :=
        (Nat.add_div_right _ hpos).symm
    _ ≤ c * g.gMult / 2 ^ g.gShift := Nat.div_le_div_right hgap

/-- The readings of a clock with calibration `g` never go backwards up to the reading `C`. -/
def MonotoneUpTo (g : Calib) (mono C : ℕ) : Prop :=
  ∀ c₁ c₂, c₁ ≤ c₂ → c₂ ≤ C → kvNowNs g mono c₁ ≤ kvNowNs g mono c₂

/-- **How long the clock is monotone.** For every frequency, the readings are monotone up to the
counter value `C` if and only if the product `C * mult` still fits into 64 bits. -/
theorem kvNowNs_monotone_iff (freq mono C : ℕ) (hf : 1 ≤ freq)
    (hm : (calcMultShift freq).gMult ≠ 0) :
    MonotoneUpTo (calcMultShift freq) mono C ↔ C * (calcMultShift freq).gMult < 2 ^ 64 := by
  obtain ⟨hm32, hs32⟩ := calcMultShift_bounds hf
  set g := calcMultShift freq with hg
  constructor
  · intro hmono
    by_contra hover
    -- the last reading before the wrap
    have hpos : 0 < g.gMult := Nat.pos_of_ne_zero hm
    set c := (2 ^ 64 - 1) / g.gMult with hc
    have hlt : c * g.gMult < 2 ^ 64 := by
      have hle : c * g.gMult ≤ 2 ^ 64 - 1 := Nat.div_mul_le_self (2 ^ 64 - 1) g.gMult
      omega
    have hge : 2 ^ 64 ≤ (c + 1) * g.gMult := by
      have hlast : 2 ^ 64 - 1 < c * g.gMult + g.gMult := Nat.lt_div_mul_add hpos
      have hr : (c + 1) * g.gMult = c * g.gMult + g.gMult := by ring
      omega
    have hcC : c + 1 ≤ C := by
      by_contra hlt'
      have : C * g.gMult ≤ c * g.gMult := Nat.mul_le_mul_right _ (by omega)
      omega
    have hback := kvNowNs_wrap mono hm32 hs32 hlt hge
    exact absurd (hmono c (c + 1) (Nat.le_succ c) hcC) (not_le.2 hback)
  · intro hfit c₁ c₂ h12 h2C
    have h2 : c₂ * g.gMult < 2 ^ 64 := lt_of_le_of_lt (Nat.mul_le_mul_right _ h2C) hfit
    have h1 : c₁ * g.gMult ≤ c₂ * g.gMult := Nat.mul_le_mul_right _ h12
    rw [kvNowNs_of_lt mono hm (lt_of_le_of_lt h1 h2), kvNowNs_of_lt mono hm h2]
    exact Nat.div_le_div_right h1

/-- The calibration of a 100 MHz counter, the frequency of the `CNTFRQ_EL0` of common ARM
servers. -/
theorem calcMultShift_100MHz : calcMultShift 100000000 = ⟨167772160, 24⟩ := by
  simp [calcMultShift, sftaccLoop, shiftLoop, multAt, kMaxSec, kMultBits, kNsPerSec]

/-- At 100 MHz the readings are monotone for the first 18 minutes of uptime, and not beyond. -/
theorem kvNowNs_monotone_100MHz :
    MonotoneUpTo (calcMultShift 100000000) 0 109951162777 ∧
      ¬ MonotoneUpTo (calcMultShift 100000000) 0 109951162778 := by
  have hm : (calcMultShift 100000000).gMult ≠ 0 := by rw [calcMultShift_100MHz]; norm_num
  constructor
  · refine (kvNowNs_monotone_iff 100000000 0 109951162777 (by norm_num) hm).2 ?_
    rw [calcMultShift_100MHz]
    norm_num
  · intro hmono
    have hfit := (kvNowNs_monotone_iff 100000000 0 109951162778 (by norm_num) hm).1 hmono
    rw [calcMultShift_100MHz] at hfit
    norm_num at hfit

/-- **The clock goes backwards.** With a 100 MHz counter the next reading, 1100 seconds after
boot, is smaller than the one before it. -/
theorem kvNowNs_not_monotone :
    ¬ ∀ freq c₁ c₂ : ℕ, 1 ≤ freq → 600 * freq < 2 ^ 63 → (calcMultShift freq).gMult ≠ 0 →
      c₁ ≤ c₂ → c₂ < 2 ^ 64 →
      kvNowNs (calcMultShift freq) 0 c₁ ≤ kvNowNs (calcMultShift freq) 0 c₂ := by
  intro h
  have hbad := h 100000000 109951162777 109951162778 (by norm_num) (by norm_num)
    (by rw [calcMultShift_100MHz]; norm_num) (by norm_num) (by norm_num)
  rw [calcMultShift_100MHz] at hbad
  revert hbad
  decide

/-! ### Accuracy within the window -/

/-- The first loop takes one bit off for each binary digit of `tmp`. -/
theorem sftaccLoop_eq (b : ℕ) : ∀ (tmp sftacc : ℕ), tmp < 2 ^ b → (b ≠ 0 → 2 ^ (b - 1) ≤ tmp) →
    sftaccLoop tmp sftacc = sftacc - b := by
  induction b with
  | zero =>
    intro tmp sftacc hlt _
    unfold sftaccLoop
    rw [if_neg (by omega), Nat.sub_zero]
  | succ b ih =>
    intro tmp sftacc hlt hge
    have hpos : 2 ^ b ≤ tmp := hge (Nat.succ_ne_zero b)
    have hpow : 2 ^ (b + 1) = 2 ^ b * 2 := pow_succ 2 b
    unfold sftaccLoop
    rw [if_pos (lt_of_lt_of_le (by positivity) hpos), Nat.shiftRight_eq_div_pow, pow_one,
      ih (tmp / 2) (sftacc - 1) (by omega) fun hb => ?_]
    · omega
    · have hhalf : 2 ^ b = 2 ^ (b - 1) * 2 := by
        rw [← pow_succ, Nat.sub_add_cancel (Nat.one_le_iff_ne_zero.2 hb)]
      omega

/-- `sftacc` after the first loop. -/
def sftaccOf (freq : ℕ) : ℕ := sftaccLoop (((kMaxSec * freq) % 2 ^ 64) >>> kMultBits) kMultBits

/-- **The safe bit width**: `600 * freq` has at most `64 - sftacc` binary digits, and not fewer when
`sftacc` is less than 32. -/
theorem sftaccOf_spec {freq : ℕ} (hw : 600 * freq < 2 ^ 63) :
    ∃ b, sftaccOf freq = 32 - b ∧ b ≤ 31 ∧ 600 * freq < 2 ^ (32 + b) ∧
      (b ≠ 0 → 2 ^ (31 + b) ≤ 600 * freq) := by
  set tmp := 600 * freq / 2 ^ 32 with htmp
  have hsize : tmp < 2 ^ tmp.size := Nat.lt_size_self tmp
  have hdigit : tmp.size ≠ 0 → 2 ^ (tmp.size - 1) ≤ tmp := fun hne => Nat.lt_size.1 (by omega)
  refine ⟨tmp.size, ?_, ?_, ?_, fun hne => ?_⟩
  · unfold sftaccOf kMaxSec kMultBits
    rw [Nat.mod_eq_of_lt (by omega), Nat.shiftRight_eq_div_pow]
    exact sftaccLoop_eq _ _ _ hsize hdigit
  · exact Nat.size_le.2 (by omega)
  · rw [pow_add]
    omega
  · have hpow : 2 ^ (31 + tmp.size) = 2 ^ 32 * 2 ^ (tmp.size - 1) := by
      rw [← pow_add]
      congr 1
      omega
    have := hdigit hne
    rw [hpow]
    omega

theorem multAt_eq {freq sft : ℕ} (hw : 600 * freq < 2 ^ 63) (hsft : sft ≤ 32) :
    multAt freq sft = (10 ^ 9 * 2 ^ sft + freq / 2) / freq := by
  have hpow : (2 : ℕ) ^ sft ≤ 2 ^ 32 := Nat.pow_le_pow_right (by norm_num) hsft
  unfold multAt kNsPerSec
  rw [Nat.shiftLeft_eq, Nat.mod_eq_of_lt (a := 1000000000 * 2 ^ sft) (by omega),
    Nat.mod_eq_of_lt (by omega)]
  norm_num

/-- At the last round of the search `mult` is small enough. -/
theorem multAt_one_lt {freq : ℕ} (hf : 1 ≤ freq) (hw : 600 * freq < 2 ^ 63) :
    multAt freq 1 < 2 ^ sftaccOf freq := by
  obtain ⟨b, hacc, hb, -, hdigits⟩ := sftaccOf_spec hw
  rw [multAt_eq hw (by norm_num), hacc, Nat.div_lt_iff_lt_mul hf]
  rcases Nat.eq_zero_or_pos b with rfl | hpos
  · omega
  · -- `freq` and `2 ^ sftacc` together have more than 53 digits
    have hprod : 2 ^ 63 ≤ 600 * (2 ^ (32 - b) * freq) := by
      calc 2 ^ 63 = 2 ^ (32 - b) * 2 ^ (31 + b) := by rw [← pow_add]; congr 1; omega
        _ ≤ 2 ^ (32 - b) * (600 * freq) := Nat.mul_le_mul_left _ (hdigits (by omega))
        _ = 600 * (2 ^ (32 - b) * freq) := by ring
    have htwo : 2 * freq ≤ 2 ^ (32 - b) * freq :=
      Nat.mul_le_mul_right _ (Nat.le_self_pow (by omega) 2)
    omega

/-- **The search** stops at the first shift, from `sft` downwards, whose `mult` is small enough. -/
theorem shiftLoop_break {freq sftacc : ℕ} (hlast : multAt freq 1 < 2 ^ sftacc) (sft tmp : ℕ) :
    let g := shiftLoop freq sftacc (sft + 1) tmp
    (1 ≤ g.gShift ∧ g.gShift ≤ sft + 1) ∧ g.gMult = multAt freq g.gShift ∧ g.gMult < 2 ^ sftacc ∧
      ∀ s, g.gShift < s → s ≤ sft + 1 → 2 ^ sftacc ≤ multAt freq s := by
  have hzero : ∀ x : ℕ, x >>> sftacc = 0 ↔ x < 2 ^ sftacc := by
    intro x
    rw [Nat.shiftRight_eq_div_pow, Nat.div_eq_zero_iff_lt (by positivity)]
  induction sft generalizing tmp with
  | zero =>
    rw [shiftLoop, if_pos ((hzero _).2 hlast)]
    exact ⟨⟨le_rfl, le_rfl⟩, rfl, hlast, fun s h1 h2 => absurd h2 (by dsimp only at h1; omega)⟩
  | succ sft ih =>
    rw [shiftLoop]
    by_cases hlt : multAt freq (sft + 1 + 1) < 2 ^ sftacc
    · rw [if_pos ((hzero _).2 hlt)]
      exact ⟨⟨by simp, le_rfl⟩, rfl, hlt, fun s h1 h2 => absurd h2 (by dsimp only at h1; omega)⟩
    · rw [if_neg fun hz => hlt ((hzero _).1 hz)]
      obtain ⟨⟨h1, h2⟩, hmult, hsmall, hmax⟩ := ih (multAt freq (sft + 1 + 1))
      refine ⟨⟨h1, by omega⟩, hmult, hsmall, fun s hs hle => ?_⟩
      rcases Nat.lt_or_ge s (sft + 1 + 1) with hs' | hs'
      · exact hmax s hs (by omega)
      · obtain rfl : s = sft + 1 + 1 := by omega
        exact not_lt.1 hlt

/-- Rounding to the nearest multiple. -/
theorem rounded_error {freq N : ℕ} (hf : 1 ≤ freq) :
    |((N + freq / 2) / freq : ℕ) * (freq : ℚ) - N| ≤ freq / 2 := by
  set q := (N + freq / 2) / freq
  have hle : q * freq ≤ N + freq / 2 := Nat.div_mul_le_self _ _
  have hlt : N + freq / 2 < q * freq + freq := Nat.lt_div_mul_add hf
  have h1 : ((q * freq : ℕ) : ℚ) * 2 ≤ N * 2 + freq := by exact_mod_cast (by omega)
  have h2 : (N : ℚ) * 2 ≤ (q * freq : ℕ) * 2 + freq := by exact_mod_cast (by omega)
  push_cast at h1 h2
  rw [abs_le]
  constructor <;> linarith

/-- A reading scaled by `mult / 2 ^ shift`, when `mult` is rounded to the nearest integer. -/
theorem scaled_error {freq mult shift : ℕ} (hf : 1 ≤ freq)
    (hmult : mult = (10 ^ 9 * 2 ^ shift + freq / 2) / freq) (c : ℕ) :
    |((c * mult / 2 ^ shift : ℕ) : ℚ) - c * 10 ^ 9 / freq| ≤ (c : ℚ) / 2 ^ (shift + 1) + 1 := by
  have hF : (0 : ℚ) < freq := by exact_mod_cast hf
  have hP : (0 : ℚ) < 2 ^ shift := by positivity
  -- the quotient is cut off
  have hfloor : |((c * mult / 2 ^ shift : ℕ) : ℚ) - c * mult / 2 ^ shift| ≤ 1 := by
    have hle : ((c * mult / 2 ^ shift : ℕ) : ℚ) ≤ ((c * mult : ℕ) : ℚ) / (2 ^ shift : ℕ) :=
      Nat.cast_div_le
    have hlt : ((c * mult : ℕ) : ℚ) / (2 ^ shift : ℕ) < (c * mult / 2 ^ shift : ℕ) + 1 := by
      rw [div_lt_iff₀ (by exact_mod_cast hP)]
      exact_mod_cast Nat.lt_mul_of_div_lt (Nat.lt_succ_self _) (by positivity)
    push_cast at hle hlt ⊢
    rw [abs_le]
    constructor <;> linarith
  -- the factor is rounded
  have hround := rounded_error (N := 10 ^ 9 * 2 ^ shift) hf
  rw [← hmult] at hround
  have hfactor : |(c : ℚ) * mult / 2 ^ shift - c * 10 ^ 9 / freq| ≤ (c : ℚ) / 2 ^ (shift + 1) := by
    have hdiff : (c : ℚ) * mult / 2 ^ shift - c * 10 ^ 9 / freq =
        c / (2 ^ shift * freq) * (mult * freq - (10 ^ 9 * 2 ^ shift : ℕ)) := by
      push_cast
      field_simp
      norm_num
    have hcoef : (0 : ℚ) ≤ c / (2 ^ shift * freq) := by positivity
    rw [hdiff, abs_mul, abs_of_nonneg hcoef]
    calc (c : ℚ) / (2 ^ shift * freq) * |(mult : ℚ) * freq - (10 ^ 9 * 2 ^ shift : ℕ)|
        ≤ c / (2 ^ shift * freq) * (freq / 2) := mul_le_mul_of_nonneg_left hround hcoef
      _ = (c : ℚ) / 2 ^ (shift + 1) := by
        rw [pow_succ]
        field_simp
  calc |((c * mult / 2 ^ shift : ℕ) : ℚ) - c * 10 ^ 9 / freq|
      ≤ |((c * mult / 2 ^ shift : ℕ) : ℚ) - c * mult / 2 ^ shift| +
          |(c : ℚ) * mult / 2 ^ shift - c * 10 ^ 9 / freq| := abs_sub_le _ _ _
    _ ≤ (c : ℚ) / 2 ^ (shift + 1) + 1 := by linarith

/-- **The accuracy of the scaling.** The search ends with its `break`, at the largest shift for which
`mult` is below `2 ^ sftacc`; for every reading of the window the product fits into a word, and the
result is off by half a unit of `mult` and the fraction that is cut off. -/
theorem calcMultShift_accurate (freq : ℕ) (hf : 1 ≤ freq) (hw : 600 * freq < 2 ^ 63) :
    (calcMultShift freq).gMult = (10 ^ 9 * 2 ^ (calcMultShift freq).gShift + freq / 2) / freq ∧
      IsGreatest {s | (1 ≤ s ∧ s ≤ 32) ∧
        (10 ^ 9 * 2 ^ s + freq / 2) / freq < 2 ^ sftaccOf freq} (calcMultShift freq).gShift ∧
      ∀ c ≤ 600 * freq, c * (calcMultShift freq).gMult < 2 ^ 64 ∧
        |((c * (calcMultShift freq).gMult / 2 ^ (calcMultShift freq).gShift : ℕ) : ℚ) -
            c * 10 ^ 9 / freq| ≤ (c : ℚ) / 2 ^ ((calcMultShift freq).gShift + 1) + 1 := by
  have hcalc : calcMultShift freq = shiftLoop freq (sftaccOf freq) (31 + 1) 0 := by
    unfold calcMultShift
    rw [if_neg (by omega)]
    rfl
  obtain ⟨⟨h1, h2⟩, hmult, hsmall, hmax⟩ := shiftLoop_break (multAt_one_lt hf hw) 31 0
  rw [← hcalc] at h1 h2 hmult hsmall hmax
  have hexact := hmult.trans (multAt_eq hw h2)
  refine ⟨hexact, ⟨⟨⟨h1, h2⟩, hexact ▸ hsmall⟩, ?_⟩, fun c hc => ⟨?_, scaled_error hf hexact c⟩⟩
  · rintro s ⟨⟨-, hs⟩, hlt⟩
    by_contra hgt
    have hge := hmax s (not_le.1 hgt) hs
    rw [multAt_eq hw hs] at hge
    omega
  · obtain ⟨b, hacc, hb, hword, -⟩ := sftaccOf_spec hw
    rw [hacc] at hsmall
    calc c * (calcMultShift freq).gMult < 2 ^ (32 + b) * 2 ^ (32 - b) :=
          Nat.mul_lt_mul'' (hc.trans_lt hword) hsmall
      _ = 2 ^ 64 := by
        rw [← pow_add]
        congr 1
        omega

/-- At 100 MHz one second is read exactly. -/
theorem calcMultShift_accurate_100MHz :
    100000000 * (calcMultShift 100000000).gMult < 2 ^ 64 ∧
      |((100000000 * (calcMultShift 100000000).gMult /
          2 ^ (calcMultShift 100000000).gShift : ℕ) : ℚ) -
        (100000000 : ℕ) * 10 ^ 9 / (100000000 : ℕ)| ≤
          ((100000000 : ℕ) : ℚ) / 2 ^ ((calcMultShift 100000000).gShift + 1) + 1 :=
  (calcMultShift_accurate 100000000 (by norm_num) (by norm_num)).2.2 100000000 (by norm_num)

end KvBench.Clock
