import Mathlib.Tactic.FieldSimp
import Mathlib.Tactic.Linarith
import Mathlib.Tactic.NormNum
import Mathlib.Algebra.Order.Field.Rat
import ItemStore.Proofs.Nearest

/-!
# How far rounding goes, and what few digits survive it

The magnitude nearest to a fraction differs from it by at most half of the distance
between two magnitudes, so by a part of itself that shrinks with the width of the
fraction.  Two decimals of few digits cannot both lie that near to one magnitude: the
magnitude nearest to such a decimal has that decimal as its shortest digits.

## Main definitions

* `FloatFormat.magnitude` — the rational number of a code.
* `FloatFormat.grid` — the distance between two decimals of so many places near to a code.

## Main results

* `FloatFormat.abs_magnitude_sub_le` — the error of rounding.
* `FloatFormat.nearest_lt_infinity` — which fractions are not rounded to infinity.
* `FloatFormat.shortest_ofDecimal` — few digits are the shortest digits of what they are
  rounded to.
-/

namespace ItemStore

/-! ### Rounding a quotient -/

/-- Rounding a quotient goes at most half a step down. -/
theorem le_roundHalfEven_mul (num : Nat) {den : Nat} (hden : 0 < den) :
    2 * num ≤ (2 * roundHalfEven num den + 1) * den := by
  have hdiv := Nat.div_add_mod num den
  have hmod := Nat.mod_lt num hden
  unfold roundHalfEven
  simp only
  generalize num / den = q at *
  generalize num % den = r at *
  have hstep : ∀ k, (2 * (q + k) + 1) * den = 2 * (den * q) + 2 * (k * den) + den := by
    intro k
    ring
  split
  · have h := hstep 0
    simp only [Nat.add_zero, Nat.zero_mul] at h
    omega
  · split
    · have h := hstep 1
      omega
    · have h := hstep (q % 2)
      have hnonneg := Nat.zero_le (q % 2 * den)
      omega

/-- Rounding a quotient goes at most half a step up. -/
theorem roundHalfEven_mul_le (num : Nat) {den : Nat} (hden : 0 < den) :
    2 * roundHalfEven num den * den ≤ 2 * num + den := by
  have hdiv := Nat.div_add_mod num den
  have hmod := Nat.mod_lt num hden
  unfold roundHalfEven
  simp only
  generalize num / den = q at *
  generalize num % den = r at *
  have hstep : ∀ k, 2 * (q + k) * den = 2 * (den * q) + 2 * (k * den) := by
    intro k
    ring
  split
  · have h := hstep 0
    simp only [Nat.add_zero, Nat.zero_mul] at h
    omega
  · split
    · have h := hstep 1
      omega
    · have h := hstep (q % 2)
      -- Only a half is rounded to the even quotient.
      have hhalf : q % 2 * den ≤ den := by
        have hle : q % 2 ≤ 1 := by omega
        calc q % 2 * den ≤ 1 * den := Nat.mul_le_mul_right den hle
          _ = den := Nat.one_mul den
      omega

theorem roundHalfEven_le {num den q : Nat} (h : num ≤ q * den) (hden : 0 < den) :
    roundHalfEven num den ≤ q := by
  have hdiv := Nat.div_add_mod num den
  have hle : num / den ≤ q := by
    rw [← Nat.mul_div_cancel q hden]
    exact Nat.div_le_div_right h
  unfold roundHalfEven
  simp only
  rcases Nat.lt_or_eq_of_le hle with hlt | heq
  · split
    · exact hle
    · split
      · exact hlt
      · omega
  · -- Then nothing is left to be rounded.
    have hrest : num % den = 0 := by
      rw [heq, Nat.mul_comm] at hdiv
      omega
    rw [hrest, if_pos (by omega), heq]

namespace FloatFormat

variable (F : FloatFormat)

/-! ### The magnitude of the nearest code -/

/-- How often the distance between magnitudes is doubled around a fraction. -/
def doublings (num den : Nat) : Nat := Nat.log2 (num * F.one / den) - F.fractionBits

/-- The multiple of that distance that is nearest to a fraction. -/
def steps (num den : Nat) : Nat :=
  roundHalfEven (num * F.one) (den * 2 ^ F.doublings num den)

theorem nearest_eq (num den : Nat) :
    F.nearest num den = min F.infinity (F.doublings num den * F.binade + F.steps num den) := rfl

section Nearest

variable {num den : Nat} (hden : 0 < den)
include hden

/-- The multiple is no more than what ends a binade. -/
theorem steps_le : F.steps num den ≤ 2 * F.binade := by
  refine roundHalfEven_le ?_ (Nat.mul_pos hden (Nat.two_pow_pos _))
  have hlt : num * F.one / den < 2 ^ (F.doublings num den + F.fractionBits + 1) := by
    by_cases hzero : num * F.one / den = 0
    · rw [hzero]
      exact Nat.two_pow_pos _
    · refine (Nat.log2_lt hzero).mp ?_
      unfold doublings
      omega
  have hle : num * F.one < 2 ^ (F.doublings num den + F.fractionBits + 1) * den :=
    (Nat.div_lt_iff_lt_mul hden).mp hlt
  calc num * F.one ≤ 2 ^ (F.doublings num den + F.fractionBits + 1) * den := Nat.le_of_lt hle
    _ = 2 * F.binade * (den * 2 ^ F.doublings num den) := by
        rw [F.binade_eq]
        ring

/-- From the second binade on the multiple fills a binade. -/
theorem binade_le_steps (h : F.doublings num den ≠ 0 ∨ F.binade * den ≤ num * F.one) :
    F.binade ≤ F.steps num den := by
  refine Nat.le_trans ?_ (le_roundHalfEven _ _)
  rw [Nat.le_div_iff_mul_le (Nat.mul_pos hden (Nat.two_pow_pos _))]
  by_cases hzero : F.doublings num den = 0
  · rw [hzero, pow_zero, Nat.mul_one]
    exact h.resolve_left (absurd hzero)
  · have hne : num * F.one / den ≠ 0 := by
      intro hquotient
      refine hzero ?_
      rw [doublings, hquotient]
      simp
    have hlog : F.doublings num den + F.fractionBits = Nat.log2 (num * F.one / den) := by
      unfold doublings at hzero ⊢
      omega
    have hself := Nat.log2_self_le hne
    rw [← hlog, Nat.le_div_iff_mul_le hden] at hself
    calc F.binade * (den * 2 ^ F.doublings num den)
        = 2 ^ (F.doublings num den + F.fractionBits) * den := by
          rw [F.binade_eq]
          ring
      _ ≤ num * F.one := hself

/-- The magnitude of the nearest code. -/
theorem units_nearest (hfinite : F.nearest num den < F.infinity) :
    F.units (F.nearest num den) = F.steps num den * 2 ^ F.doublings num den := by
  have hcode : F.nearest num den = F.doublings num den * F.binade + F.steps num den := by
    rw [nearest_eq] at hfinite ⊢
    omega
  have hsteps : F.steps num den ≤ 2 * F.binade := F.steps_le hden
  have hpos := F.binade_pos
  rw [hcode]
  by_cases hbinade : F.binade ≤ F.steps num den
  · obtain ⟨m, hm⟩ := Nat.exists_eq_add_of_le hbinade
    rw [hm, show F.doublings num den * F.binade + (F.binade + m) =
      (F.doublings num den + 1) * F.binade + m by ring, F.units_of_binade_le ?_]
    · -- The multiple may end its binade; then the code is the first of the next one.
      rcases Nat.lt_or_eq_of_le (show m ≤ F.binade by omega) with hlt | rfl
      · rw [Nat.add_comm _ m, Nat.add_mul_mod_self_right, Nat.add_mul_div_right _ _ hpos,
          Nat.div_eq_of_lt hlt, Nat.mod_eq_of_lt hlt, Nat.zero_add, Nat.add_sub_cancel]
      · rw [← Nat.succ_mul, Nat.mul_mod_left, Nat.mul_div_cancel _ hpos]
        simp only [Nat.succ_eq_add_one, Nat.add_sub_cancel, Nat.add_zero]
        ring
    · have hle : 1 * F.binade ≤ (F.doublings num den + 1) * F.binade :=
        Nat.mul_le_mul_right _ (Nat.le_add_left 1 _)
      omega
  · have hzero : F.doublings num den = 0 := by
      by_contra hne
      exact hbinade (F.binade_le_steps hden (.inl hne))
    rw [hzero, Nat.zero_mul, Nat.zero_add, pow_zero, Nat.mul_one,
      F.units_of_lt_binade (Nat.lt_of_not_le hbinade)]

/-- Fractions that are short enough are not rounded to infinity. -/
theorem nearest_lt_infinity (hF : 2 ≤ F.exponentBits) (h : num < 2 ^ (F.maxExponent - 1) * den) :
    F.nearest num den < F.infinity := by
  have hmax := F.two_le_maxExponent hF
  have hunit : F.unitExponent = F.maxExponent + F.fractionBits - 2 := rfl
  have hquotient : num * F.one / den < 2 ^ (F.maxExponent - 1 + F.unitExponent) := by
    rw [Nat.div_lt_iff_lt_mul hden]
    calc num * F.one < 2 ^ (F.maxExponent - 1) * den * F.one :=
          Nat.mul_lt_mul_of_pos_right h F.one_pos
      _ = 2 ^ (F.maxExponent - 1 + F.unitExponent) * den := by
          rw [pow_add, show F.one = 2 ^ F.unitExponent from rfl]
          ring
  have hdoublings : F.doublings num den ≤ 2 * F.maxExponent - 4 := by
    unfold doublings
    by_cases hzero : num * F.one / den = 0
    · rw [hzero]
      simp
    · have hlog := (Nat.log2_lt hzero).mpr hquotient
      omega
  have hsteps : F.steps num den ≤ 2 * F.binade := F.steps_le hden
  rw [nearest_eq]
  refine Nat.lt_of_le_of_lt (Nat.min_le_right _ _) ?_
  calc F.doublings num den * F.binade + F.steps num den
      ≤ (2 * F.maxExponent - 4) * F.binade + 2 * F.binade :=
        Nat.add_le_add (Nat.mul_le_mul_right _ hdoublings) hsteps
    _ = (2 * F.maxExponent - 2) * F.binade := by
        rw [← Nat.add_mul]
        congr 1
        omega
    _ < F.infinity := by
        rw [F.infinity_eq hF]
        exact Nat.lt_add_of_pos_right F.binade_pos

/-- A fraction from the second binade on is rounded to a code from there on. -/
theorem binade_le_units_nearest (hfinite : F.nearest num den < F.infinity)
    (h : F.binade * den ≤ num * F.one) : F.binade ≤ F.units (F.nearest num den) := by
  rw [F.units_nearest hden hfinite]
  exact Nat.le_trans (F.binade_le_steps hden (.inr h))
    (Nat.le_mul_of_pos_right _ (Nat.two_pow_pos _))

/-- The error of rounding, as a part of what is rounded to. -/
theorem two_pow_mul_error_le (hfinite : F.nearest num den < F.infinity)
    (hunits : F.binade ≤ F.units (F.nearest num den)) :
    2 ^ (F.fractionBits + 1) * (num * F.one) ≤
        (2 ^ (F.fractionBits + 1) + 1) * (F.units (F.nearest num den) * den) ∧
      2 ^ (F.fractionBits + 1) * (F.units (F.nearest num den) * den) ≤
        2 ^ (F.fractionBits + 1) * (num * F.one) + F.units (F.nearest num den) * den := by
  have hunits' := F.units_nearest hden hfinite
  have hsteps : F.binade ≤ F.steps num den := by
    by_cases hzero : F.doublings num den = 0
    · rwa [hunits', hzero, pow_zero, Nat.mul_one] at hunits
    · exact F.binade_le_steps hden (.inl hzero)
  have hdistance : F.binade * (den * 2 ^ F.doublings num den) ≤
      F.steps num den * 2 ^ F.doublings num den * den := by
    calc F.binade * (den * 2 ^ F.doublings num den)
        ≤ F.steps num den * (den * 2 ^ F.doublings num den) := Nat.mul_le_mul_right _ hsteps
      _ = F.steps num den * 2 ^ F.doublings num den * den := by ring
  have hpos : 0 < den * 2 ^ F.doublings num den := Nat.mul_pos hden (Nat.two_pow_pos _)
  have hdown := Nat.mul_le_mul_left F.binade (le_roundHalfEven_mul (num * F.one) hpos)
  have hup := Nat.mul_le_mul_left F.binade (roundHalfEven_mul_le (num * F.one) hpos)
  rw [hunits', pow_succ, ← F.binade_eq]
  change F.binade * (2 * (num * F.one)) ≤
    F.binade * ((2 * F.steps num den + 1) * (den * 2 ^ F.doublings num den)) at hdown
  change F.binade * (2 * F.steps num den * (den * 2 ^ F.doublings num den)) ≤
    F.binade * (2 * (num * F.one) + den * 2 ^ F.doublings num den) at hup
  constructor
  · linarith
  · linarith

end Nearest

/-! ### Rational numbers -/

theorem ratCast_one_pos : (0 : ℚ) < F.one := by exact_mod_cast F.one_pos

/-- The rational number of a code. -/
def magnitude (code : Nat) : ℚ := F.units code / F.one

variable {F} in
theorem magnitude_eq_of_units {code n : Nat} (h : F.units code = n * F.one) :
    F.magnitude code = n := by
  rw [magnitude, h, Nat.cast_mul, mul_div_assoc, div_self F.ratCast_one_pos.ne', mul_one]

/-- **The error of rounding**, as a part of what is rounded to. -/
theorem abs_magnitude_sub_le {num den : Nat} (hden : 0 < den)
    (hfinite : F.nearest num den < F.infinity)
    (hunits : F.binade ≤ F.units (F.nearest num den)) :
    |F.magnitude (F.nearest num den) - num / den| * 2 ^ (F.fractionBits + 1) ≤
      F.magnitude (F.nearest num den) := by
  obtain ⟨hdown, hup⟩ := F.two_pow_mul_error_le hden hfinite hunits
  have hone := F.ratCast_one_pos
  have hden' : (0 : ℚ) < den := by exact_mod_cast hden
  have hdown' : (2 : ℚ) ^ (F.fractionBits + 1) * (num * F.one) ≤
      (2 ^ (F.fractionBits + 1) + 1) * (F.units (F.nearest num den) * den) := by
    exact_mod_cast hdown
  have hup' : (2 : ℚ) ^ (F.fractionBits + 1) * (F.units (F.nearest num den) * den) ≤
      2 ^ (F.fractionBits + 1) * (num * F.one) + F.units (F.nearest num den) * den := by
    exact_mod_cast hup
  have hnum : (num : ℚ) * F.one = num / den * (den * F.one) := by field_simp
  have hmagnitude : (F.units (F.nearest num den) : ℚ) * den =
      F.magnitude (F.nearest num den) * (den * F.one) := by
    unfold magnitude
    field_simp
  rw [hnum, hmagnitude] at hdown' hup'
  generalize F.magnitude (F.nearest num den) = M at *
  generalize (num : ℚ) / den = a at *
  generalize (2 : ℚ) ^ (F.fractionBits + 1) = k at *
  have hpos : (0 : ℚ) < den * F.one := mul_pos hden' hone
  have hbelow : k * a ≤ (k + 1) * M := by
    refine le_of_mul_le_mul_right ?_ hpos
    linarith
  have habove : k * M ≤ k * a + M := by
    refine le_of_mul_le_mul_right ?_ hpos
    linarith
  rcases abs_cases (M - a) with ⟨habs, -⟩ | ⟨habs, -⟩
  · rw [habs]
    linarith
  · rw [habs]
    linarith

/-- The value of the fraction that a decimal is rounded as. -/
theorem cast_fraction (coefficient : Nat) (exponent : Int) :
    ((coefficient * 10 ^ exponent.toNat : Nat) : ℚ) / ((10 ^ (-exponent).toNat : Nat) : ℚ) =
      coefficient * 10 ^ exponent := by
  rcases Int.le_total 0 exponent with hle | hle
  · obtain ⟨k, rfl⟩ := Int.eq_ofNat_of_zero_le hle
    simp
  · obtain ⟨k, hk⟩ := Int.eq_ofNat_of_zero_le (show 0 ≤ -exponent by omega)
    obtain rfl : exponent = -(k : Int) := by omega
    rw [show (-(k : Int)).toNat = 0 by omega, show (- -(k : Int)).toNat = k by omega]
    simp [div_eq_mul_inv]

/-- The nearest code depends on the value of a decimal only. -/
theorem nearestDecimal_congr {c c' : Nat} {e e' : Int} (h : (c : ℚ) * 10 ^ e = c' * 10 ^ e') :
    F.nearestDecimal c e = F.nearestDecimal c' e' := by
  have hten : (10 : ℚ) ≠ 0 := by norm_num
  -- The decimal with the larger exponent is expanded to that of the other.
  have hexpand : ∀ {c c' : Nat} {e e' : Int}, e ≤ e' → (c : ℚ) * 10 ^ e = c' * 10 ^ e' →
      F.nearestDecimal c e = F.nearestDecimal c' e' := by
    intro c c' e e' hle heq
    obtain ⟨k, hk⟩ := Int.eq_ofNat_of_zero_le (show 0 ≤ e' - e by omega)
    obtain rfl : e' = e + k := by omega
    rw [zpow_add₀ hten, mul_left_comm, mul_comm] at heq
    have hcoefficient : (c : ℚ) = c' * 10 ^ k := by
      have hpow : (10 : ℚ) ^ e ≠ 0 := zpow_ne_zero e hten
      have hcancel := mul_left_cancel₀ hpow heq
      rwa [zpow_natCast] at hcancel
    obtain rfl : c = c' * 10 ^ k := by exact_mod_cast hcoefficient
    exact F.nearestDecimal_mul_pow c' k e
  rcases Int.le_total e e' with hle | hle
  · exact hexpand hle h
  · exact (hexpand hle h.symm).symm

/-! ### Decimals -/

section Decimals

variable (hF : 2 ≤ F.exponentBits)
include hF

theorem ofDecimal_congr {c c' : Nat} {e e' : Int} (h : (c : ℚ) * 10 ^ e = c' * 10 ^ e') :
    F.ofDecimal c e = F.ofDecimal c' e' := by
  rw [F.ofDecimal_eq_nearestDecimal hF, F.ofDecimal_eq_nearestDecimal hF, F.nearestDecimal_congr h]

/-- The error of rounding a decimal. -/
theorem abs_magnitude_ofDecimal_sub_le {c : Nat} {e : Int}
    (hfinite : F.ofDecimal c e < F.infinity) (hunits : F.binade ≤ F.units (F.ofDecimal c e)) :
    |F.magnitude (F.ofDecimal c e) - c * 10 ^ e| * 2 ^ (F.fractionBits + 1) ≤
      F.magnitude (F.ofDecimal c e) := by
  rw [F.ofDecimal_eq_nearestDecimal hF, nearestDecimal] at hfinite hunits ⊢
  rw [← cast_fraction]
  exact F.abs_magnitude_sub_le (Nat.pow_pos (by decide)) hfinite hunits

theorem ofDecimal_lt_infinity {c : Nat} {e : Int}
    (h : (c : ℚ) * 10 ^ e < 2 ^ (F.maxExponent - 1)) : F.ofDecimal c e < F.infinity := by
  have hden : (0 : ℚ) < ((10 ^ (-e).toNat : Nat) : ℚ) := by positivity
  rw [F.ofDecimal_eq_nearestDecimal hF, nearestDecimal]
  refine F.nearest_lt_infinity (Nat.pow_pos (by decide)) hF ?_
  rw [← cast_fraction, div_lt_iff₀ hden] at h
  exact_mod_cast h

theorem binade_le_units_ofDecimal {c : Nat} {e : Int} (hfinite : F.ofDecimal c e < F.infinity)
    (h : (F.binade : ℚ) ≤ c * 10 ^ e * F.one) : F.binade ≤ F.units (F.ofDecimal c e) := by
  have hden : (0 : ℚ) < ((10 ^ (-e).toNat : Nat) : ℚ) := by positivity
  rw [F.ofDecimal_eq_nearestDecimal hF, nearestDecimal] at hfinite ⊢
  refine F.binade_le_units_nearest (Nat.pow_pos (by decide)) hfinite ?_
  rw [← cast_fraction, div_mul_eq_mul_div, le_div_iff₀ hden] at h
  exact_mod_cast h

end Decimals

end FloatFormat

/-! ### Decimals near a magnitude -/

section Near

variable {M k : ℚ}

/-- A decimal of few digits that lies near to a magnitude lies on the grid of that many
digits of the magnitude. -/
theorem exists_eq_grid {places c : Nat} {lead e : Int} (hlead : (10 : ℚ) ^ lead ≤ M)
    (hk : (10 : ℚ) ^ places < k) (hc : c < 10 ^ places) (hnear : |M - c * 10 ^ e| * k ≤ M) :
    ∃ j : Nat, (c : ℚ) * 10 ^ e = j * 10 ^ (lead + 1 - places) := by
  have hten : (10 : ℚ) ≠ 0 := by norm_num
  by_cases hle : lead + 1 - places ≤ e
  · obtain ⟨n, hn⟩ := Int.eq_ofNat_of_zero_le (show 0 ≤ e - (lead + 1 - places) by omega)
    refine ⟨c * 10 ^ n, ?_⟩
    rw [show e = n + (lead + 1 - places) by omega, zpow_add₀ hten, zpow_natCast]
    push_cast
    ring
  · -- Otherwise all its digits stand below the first one of the magnitude, too far away.
    exfalso
    have hpow : (0 : ℚ) < 10 ^ places := by positivity
    have hcoefficient : (c : ℚ) ≤ 10 ^ places - 1 := by
      have hsucc : c + 1 ≤ 10 ^ places := hc
      have hcast : ((c + 1 : Nat) : ℚ) ≤ ((10 ^ places : Nat) : ℚ) := by exact_mod_cast hsucc
      push_cast at hcast
      linarith
    have hexponent : (10 : ℚ) ^ e ≤ 10 ^ (lead - places) :=
      zpow_le_zpow_right₀ (by norm_num) (by omega)
    have hrest : (0 : ℚ) ≤ 10 ^ places - 1 := (Nat.cast_nonneg c).trans hcoefficient
    have hvalue : (c : ℚ) * 10 ^ e * 10 ^ places ≤ (10 ^ places - 1) * M := by
      calc (c : ℚ) * 10 ^ e * 10 ^ places
          ≤ (10 ^ places - 1) * 10 ^ (lead - places) * 10 ^ places := by
            refine mul_le_mul_of_nonneg_right ?_ hpow.le
            exact mul_le_mul hcoefficient hexponent (zpow_nonneg (by norm_num) _) hrest
        _ = (10 ^ places - 1) * 10 ^ lead := by
            rw [mul_assoc, ← zpow_natCast, ← zpow_add₀ hten, sub_add_cancel]
        _ ≤ (10 ^ places - 1) * M := mul_le_mul_of_nonneg_left hlead hrest
    have hM : 0 < M := (zpow_pos (by norm_num) lead).trans_le hlead
    have hkpos : 0 < k := hpow.trans hk
    have herror : (M - c * 10 ^ e) * k ≤ M :=
      (mul_le_mul_of_nonneg_right (le_abs_self _) hkpos.le).trans hnear
    have hle : M * k ≤ M * 10 ^ places := by
      have herror' := mul_le_mul_of_nonneg_right herror hpow.le
      have hvalue' := mul_le_mul_of_nonneg_right hvalue hkpos.le
      linarith
    exact absurd (le_of_mul_le_mul_left hle hM) (not_le.mpr hk)

/-- Two points of a grid that lie near to one magnitude are the same. -/
theorem eq_of_near {G : ℚ} {j j' : Nat} (hG : 0 < G) (hpos : 0 ≤ k) (hk : 2 * M < G * k)
    (hj : |M - j * G| * k ≤ M) (hj' : |M - j' * G| * k ≤ M) : j = j' := by
  by_contra hne
  have hdistance : (1 : ℚ) ≤ |(j : ℚ) - j'| := by
    have hint : (1 : Int) ≤ |(j : Int) - j'| := Int.one_le_abs (by omega)
    exact_mod_cast hint
  have htriangle : |(j : ℚ) - j'| * G ≤ |M - j * G| + |M - j' * G| := by
    calc |(j : ℚ) - j'| * G = |(j * G - M) + (M - j' * G)| := by
          rw [← abs_of_pos hG, ← abs_mul, abs_of_pos hG]
          congr 1
          ring
      _ ≤ |j * G - M| + |M - j' * G| := abs_add_le _ _
      _ = |M - j * G| + |M - j' * G| := by rw [abs_sub_comm]
  have hfar : G * k ≤ 2 * M := by
    calc G * k ≤ |(j : ℚ) - j'| * G * k := by
          refine mul_le_mul_of_nonneg_right ?_ hpos
          exact le_mul_of_one_le_left hG.le hdistance
      _ ≤ (|M - j * G| + |M - j' * G|) * k := mul_le_mul_of_nonneg_right htriangle hpos
      _ ≤ 2 * M := by linarith
  linarith

end Near

namespace FloatFormat

variable (F : FloatFormat)

/-! ### Few digits -/

/-- A magnitude, written out in full. -/
theorem magnitude_eq_exact (code : Nat) :
    F.magnitude code = F.exact code * 10 ^ (-(F.unitExponent : Int)) := by
  have hten : ((10 : ℚ) ^ (F.unitExponent : Int)) = 2 ^ F.unitExponent * 5 ^ F.unitExponent := by
    rw [zpow_natCast, ← mul_pow]
    norm_num
  have hone : (F.one : ℚ) = 2 ^ F.unitExponent := by
    rw [show F.one = 2 ^ F.unitExponent from rfl]
    push_cast
    rfl
  have hexact : (F.exact code : ℚ) = F.units code * 5 ^ F.unitExponent := by
    rw [exact, Nat.pow_eq]
    push_cast
    rfl
  rw [zpow_neg, hten, hexact, magnitude, hone]
  field_simp

/-- The digits of a number that is not zero. -/
theorem pow_digitCount_le {n : Nat} (hn : n ≠ 0) :
    10 ^ (digitCount n - 1) ≤ n ∧ n < 10 ^ digitCount n := by
  have hpos : 0 < digitCount n := Nat.length_toDigits_pos
  refine ⟨?_, (Nat.length_toDigits_le_iff (by decide) hpos).mp (Nat.le_refl _)⟩
  by_cases hone : digitCount n = 1
  · rw [hone]
    simp only [Nat.sub_self, pow_zero]
    omega
  · by_contra hlt
    have hle := (Nat.length_toDigits_le_iff (b := 10) (by decide)
      (show 0 < digitCount n - 1 by omega)).mpr (Nat.lt_of_not_le hlt)
    change digitCount n ≤ digitCount n - 1 at hle
    omega

/-- The value of shortened digits counts dropped digits. -/
theorem exponent_of_shorten? {code full dropped : Nat} {d : Nat × Int}
    (h : F.shorten? code full dropped = some d) : d.2 = dropped - (F.unitExponent : Int) := by
  unfold shorten? at h
  simp only at h
  split at h
  · cases h
    rfl
  · split at h
    · cases h
      rfl
    · cases h

/-- Digits are shortened if a neighbour reads back. -/
theorem exists_shorten?_eq_some {code full dropped j : Nat}
    (hj : j = full / 10 ^ dropped ∨ j = full / 10 ^ dropped + 1)
    (h : F.ofDecimal j (dropped - (F.unitExponent : Int)) = code) :
    ∃ d, F.shorten? code full dropped = some d := by
  unfold shorten?
  simp only [Nat.pow_eq]
  split
  · exact ⟨_, rfl⟩
  · next hbelow =>
    split
    · exact ⟨_, rfl⟩
    · next habove =>
      exfalso
      rcases hj with rfl | rfl
      · -- The lower neighbour is passed over only if the upper one reads back too.
        have hup : F.ofDecimal (full / 10 ^ dropped + 1) (dropped - (F.unitExponent : Int)) = code ∧
            10 ^ dropped ≤ 2 * (full % 10 ^ dropped) := by
          simpa [h] using hbelow
        exact habove (beq_iff_eq.mpr hup.1)
      · exact habove (beq_iff_eq.mpr h)

theorem value_normalized (places : Nat) (d : Nat × Int) :
    ((normalized places d).1 : ℚ) * 10 ^ (normalized places d).2 = d.1 * 10 ^ d.2 := by
  unfold normalized
  split
  · next hcarry =>
    rw [hcarry, Nat.pow_eq, zpow_add₀ (by norm_num)]
    push_cast
    rw [zpow_natCast]
    ring
  · rfl

/-! ### The grid of a magnitude -/

/-- The distance between decimals that have as many digits as `places` and lie around a
magnitude. -/
def grid (code places : Nat) : ℚ :=
  10 ^ ((digitCount (F.exact code) : Int) - places - F.unitExponent)

theorem grid_pos (code places : Nat) : 0 < F.grid code places := zpow_pos (by norm_num) _

section Grid

variable {code places : Nat} (hbinade : 10 ^ places ≤ F.binade) (hunits : F.binade ≤ F.units code)
include hunits

theorem exact_ne_zero : F.exact code ≠ 0 := by
  have hpos : 0 < F.units code := Nat.lt_of_lt_of_le F.binade_pos hunits
  exact Nat.ne_of_gt (Nat.mul_pos hpos (Nat.pow_pos (by decide)))

theorem code_ne_zero : code ≠ 0 := by
  rintro rfl
  have hpos := F.binade_pos
  rw [F.units_of_lt_binade hpos] at hunits
  omega

theorem pow_le_magnitude :
    (10 : ℚ) ^ ((digitCount (F.exact code) : Int) - 1 - F.unitExponent) ≤ F.magnitude code := by
  have hpos : 0 < digitCount (F.exact code) := Nat.length_toDigits_pos
  have hle : ((10 ^ (digitCount (F.exact code) - 1) : Nat) : ℚ) ≤ F.exact code := by
    exact_mod_cast (pow_digitCount_le (F.exact_ne_zero hunits)).1
  rw [F.magnitude_eq_exact, sub_eq_add_neg, zpow_add₀ (by norm_num),
    show (digitCount (F.exact code) : Int) - 1 = ((digitCount (F.exact code) - 1 : Nat) : Int) by
      omega, zpow_natCast]
  refine mul_le_mul_of_nonneg_right ?_ (zpow_nonneg (by norm_num) _)
  exact_mod_cast hle

theorem magnitude_lt_grid_mul : F.magnitude code < F.grid code places * 10 ^ places := by
  have hlt : (F.exact code : ℚ) < ((10 ^ digitCount (F.exact code) : Nat) : ℚ) := by
    exact_mod_cast (pow_digitCount_le (F.exact_ne_zero hunits)).2
  have hgrid : F.grid code places * 10 ^ places =
      10 ^ digitCount (F.exact code) * 10 ^ (-(F.unitExponent : Int)) := by
    rw [grid, ← zpow_natCast, ← zpow_natCast, ← zpow_add₀ (by norm_num), ← zpow_add₀ (by norm_num)]
    congr 1
    ring
  rw [hgrid, F.magnitude_eq_exact]
  refine mul_lt_mul_of_pos_right ?_ (zpow_pos (by norm_num) _)
  exact_mod_cast hlt

theorem magnitude_pos : 0 < F.magnitude code :=
  (zpow_pos (by norm_num) _).trans_le (F.pow_le_magnitude hunits)

include hbinade

theorem two_mul_magnitude_lt :
    2 * F.magnitude code < F.grid code places * 2 ^ (F.fractionBits + 1) := by
  have hcast : ((10 ^ places : Nat) : ℚ) ≤ ((2 ^ F.fractionBits : Nat) : ℚ) := by
    exact_mod_cast hbinade
  push_cast at hcast
  calc 2 * F.magnitude code
      < 2 * (F.grid code places * 10 ^ places) :=
        mul_lt_mul_of_pos_left (F.magnitude_lt_grid_mul hunits) (by norm_num)
    _ ≤ 2 * (F.grid code places * 2 ^ F.fractionBits) := by
        refine mul_le_mul_of_nonneg_left ?_ (by norm_num)
        exact mul_le_mul_of_nonneg_left hcast (F.grid_pos code places).le
    _ = F.grid code places * 2 ^ (F.fractionBits + 1) := by ring

/-- The magnitude has more digits than the decimals on the grid. -/
theorem places_le_digitCount : places ≤ digitCount (F.exact code) := by
  have hfive : 1 ≤ 5 ^ F.unitExponent := Nat.pow_pos (by decide)
  have hlt : 10 ^ places < 10 ^ digitCount (F.exact code) := by
    calc 10 ^ places ≤ F.units code := Nat.le_trans hbinade hunits
      _ ≤ F.exact code := Nat.le_mul_of_pos_right _ hfive
      _ < 10 ^ digitCount (F.exact code) := (pow_digitCount_le (F.exact_ne_zero hunits)).2
  exact Nat.le_of_lt ((Nat.pow_lt_pow_iff_right (by decide)).mp hlt)

/-- What is shortened to some number of digits lies on every finer grid. -/
theorem exists_value_of_shorten? {n : Nat} (hn : n ≤ places) {d : Nat × Int}
    (h : F.shorten? code (F.exact code) (digitCount (F.exact code) - n) = some d) :
    ∃ j : Nat, (d.1 : ℚ) * 10 ^ d.2 = j * F.grid code places := by
  have hplaces := F.places_le_digitCount hbinade hunits
  refine ⟨d.1 * 10 ^ (places - n), ?_⟩
  have hexponent : d.2 = ((places - n : Nat) : Int) +
      ((digitCount (F.exact code) : Int) - places - F.unitExponent) := by
    rw [F.exponent_of_shorten? h]
    omega
  rw [hexponent, zpow_add₀ (by norm_num), zpow_natCast, grid]
  push_cast
  ring

/-- A point of the grid that lies near to the magnitude is next to it. -/
theorem eq_div_or_eq_succ {j : Nat}
    (hj : |F.magnitude code - j * F.grid code places| * 2 ^ (F.fractionBits + 1) ≤
      F.magnitude code) :
    j = F.exact code / 10 ^ (digitCount (F.exact code) - places) ∨
      j = F.exact code / 10 ^ (digitCount (F.exact code) - places) + 1 := by
  have hplaces := F.places_le_digitCount hbinade hunits
  have hM := F.magnitude_pos hunits
  have hpow : (0 : ℚ) < 2 ^ (F.fractionBits + 1) := by positivity
  have hunit : (0 : ℚ) < 10 ^ (-(F.unitExponent : Int)) := zpow_pos (by norm_num) _
  have hnear : |F.magnitude code - j * F.grid code places| < F.grid code places := by
    refine lt_of_mul_lt_mul_right ?_ hpow.le
    have hlt := F.two_mul_magnitude_lt hbinade hunits
    linarith
  -- Counted in units of the last digit, the distance is less than the step.
  have hgrid : F.grid code places =
      ((10 ^ (digitCount (F.exact code) - places) : Nat) : ℚ) * 10 ^ (-(F.unitExponent : Int)) := by
    rw [grid, sub_eq_add_neg, zpow_add₀ (by norm_num),
      show (digitCount (F.exact code) : Int) - places =
        ((digitCount (F.exact code) - places : Nat) : Int) by omega, zpow_natCast]
    push_cast
    rfl
  have hpos : 0 < 10 ^ (digitCount (F.exact code) - places) := Nat.pow_pos (by decide)
  rw [F.magnitude_eq_exact, hgrid] at hnear
  generalize 10 ^ (digitCount (F.exact code) - places) = step at hnear hpos ⊢
  generalize F.exact code = full at hnear ⊢
  rw [← mul_assoc, ← sub_mul, abs_mul, abs_of_pos hunit] at hnear
  have hstep : |(full : ℚ) - j * step| < step := lt_of_mul_lt_mul_right hnear hunit.le
  have hint : |(full : Int) - j * step| < step := by exact_mod_cast hstep
  obtain ⟨hbelow, habove⟩ := abs_lt.mp hint
  have hdiv := Nat.div_add_mod full step
  have hmod := Nat.mod_lt full hpos
  generalize full / step = q at *
  generalize full % step = r at *
  have hlow : q * step < (j + 1) * step := by
    zify
    rw [← hdiv] at habove
    push_cast at habove
    linarith
  have hhigh : j * step < (q + 2) * step := by
    zify
    rw [← hdiv] at hbelow
    push_cast at hbelow
    linarith
  have hqj := Nat.lt_of_mul_lt_mul_right hlow
  have hjq := Nat.lt_of_mul_lt_mul_right hhigh
  omega

end Grid

/-- If a magnitude can be shortened to some number of digits, it is shortened to no more. -/
theorem exists_shortest_eq {code places : Nat} {d : Nat × Int} (hcode : code ≠ 0)
    (hplaces : 0 < places) (hmax : places ≤ maxPlaces)
    (h : F.shorten? code (F.exact code) (digitCount (F.exact code) - places) = some d) :
    ∃ n ≤ places, ∃ d', F.shorten? code (F.exact code) (digitCount (F.exact code) - n) = some d' ∧
      F.shortest code = normalized n d' := by
  unfold shortest
  rw [if_neg hcode]
  simp only
  cases hfound : (List.range maxPlaces).findSome? fun n =>
      (F.shorten? code (F.exact code) (digitCount (F.exact code) - (n + 1))).map
        (normalized (n + 1)) with
  | none =>
    have hnone := List.findSome?_eq_none_iff.mp hfound (places - 1)
      (List.mem_range.mpr (by omega))
    rw [show places - 1 + 1 = places by omega, h] at hnone
    cases hnone
  | some found =>
    obtain ⟨before, n, after, hrange, hn, hbefore⟩ := List.findSome?_eq_some_iff.mp hfound
    obtain ⟨d', hd', rfl⟩ := Option.map_eq_some_iff.mp hn
    refine ⟨n + 1, ?_, d', hd', rfl⟩
    by_contra hlt
    -- The numbers of digits are tried in ascending order.
    have hascending : (before ++ n :: after).Pairwise (· < ·) := hrange ▸ List.pairwise_lt_range
    have hafter : ∀ m ∈ after, n < m :=
      fun _ => List.rel_of_pairwise_cons (List.pairwise_append.mp hascending).2.1
    have hmem : places - 1 ∈ before := by
      have htried : places - 1 ∈ before ++ n :: after :=
        hrange ▸ List.mem_range.mpr (by omega)
      rcases List.mem_append.mp htried with hmem | hmem
      · exact hmem
      · rcases List.mem_cons.mp hmem with heq | hmem
        · omega
        · have hlater := hafter _ hmem
          omega
    have hnone := hbefore _ hmem
    rw [show places - 1 + 1 = places by omega, h] at hnone
    cases hnone

/-- **Few digits are the shortest digits of what they are rounded to.** -/
theorem shortest_ofDecimal (hF : 2 ≤ F.exponentBits) {places c : Nat} {e : Int}
    (hplaces : 0 < places) (hmax : places ≤ maxPlaces) (hbinade : 10 ^ places ≤ F.binade)
    (hc : c < 10 ^ places) (hfinite : F.ofDecimal c e < F.infinity)
    (hunits : F.binade ≤ F.units (F.ofDecimal c e)) :
    ((F.shortest (F.ofDecimal c e)).1 : ℚ) * 10 ^ (F.shortest (F.ofDecimal c e)).2 =
      c * 10 ^ e := by
  have hnear := F.abs_magnitude_ofDecimal_sub_le hF hfinite hunits
  have hdigits := F.places_le_digitCount hbinade hunits
  have hk : (10 : ℚ) ^ places < 2 ^ (F.fractionBits + 1) := by
    have hlt : 10 ^ places < 2 ^ (F.fractionBits + 1) := by
      refine Nat.lt_of_le_of_lt hbinade ?_
      exact Nat.pow_lt_pow_right (by decide) (Nat.lt_succ_self _)
    exact_mod_cast hlt
  generalize hcode : F.ofDecimal c e = code at *
  obtain ⟨j, hj⟩ : ∃ j : Nat, (c : ℚ) * 10 ^ e = j * F.grid code places := by
    obtain ⟨j, hj⟩ := exists_eq_grid (F.pow_le_magnitude hunits) hk hc hnear
    refine ⟨j, ?_⟩
    rw [hj, grid]
    congr 2
    ring
  -- The digits are found at the latest when as many are tried.
  obtain ⟨d, hd⟩ : ∃ d, F.shorten? code (F.exact code) (digitCount (F.exact code) - places) =
      some d := by
    rw [hj] at hnear
    refine F.exists_shorten?_eq_some (F.eq_div_or_eq_succ hbinade hunits hnear) ?_
    refine (F.ofDecimal_congr hF ?_).trans hcode
    rw [hj, grid]
    congr 2
    omega
  obtain ⟨n, hn, d', hd', hshortest⟩ := F.exists_shortest_eq (F.code_ne_zero hunits) hplaces hmax hd
  -- What is found before reads back as well, and lies on the same grid.
  obtain ⟨j', hj'⟩ := F.exists_value_of_shorten? hbinade hunits hn hd'
  have hread : F.ofDecimal d'.1 d'.2 = code := F.ofDecimal_of_shorten? hd'
  have hnear' := F.abs_magnitude_ofDecimal_sub_le hF (c := d'.1) (e := d'.2)
  rw [hread, hj'] at hnear'
  have hsame : j' = j := by
    refine eq_of_near (F.grid_pos code places) (by positivity)
      (F.two_mul_magnitude_lt hbinade hunits) (hnear' hfinite hunits) ?_
    rwa [hj] at hnear
  rw [hshortest, value_normalized, hj', hsame, hj]

end FloatFormat

end ItemStore
