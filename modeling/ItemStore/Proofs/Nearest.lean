import Mathlib.Tactic.Ring
import Mathlib.Tactic.Positivity
import ItemStore.Numeral.Float

/-!
# Rounding to the nearest magnitude

The code nearest to a fraction depends on the value of the fraction only, and a fraction
that is a magnitude is rounded to the code of that magnitude.  The exponents that are
answered without computing a power are answered as computing it would.  Hence the digits
of a magnitude, however few they are, read back as the magnitude.

## Main definitions

* `FloatFormat.nearestDecimal` — the code nearest to a decimal, without the shortcuts.

## Main results

* `FloatFormat.nearest_mul` — expanding a fraction does not change the nearest code.
* `FloatFormat.nearest_eq_of_units` — a magnitude is nearest to itself.
* `FloatFormat.ofDecimal_eq_nearestDecimal` — the shortcuts are sound.
* `FloatFormat.exists_units_eq` — whole numbers of few digits are magnitudes.
* `FloatFormat.ofDecimal_shortest` — shortest digits read back.
-/

namespace ItemStore

/-! ### Rounding a quotient -/

theorem roundHalfEven_mul_right (num den : Nat) {k : Nat} (hk : 0 < k) :
    roundHalfEven (num * k) (den * k) = roundHalfEven num den := by
  unfold roundHalfEven
  have hlow : 2 * (num % den * k) < den * k ↔ 2 * (num % den) < den := by
    rw [← Nat.mul_assoc]
    exact Nat.mul_lt_mul_right hk
  have hhigh : den * k < 2 * (num % den * k) ↔ den < 2 * (num % den) := by
    rw [← Nat.mul_assoc]
    exact Nat.mul_lt_mul_right hk
  simp only [Nat.mul_div_mul_right _ _ hk, Nat.mul_mod_mul_right, hlow, hhigh]

/-- A whole quotient is not rounded. -/
theorem roundHalfEven_mul_self (q : Nat) {den : Nat} (hden : 0 < den) :
    roundHalfEven (q * den) den = q := by
  unfold roundHalfEven
  simp only [Nat.mul_mod_left, Nat.mul_div_cancel _ hden, Nat.mul_zero, if_pos hden]

theorem le_roundHalfEven (num den : Nat) : num / den ≤ roundHalfEven num den := by
  unfold roundHalfEven
  simp only
  split
  · exact Nat.le_refl _
  · split
    · exact Nat.le_succ _
    · exact Nat.le_add_right _ _

/-- Less than a half is rounded to nothing. -/
theorem roundHalfEven_eq_zero {num den : Nat} (h : 2 * num < den) : roundHalfEven num den = 0 := by
  have hlt : num < den := by omega
  unfold roundHalfEven
  simp only [Nat.div_eq_of_lt hlt, Nat.mod_eq_of_lt hlt, if_pos h]

namespace FloatFormat

variable (F : FloatFormat)

/-! ### Fractions -/

/-- Expanding a fraction does not change the nearest code. -/
theorem nearest_mul (num den : Nat) {k : Nat} (hk : 0 < k) :
    F.nearest (num * k) (den * k) = F.nearest num den := by
  have hnum : num * k * F.one = num * F.one * k := by ring
  unfold nearest
  simp only
  -- The doublings are counted from the quotient, which does not change.
  rw [hnum, Nat.mul_div_mul_right _ _ hk]
  generalize Nat.log2 (num * F.one / den) - F.fractionBits = doublings
  rw [show den * k * Nat.pow 2 doublings = den * Nat.pow 2 doublings * k by ring,
    roundHalfEven_mul_right _ _ hk]

theorem units_of_lt_binade {code : Nat} (h : code < F.binade) : F.units code = code := by
  rw [units, if_pos h]

theorem units_of_binade_le {code : Nat} (h : F.binade ≤ code) :
    F.units code = (F.binade + code % F.binade) * 2 ^ (code / F.binade - 1) := by
  rw [units, if_neg (Nat.not_lt.mpr h), Nat.pow_eq]

theorem binade_eq : F.binade = 2 ^ F.fractionBits := rfl

/-- The binade of a code, counted from the first whose magnitudes are far apart. -/
theorem log2_units (code : Nat) :
    Nat.log2 (F.units code) - F.fractionBits = code / F.binade - 1 := by
  by_cases h : code < F.binade
  · rw [F.units_of_lt_binade h, Nat.div_eq_of_lt h]
    by_cases hzero : code = 0
    · simp [hzero]
    · have hlog : Nat.log2 code < F.fractionBits := (Nat.log2_lt hzero).mpr h
      omega
  · have hmod : code % F.binade < F.binade := Nat.mod_lt _ F.binade_pos
    have hpos := F.binade_pos
    rw [F.units_of_binade_le (Nat.not_lt.mp h)]
    generalize code % F.binade = m at hmod
    generalize code / F.binade - 1 = d
    have hlog : Nat.log2 ((F.binade + m) * 2 ^ d) = F.fractionBits + d := by
      have hne : (F.binade + m) * 2 ^ d ≠ 0 := by positivity
      rw [Nat.log2_eq_iff hne]
      constructor
      · rw [pow_add, ← F.binade_eq]
        exact Nat.mul_le_mul_right _ (Nat.le_add_right _ _)
      · rw [show F.fractionBits + d + 1 = F.fractionBits + 1 + d by omega, pow_add, pow_succ,
          ← F.binade_eq]
        refine Nat.mul_lt_mul_of_pos_right ?_ (Nat.two_pow_pos d)
        omega
    rw [hlog]
    omega

/-- A magnitude is nearest to itself. -/
theorem nearest_eq_of_units {num den code : Nat} (hden : 0 < den) (hcode : code ≤ F.infinity)
    (h : num * F.one = F.units code * den) : F.nearest num den = code := by
  unfold nearest
  simp only [h, Nat.pow_eq]
  -- The quotient is the magnitude, and its doublings are those of its binade.
  rw [Nat.mul_div_cancel _ hden, log2_units]
  by_cases hlow : code < F.binade
  · rw [F.units_of_lt_binade hlow, Nat.div_eq_of_lt hlow, pow_zero, Nat.mul_one,
      roundHalfEven_mul_self _ hden]
    simpa using hcode
  · have hbinade : 1 ≤ code / F.binade :=
      (Nat.le_div_iff_mul_le F.binade_pos).mpr (by omega)
    have hpos : 0 < den * 2 ^ (code / F.binade - 1) := Nat.mul_pos hden (Nat.two_pow_pos _)
    rw [F.units_of_binade_le (Nat.not_lt.mp hlow)]
    rw [show (F.binade + code % F.binade) * 2 ^ (code / F.binade - 1) * den =
      (F.binade + code % F.binade) * (den * 2 ^ (code / F.binade - 1)) by ring,
      roundHalfEven_mul_self _ hpos]
    have hsplit : (code / F.binade - 1) * F.binade + (F.binade + code % F.binade) = code := by
      have hdiv := Nat.div_add_mod code F.binade
      have hsucc : code / F.binade - 1 + 1 = code / F.binade := by omega
      calc (code / F.binade - 1) * F.binade + (F.binade + code % F.binade)
          = F.binade * (code / F.binade - 1 + 1) + code % F.binade := by ring
        _ = code := by rw [hsucc, hdiv]
    rw [hsplit]
    exact Nat.min_eq_right hcode

/-! ### Decimals -/

/-- The code nearest to a decimal, computed from the power of ten. -/
def nearestDecimal (coefficient : Nat) (exponent : Int) : Nat :=
  F.nearest (coefficient * 10 ^ exponent.toNat) (10 ^ (-exponent).toNat)

theorem nearestDecimal_ofNat (coefficient e : Nat) :
    F.nearestDecimal coefficient (.ofNat e) = F.nearest (coefficient * Nat.pow 10 e) 1 := by
  unfold nearestDecimal
  rw [show (-Int.ofNat e).toNat = 0 by simp, pow_zero]
  rfl

theorem nearestDecimal_negSucc (coefficient e : Nat) :
    F.nearestDecimal coefficient (.negSucc e) = F.nearest coefficient (Nat.pow 10 (e + 1)) := by
  unfold nearestDecimal
  rw [show (Int.negSucc e).toNat = 0 from rfl, pow_zero, Nat.mul_one]
  rfl

/-- Zeros at the end of the digits may go to the exponent. -/
theorem nearestDecimal_mul_pow (coefficient k : Nat) (exponent : Int) :
    F.nearestDecimal (coefficient * 10 ^ k) exponent =
      F.nearestDecimal coefficient (exponent + k) := by
  unfold nearestDecimal
  by_cases hexponent : 0 ≤ exponent
  · rw [show (exponent + k).toNat = k + exponent.toNat by omega,
      show (-(exponent + k)).toNat = 0 by omega, show (-exponent).toNat = 0 by omega, pow_add]
    congr 1
    ring
  · obtain ⟨p, rfl⟩ : ∃ p : Nat, exponent = -(p : Int) := ⟨(-exponent).toNat, by omega⟩
    have hten : ∀ n : Nat, 0 < 10 ^ n := fun n => Nat.pow_pos (by decide)
    -- The zeros either reach the point or do not; both fractions are expanded to the longer one.
    by_cases hkp : p ≤ k
    · rw [show (-(p : Int)).toNat = 0 by omega, show (- -(p : Int)).toNat = p by omega,
        show (-(p : Int) + k).toNat = k - p by omega,
        show (-(-(p : Int) + k)).toNat = 0 by omega,
        ← F.nearest_mul (coefficient * 10 ^ (k - p)) (10 ^ 0) (hten p)]
      rw [pow_zero, Nat.mul_one, Nat.one_mul, Nat.mul_assoc, ← pow_add,
        show k - p + p = k by omega]
    · rw [show (-(p : Int)).toNat = 0 by omega, show (- -(p : Int)).toNat = p by omega,
        show (-(p : Int) + k).toNat = 0 by omega,
        show (-(-(p : Int) + k)).toNat = p - k by omega,
        ← F.nearest_mul (coefficient * 10 ^ 0) (10 ^ (p - k)) (hten k)]
      rw [pow_zero, Nat.mul_one, Nat.mul_one, ← pow_add, show p - k + k = p by omega]

/-! ### Small and large fractions -/

/-- Less than half of the least positive magnitude is rounded to nothing. -/
theorem nearest_eq_zero {num den : Nat} (h : 2 * (num * F.one) < den) : F.nearest num den = 0 := by
  have hlt : num * F.one < den := by omega
  unfold nearest
  simp only [Nat.div_eq_of_lt hlt, Nat.pow_eq]
  rw [show Nat.log2 0 - F.fractionBits = 0 by simp, pow_zero, Nat.mul_one,
    roundHalfEven_eq_zero h]
  simp

/-- A code is no smaller than that of a power of two below its fraction. -/
theorem le_nearest {num e : Nat} (h : 2 ^ e ≤ num) (he : F.fractionBits ≤ e + F.unitExponent) :
    min F.infinity ((e + F.unitExponent - F.fractionBits) * F.binade + F.binade) ≤
      F.nearest num 1 := by
  have hscaled : 2 ^ (e + F.unitExponent) ≤ num * F.one := by
    rw [pow_add]
    exact Nat.mul_le_mul_right _ h
  have hne : num * F.one ≠ 0 := by
    have hpos : 0 < 2 ^ (e + F.unitExponent) := Nat.two_pow_pos _
    omega
  have hlog := (Nat.le_log2 hne).mpr hscaled
  have hself := Nat.log2_self_le hne
  unfold nearest
  simp only [Nat.div_one, Nat.one_mul, Nat.pow_eq]
  -- The number of doublings is at least that of the power of two, and the rounded quotient
  -- fills a binade.
  generalize num * F.one = scaled at hlog hself
  have hdoublings : e + F.unitExponent - F.fractionBits ≤ scaled.log2 - F.fractionBits := by omega
  have hround : F.binade ≤ roundHalfEven scaled (2 ^ (scaled.log2 - F.fractionBits)) := by
    refine Nat.le_trans ?_ (le_roundHalfEven _ _)
    rw [Nat.le_div_iff_mul_le (Nat.two_pow_pos _), F.binade_eq, ← pow_add,
      show F.fractionBits + (scaled.log2 - F.fractionBits) = scaled.log2 by omega]
    exact hself
  have hcode := Nat.add_le_add (Nat.mul_le_mul_right F.binade hdoublings) hround
  omega

/-- A whole number that is longer than the fraction is not rounded below the shortest such. -/
theorem le_units_of_nearest {num code : Nat} (hcode : code < F.infinity)
    (h : F.nearest num 1 = code) (hnum : 2 ^ (F.fractionBits + 1) ≤ num) :
    2 ^ (F.fractionBits + 1) * F.one ≤ F.units code := by
  have hle := F.le_nearest hnum (by omega)
  rw [h, show F.fractionBits + 1 + F.unitExponent - F.fractionBits = F.unitExponent + 1 by omega]
    at hle
  have hbinades : (F.unitExponent + 2) * F.binade ≤ code := by
    rw [show F.unitExponent + 2 = F.unitExponent + 1 + 1 by omega, Nat.succ_mul]
    omega
  have hdiv : F.unitExponent + 2 ≤ code / F.binade :=
    (Nat.le_div_iff_mul_le F.binade_pos).mpr hbinades
  have hbinade : F.binade ≤ code :=
    Nat.le_trans (Nat.le_mul_of_pos_left _ (by omega)) hbinades
  rw [F.units_of_binade_le hbinade]
  calc 2 ^ (F.fractionBits + 1) * F.one
      = F.binade * 2 ^ (F.unitExponent + 1) := by
        rw [F.binade_eq, show F.one = 2 ^ F.unitExponent from rfl]
        ring
    _ ≤ F.binade * 2 ^ (code / F.binade - 1) :=
        Nat.mul_le_mul_left _ (Nat.pow_le_pow_right (by decide) (by omega))
    _ ≤ (F.binade + code % F.binade) * 2 ^ (code / F.binade - 1) :=
        Nat.mul_le_mul_right _ (Nat.le_add_right _ _)

section Formats

variable (hF : 2 ≤ F.exponentBits)
include hF

theorem two_le_maxExponent : 2 ≤ F.maxExponent := by
  rw [maxExponent, Nat.pow_eq]
  exact Nat.le_self_pow (by omega) 2

theorem infinity_eq : F.infinity = (2 * F.maxExponent - 2) * F.binade + F.binade := by
  have hdouble : 2 ^ F.exponentBits = 2 * F.maxExponent := by
    rw [maxExponent, Nat.pow_eq, ← pow_succ', show F.exponentBits - 1 + 1 = F.exponentBits by omega]
  have hmax := F.two_le_maxExponent hF
  rw [infinity, Nat.pow_eq, hdouble, ← Nat.succ_mul]
  congr 1
  omega

/-- What has too many binary digits is rounded to infinity. -/
theorem nearest_eq_infinity {num : Nat} (h : 2 ^ F.maxExponent ≤ num) :
    F.nearest num 1 = F.infinity := by
  have hmax := F.two_le_maxExponent hF
  have hunit : F.unitExponent = F.maxExponent + F.fractionBits - 2 := rfl
  have hle := F.le_nearest h (by omega)
  rw [show F.maxExponent + F.unitExponent - F.fractionBits = 2 * F.maxExponent - 2 by omega,
    ← F.infinity_eq hF, Nat.min_self] at hle
  exact Nat.le_antisymm (Nat.min_le_left _ _) hle

/-! ### Shortcuts -/

/-- The exponents that are answered without computing the power are answered as computing
it would. -/
theorem ofDecimal_eq_nearestDecimal (coefficient : Nat) (exponent : Int) :
    F.ofDecimal coefficient exponent = F.nearestDecimal coefficient exponent := by
  unfold ofDecimal
  by_cases hzero : coefficient = 0
  · rw [if_pos hzero, hzero, nearestDecimal, Nat.zero_mul, F.nearest_eq_zero]
    rw [Nat.zero_mul]
    exact Nat.pow_pos (by decide)
  rw [if_neg hzero]
  -- Already the power of two with that exponent is infinite.
  by_cases hlarge : (F.maxExponent : Int) ≤ exponent
  · rw [if_pos hlarge, nearestDecimal, show (-exponent).toNat = 0 by omega, pow_zero,
      F.nearest_eq_infinity hF]
    calc 2 ^ F.maxExponent
        ≤ 2 ^ exponent.toNat := Nat.pow_le_pow_right (by decide) (by omega)
      _ ≤ 10 ^ exponent.toNat := Nat.pow_le_pow_left (by decide) _
      _ ≤ coefficient * 10 ^ exponent.toNat := Nat.le_mul_of_pos_left _ (by omega)
  rw [if_neg hlarge]
  -- Already with powers of two for those of ten the decimal is too small.
  by_cases hsmall : exponent + Nat.log2 coefficient + 1 ≤ -((F.unitExponent + 1 : Nat) : Int)
  · have hlog : coefficient < 2 ^ (Nat.log2 coefficient + 1) := Nat.lt_log2_self
    rw [if_pos hsmall, nearestDecimal, show exponent.toNat = 0 by omega, pow_zero, Nat.mul_one,
      F.nearest_eq_zero]
    calc 2 * (coefficient * F.one)
        < 2 * (2 ^ (Nat.log2 coefficient + 1) * F.one) := by
          have hone := F.one_pos
          refine Nat.mul_lt_mul_of_pos_left ?_ (by decide)
          exact Nat.mul_lt_mul_of_pos_right hlog hone
      _ = 2 ^ (Nat.log2 coefficient + 1 + F.unitExponent + 1) := by
          rw [show F.one = 2 ^ F.unitExponent from rfl]
          ring
      _ ≤ 2 ^ (-exponent).toNat := Nat.pow_le_pow_right (by decide) (by omega)
      _ ≤ 10 ^ (-exponent).toNat := Nat.pow_le_pow_left (by decide) _
  rw [if_neg hsmall]
  cases exponent with
  | ofNat e => exact (F.nearestDecimal_ofNat coefficient e).symm
  | negSucc e => exact (F.nearestDecimal_negSucc coefficient e).symm

/-! ### Whole numbers -/

/-- A whole number that is no longer than the fraction is a magnitude. -/
theorem exists_units_eq (hbits : F.fractionBits < F.maxExponent) {n : Nat}
    (hn : n < 2 ^ (F.fractionBits + 1)) : ∃ code ≤ F.infinity, F.units code = n * F.one := by
  by_cases hzero : n = 0
  · exact ⟨0, Nat.zero_le _, by rw [hzero, F.units_of_lt_binade F.binade_pos, Nat.zero_mul]⟩
  have hlow : 2 ^ n.log2 ≤ n := Nat.log2_self_le hzero
  have hhigh : n < 2 ^ (n.log2 + 1) := Nat.lt_log2_self
  have hlog : n.log2 < F.fractionBits + 1 := (Nat.log2_lt hzero).mpr hn
  have hunit : F.unitExponent = F.maxExponent + F.fractionBits - 2 := rfl
  have hmax := F.two_le_maxExponent hF
  -- Shift the number until its digits fill a binade; the shift goes to the exponent.
  obtain ⟨k, hk⟩ : ∃ k, n.log2 + k = F.fractionBits := ⟨F.fractionBits - n.log2, by omega⟩
  obtain ⟨d, hd⟩ : ∃ d, d + k = F.unitExponent := ⟨F.unitExponent - k, by omega⟩
  obtain ⟨m, hm⟩ : ∃ m, n * 2 ^ k = F.binade + m := by
    refine Nat.exists_eq_add_of_le ?_
    rw [F.binade_eq, ← hk, pow_add]
    exact Nat.mul_le_mul_right _ hlow
  have hmlt : m < F.binade := by
    have hlt : n * 2 ^ k < 2 * F.binade := by
      rw [F.binade_eq, ← hk, pow_add, ← Nat.mul_assoc, ← pow_succ']
      exact Nat.mul_lt_mul_of_pos_right hhigh (Nat.two_pow_pos k)
    omega
  refine ⟨(d + 1) * F.binade + m, ?_, ?_⟩
  · calc (d + 1) * F.binade + m
        ≤ (d + 1) * F.binade + F.binade := by omega
      _ = (d + 2) * F.binade := by ring
      _ ≤ (2 * F.maxExponent - 2 + 1) * F.binade := Nat.mul_le_mul_right _ (by omega)
      _ = F.infinity := by rw [F.infinity_eq hF, Nat.add_mul, Nat.one_mul]
  · have hdiv : ((d + 1) * F.binade + m) / F.binade = d + 1 := by
      rw [Nat.add_comm, Nat.add_mul_div_right _ _ F.binade_pos, Nat.div_eq_of_lt hmlt, Nat.zero_add]
    have hmod : ((d + 1) * F.binade + m) % F.binade = m := by
      rw [Nat.add_comm, Nat.add_mul_mod_self_right, Nat.mod_eq_of_lt hmlt]
    have hbinade : F.binade ≤ (d + 1) * F.binade + m := by
      have hle : F.binade ≤ (d + 1) * F.binade := Nat.le_mul_of_pos_left _ (Nat.succ_pos d)
      omega
    rw [F.units_of_binade_le hbinade, hdiv, hmod, ← hm, Nat.add_sub_cancel, Nat.mul_assoc,
      ← pow_add, Nat.add_comm k d, hd]
    rfl

/-! ### Shortest digits -/

omit hF in
/-- Shortened digits read back, since only such are taken. -/
theorem ofDecimal_of_shorten? {code full dropped : Nat} {d : Nat × Int}
    (h : F.shorten? code full dropped = some d) : F.ofDecimal d.1 d.2 = code := by
  unfold shorten? at h
  simp only at h
  split at h
  · next hbelow =>
    cases h
    simp only [Bool.and_eq_true, beq_iff_eq] at hbelow
    exact hbelow.1
  · split at h
    · next habove =>
      cases h
      simpa using habove
    · cases h

theorem ofDecimal_normalized (places : Nat) (d : Nat × Int) :
    F.ofDecimal (normalized places d).1 (normalized places d).2 = F.ofDecimal d.1 d.2 := by
  unfold normalized
  split
  · next hcarry =>
    rw [F.ofDecimal_eq_nearestDecimal hF, F.ofDecimal_eq_nearestDecimal hF, hcarry, Nat.pow_eq,
      ← F.nearestDecimal_mul_pow, Nat.one_mul]
  · rfl

/-- A magnitude that is written out in full reads back. -/
theorem ofDecimal_exact {code : Nat} (h : code ≤ F.infinity) :
    F.ofDecimal (F.exact code) (-(F.unitExponent : Int)) = code := by
  rw [F.ofDecimal_eq_nearestDecimal hF, nearestDecimal,
    show (-(F.unitExponent : Int)).toNat = 0 by omega,
    show (- -(F.unitExponent : Int)).toNat = F.unitExponent by omega, pow_zero, Nat.mul_one]
  refine F.nearest_eq_of_units (Nat.pow_pos (by decide)) h ?_
  rw [exact, Nat.pow_eq, show F.one = 2 ^ F.unitExponent from rfl, Nat.mul_assoc, ← mul_pow,
    show 5 * 2 = 10 from rfl]

/-- **Shortest digits read back.** -/
theorem ofDecimal_shortest {code : Nat} (h : code < F.infinity) :
    F.ofDecimal (F.shortest code).1 (F.shortest code).2 = code := by
  unfold shortest
  split
  · next hzero =>
    rw [hzero]
    rfl
  · simp only
    -- Shortened digits are taken only if they read back; otherwise all digits are written.
    cases hfound : (List.range maxPlaces).findSome? fun n =>
        (F.shorten? code (F.exact code) (digitCount (F.exact code) - (n + 1))).map
          (normalized (n + 1)) with
    | none => exact F.ofDecimal_exact hF (Nat.le_of_lt h)
    | some d =>
      obtain ⟨n, -, hn⟩ := List.exists_of_findSome?_eq_some hfound
      obtain ⟨d', hd', rfl⟩ := Option.map_eq_some_iff.mp hn
      rw [Option.getD_some, F.ofDecimal_normalized hF]
      exact F.ofDecimal_of_shorten? hd'

end Formats

end FloatFormat

end ItemStore
