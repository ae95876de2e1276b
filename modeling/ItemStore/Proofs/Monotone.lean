import ItemStore.Proofs.Precision

/-!
# Rounding keeps the order

Of two fractions the larger one is not rounded to the smaller magnitude.  Between fractions
of one binade the quotients are rounded alike, and a half, the only place where rounding looks
at more than the quotient, is one and the same fraction on both sides.  Between binades even
the last step of the lower one is no more than the first of the higher.

So a decimal that reads back as a double lies on the same side of every integer that is a
double as the double does, and shortest digits are in the order of the doubles they are written
for.

## Main definitions

* `BinaryFloat.decimal` — the decimal that is written for a floating-point number.
* `Number.Representable` — an integer that is a finite double.

## Main results

* `roundHalfEven_mono`, `FloatFormat.nearest_mono`, `FloatFormat.ofDecimal_mono` — rounding keeps
  the order.
* `BinaryFloat.scaled_ofDecimal_mono` — reading a decimal keeps the order, signs included.
* `Number.scaled_lt_iff` — finite doubles are written in their order.
* `Number.Representable.lt_written` — what is written lies on the same side of an integer that is
  a double.
-/

namespace ItemStore

/-- **Rounding a quotient keeps the order.** -/
theorem roundHalfEven_mono {num den num' den' : Nat} (hden : 0 < den) (hden' : 0 < den')
    (h : num * den' ≤ num' * den) : roundHalfEven num den ≤ roundHalfEven num' den' := by
  by_contra hlt
  have hsucc : roundHalfEven num' den' + 1 ≤ roundHalfEven num den := Nat.lt_of_not_le hlt
  have hup := roundHalfEven_mul_le num hden
  have hdown := le_roundHalfEven_mul num' hden'
  -- The only quotient that is rounded down to one number and up to the next is the half between.
  have hhalf : (2 * roundHalfEven num' den' + 1) * den ≤ 2 * num := by
    have hmul : 2 * (roundHalfEven num' den' + 1) * den ≤ 2 * roundHalfEven num den * den :=
      Nat.mul_le_mul_right _ (Nat.mul_le_mul_left 2 hsucc)
    have hsplit : 2 * (roundHalfEven num' den' + 1) * den =
        (2 * roundHalfEven num' den' + 1) * den + den := by ring
    omega
  have hsame : num * den' = num' * den := by
    have hbelow := Nat.mul_le_mul_right den' hhalf
    have habove := Nat.mul_le_mul_right den hdown
    have hcomm : (2 * roundHalfEven num' den' + 1) * den * den' =
        (2 * roundHalfEven num' den' + 1) * den' * den := by ring
    have hnum : 2 * num * den' = 2 * (num * den') := by ring
    have hnum' : 2 * num' * den = 2 * (num' * den) := by ring
    omega
  have hround : roundHalfEven num den = roundHalfEven num' den' := by
    rw [← roundHalfEven_mul_right num den hden', hsame, Nat.mul_comm den den',
      roundHalfEven_mul_right num' den' hden]
  omega

namespace FloatFormat

variable (F : FloatFormat)

theorem units_le_units {code code' : Nat} (h : code ≤ code') : F.units code ≤ F.units code' := by
  rcases Nat.lt_or_eq_of_le h with hlt | rfl
  · exact Nat.le_of_lt (F.units_lt_units hlt)
  · exact Nat.le_refl _

section Fractions

variable {num den num' den' : Nat} (hden : 0 < den) (hden' : 0 < den')
  (h : num * den' ≤ num' * den)
include hden hden' h

/-- The larger fraction is not in a lower binade. -/
theorem doublings_mono : F.doublings num den ≤ F.doublings num' den' := by
  have hquotient : num * F.one / den ≤ num' * F.one / den' := by
    rw [Nat.le_div_iff_mul_le hden']
    refine Nat.le_of_mul_le_mul_right ?_ hden
    calc num * F.one / den * den' * den
        = num * F.one / den * den * den' := by ring
      _ ≤ num * F.one * den' := Nat.mul_le_mul_right _ (Nat.div_mul_le_self _ _)
      _ = num * den' * F.one := by ring
      _ ≤ num' * den * F.one := Nat.mul_le_mul_right _ h
      _ = num' * F.one * den := by ring
  unfold doublings
  apply Nat.sub_le_sub_right
  by_cases hzero : num * F.one / den = 0
  · rw [hzero]
    exact Nat.zero_le _
  · have hne : num' * F.one / den' ≠ 0 :=
      Nat.ne_of_gt (Nat.lt_of_lt_of_le (Nat.pos_of_ne_zero hzero) hquotient)
    exact (Nat.le_log2 hne).mpr (Nat.le_trans (Nat.log2_self_le hzero) hquotient)

/-- **The larger fraction is not rounded to the smaller code.** -/
theorem nearest_mono : F.nearest num den ≤ F.nearest num' den' := by
  rw [F.nearest_eq, F.nearest_eq]
  apply min_le_min_left
  rcases Nat.lt_or_eq_of_le (F.doublings_mono hden hden' h) with hlt | heq
  · -- The last step of the lower binade is the first of the next.
    have hfirst : F.binade ≤ F.steps num' den' := F.binade_le_steps hden' (.inl (by omega))
    have hlast : F.steps num den ≤ 2 * F.binade := F.steps_le hden
    have hbinades : (F.doublings num den + 1) * F.binade ≤ F.doublings num' den' * F.binade :=
      Nat.mul_le_mul_right _ hlt
    rw [Nat.add_mul, Nat.one_mul] at hbinades
    omega
  · have hsteps : F.steps num den ≤ F.steps num' den' := by
      unfold steps
      rw [heq]
      have hpow : 0 < 2 ^ F.doublings num' den' := Nat.two_pow_pos _
      apply roundHalfEven_mono (Nat.mul_pos hden hpow) (Nat.mul_pos hden' hpow)
      calc num * F.one * (den' * 2 ^ F.doublings num' den')
          = num * den' * (F.one * 2 ^ F.doublings num' den') := by ring
        _ ≤ num' * den * (F.one * 2 ^ F.doublings num' den') := Nat.mul_le_mul_right _ h
        _ = num' * F.one * (den * 2 ^ F.doublings num' den') := by ring
    rw [heq]
    omega

end Fractions

/-- **The larger decimal is not rounded to the smaller code.** -/
theorem ofDecimal_mono (hF : 2 ≤ F.exponentBits) {c c' : Nat} {e e' : Int}
    (h : (c : ℚ) * 10 ^ e ≤ c' * 10 ^ e') : F.ofDecimal c e ≤ F.ofDecimal c' e' := by
  have hden : ∀ k : Int, 0 < 10 ^ (-k).toNat := fun k => Nat.pow_pos (by decide)
  have hcast : ∀ k : Int, (0 : ℚ) < ((10 ^ (-k).toNat : Nat) : ℚ) := fun k => by
    exact_mod_cast hden k
  rw [F.ofDecimal_eq_nearestDecimal hF, F.ofDecimal_eq_nearestDecimal hF]
  apply F.nearest_mono (hden e) (hden e')
  rw [← cast_fraction, ← cast_fraction, div_le_div_iff₀ (hcast e) (hcast e')] at h
  exact_mod_cast h

end FloatFormat

/-! ### Reading decimals -/

theorem Decimal.value_of_negative (d : Decimal) :
    d.value = if d.negative then -(d.coefficient * 10 ^ d.exponent : ℚ)
      else d.coefficient * 10 ^ d.exponent := by
  unfold value signedInt
  cases d.negative with
  | false => simp
  | true => simp

namespace BinaryFloat

variable {F : FloatFormat}

/-- **Reading a decimal keeps the order.** -/
theorem scaled_ofDecimal_mono (hF : 2 ≤ F.exponentBits) {d d' : Decimal}
    (hfinite : F.ofDecimal d.coefficient d.exponent < F.infinity)
    (hfinite' : F.ofDecimal d'.coefficient d'.exponent < F.infinity) (h : d.value ≤ d'.value) :
    (ofDecimal d : BinaryFloat F).scaled ≤ (ofDecimal d' : BinaryFloat F).scaled := by
  have hpos : (0 : ℚ) ≤ d.coefficient * 10 ^ d.exponent :=
    mul_nonneg (Nat.cast_nonneg _) (zpow_nonneg (by norm_num) _)
  have hpos' : (0 : ℚ) ≤ d'.coefficient * 10 ^ d'.exponent :=
    mul_nonneg (Nat.cast_nonneg _) (zpow_nonneg (by norm_num) _)
  rw [scaled_eq_signedInt, scaled_eq_signedInt, code_ofDecimal hfinite, code_ofDecimal hfinite']
  change signedInt d.negative _ ≤ signedInt d'.negative _
  rw [d.value_of_negative, d'.value_of_negative] at h
  unfold signedInt
  cases hd : d.negative with
  | false =>
    cases hd' : d'.negative with
    | false =>
      simp only [hd, hd', Bool.false_eq_true, if_false] at h ⊢
      exact Int.ofNat_le.mpr (F.units_le_units (F.ofDecimal_mono hF h))
    | true =>
      -- Neither is away from zero.
      simp only [hd, hd', Bool.false_eq_true, if_false, if_true] at h ⊢
      have hzero : (d.coefficient : ℚ) * 10 ^ d.exponent ≤ (0 : Nat) * 10 ^ (0 : Int) := by
        rw [Nat.cast_zero, zero_mul]
        linarith
      have hzero' : (d'.coefficient : ℚ) * 10 ^ d'.exponent ≤ (0 : Nat) * 10 ^ (0 : Int) := by
        rw [Nat.cast_zero, zero_mul]
        linarith
      have hcode := F.units_le_units (F.ofDecimal_mono hF hzero)
      have hcode' := F.units_le_units (F.ofDecimal_mono hF hzero')
      have hnone : F.units (F.ofDecimal 0 0) = 0 := F.units_zero
      omega
  | true =>
    cases hd' : d'.negative with
    | false =>
      simp only [Bool.false_eq_true, if_false, if_true]
      omega
    | true =>
      simp only [hd, hd', if_true, neg_le_neg_iff] at h ⊢
      exact Int.ofNat_le.mpr (F.units_le_units (F.ofDecimal_mono hF h))

/-- The decimal that is written for a floating-point number: its sign and the fewest digits that
read back. -/
def decimal (x : BinaryFloat F) : Decimal :=
  ⟨x.negative, (F.shortest x.code).1, (F.shortest x.code).2⟩

theorem ofDecimal_decimal (hF : 2 ≤ F.exponentBits) {x : BinaryFloat F} (hx : x.isFinite) :
    ofDecimal x.decimal = x :=
  ofDecimal_eq_of_code rfl (F.ofDecimal_shortest hF (code_lt_infinity hx))

theorem ofDecimal_decimal_lt (hF : 2 ≤ F.exponentBits) {x : BinaryFloat F} (hx : x.isFinite) :
    F.ofDecimal x.decimal.coefficient x.decimal.exponent < F.infinity := by
  have hcode : F.ofDecimal x.decimal.coefficient x.decimal.exponent = x.code :=
    F.ofDecimal_shortest hF (code_lt_infinity hx)
  rw [hcode]
  exact code_lt_infinity hx

end BinaryFloat

/-! ### What is written, in order -/

namespace Number

section Doubles

variable {x y : Double} (hx : x.isFinite) (hy : y.isFinite)
include hx hy

theorem scaled_le_of_written_le (h : (float x).written ≤ (float y).written) :
    x.scaled ≤ y.scaled := by
  have hread := BinaryFloat.scaled_ofDecimal_mono (by decide)
    (BinaryFloat.ofDecimal_decimal_lt (by decide) hx)
    (BinaryFloat.ofDecimal_decimal_lt (by decide) hy) h
  rwa [BinaryFloat.ofDecimal_decimal (by decide) hx, BinaryFloat.ofDecimal_decimal (by decide) hy]
    at hread

/-- Equal doubles are written alike; they are the same, or zeros of different sign. -/
theorem written_eq_of_scaled_eq (h : x.scaled = y.scaled) :
    (float x).written = (float y).written := by
  have hcode : x.code = y.code := BinaryFloat.code_eq_of_scaled_eq hx hy h
  rw [written, written, hcode]
  by_cases hzero : y.code = 0
  · rw [hzero, show FloatFormat.double.shortest 0 = (0, 0) from rfl]
    cases x.negative with
    | false => cases y.negative <;> simp [signedInt]
    | true => cases y.negative <;> simp [signedInt]
  · have hunits : FloatFormat.double.units y.code ≠ 0 := by
      have hlt := FloatFormat.double.units_lt_units (Nat.pos_of_ne_zero hzero)
      omega
    rw [x.scaled_eq_signedInt, y.scaled_eq_signedInt, hcode] at h
    rw [eq_of_signedInt_eq hunits h]

/-- **Finite doubles are written in their order.** -/
theorem scaled_lt_iff : x.scaled < y.scaled ↔ (float x).written < (float y).written := by
  constructor
  · intro h
    by_contra hle
    exact absurd h (not_lt.mpr (scaled_le_of_written_le hy hx (not_lt.mp hle)))
  · intro h
    refine lt_of_le_of_ne (scaled_le_of_written_le hx hy h.le) ?_
    intro heq
    exact absurd (written_eq_of_scaled_eq hx hy heq) h.ne

end Doubles

/-- The integer is a finite double. -/
def Representable (m : Int) : Prop :=
  ∃ code < FloatFormat.double.infinity,
    FloatFormat.double.units code = m.natAbs * FloatFormat.double.one

/-- Integers up to `2 ^ 53` are doubles. -/
theorem representable_of_le {m : Int} (h : m.natAbs ≤ 2 ^ 53) : Representable m := by
  rcases Nat.lt_or_eq_of_le h with hlt | heq
  · obtain ⟨code, hcode, hunits⟩ :=
      FloatFormat.double.exists_units_eq (by decide) (by decide) (n := m.natAbs) hlt
    refine ⟨code, Nat.lt_of_le_of_ne hcode ?_, hunits⟩
    rintro rfl
    have hlarge : 2 ^ 53 * FloatFormat.double.one <
        FloatFormat.double.units FloatFormat.double.infinity := by decide +kernel
    have hsmall : m.natAbs * FloatFormat.double.one < 2 ^ 53 * FloatFormat.double.one :=
      Nat.mul_lt_mul_of_pos_right hlt FloatFormat.double.one_pos
    omega
  · refine ⟨0x4340000000000000, by decide, ?_⟩
    rw [heq]
    decide +kernel

/-- An integer as a decimal. -/
def wholeDecimal (m : Int) : Decimal := ⟨decide (m < 0), m.natAbs, 0⟩

theorem value_wholeDecimal (m : Int) : (wholeDecimal m).value = m := by
  rw [wholeDecimal, Decimal.value, zpow_zero, mul_one, signedInt_natAbs]

namespace Representable

variable {m : Int} (hm : Representable m)
include hm

theorem ofDecimal_lt : FloatFormat.double.ofDecimal (wholeDecimal m).coefficient
    (wholeDecimal m).exponent < FloatFormat.double.infinity ∧
    (BinaryFloat.ofDecimal (wholeDecimal m) : Double).scaled =
      m * (FloatFormat.double.one : Int) := by
  obtain ⟨code, hcode, hunits⟩ := hm
  have hnearest : FloatFormat.double.ofDecimal (wholeDecimal m).coefficient
      (wholeDecimal m).exponent = code := by
    change FloatFormat.double.ofDecimal m.natAbs 0 = code
    rw [FloatFormat.double.ofDecimal_eq_nearestDecimal (by decide)]
    refine FloatFormat.double.nearest_eq_of_units (by decide) hcode.le ?_
    rw [hunits]
    simp
  have hfinite := hcode
  rw [← hnearest] at hfinite
  refine ⟨hfinite, ?_⟩
  rw [BinaryFloat.scaled_eq_signedInt, BinaryFloat.code_ofDecimal hfinite, hnearest, hunits,
    signedInt_mul]
  change signedInt (decide (m < 0)) m.natAbs * _ = _
  rw [signedInt_natAbs]

variable {x : Double} (hx : x.isFinite)
include hx

/-- **What is written lies above an integer that is a double, if the double does.** -/
theorem lt_written (h : m * (FloatFormat.double.one : Int) < x.scaled) :
    (m : ℚ) < (float x).written := by
  obtain ⟨hfinite, hscaled⟩ := hm.ofDecimal_lt
  by_contra hle
  have hvalue : x.decimal.value ≤ (wholeDecimal m).value := by
    rw [value_wholeDecimal]
    exact not_lt.mp hle
  have hread := BinaryFloat.scaled_ofDecimal_mono (by decide)
    (BinaryFloat.ofDecimal_decimal_lt (by decide) hx) hfinite hvalue
  rw [BinaryFloat.ofDecimal_decimal (by decide) hx, hscaled] at hread
  omega

/-- **What is written lies below an integer that is a double, if the double does.** -/
theorem written_lt (h : x.scaled < m * (FloatFormat.double.one : Int)) :
    (float x).written < m := by
  obtain ⟨hfinite, hscaled⟩ := hm.ofDecimal_lt
  by_contra hle
  have hvalue : (wholeDecimal m).value ≤ x.decimal.value := by
    rw [value_wholeDecimal]
    exact not_lt.mp hle
  have hread := BinaryFloat.scaled_ofDecimal_mono (by decide) hfinite
    (BinaryFloat.ofDecimal_decimal_lt (by decide) hx) hvalue
  rw [BinaryFloat.ofDecimal_decimal (by decide) hx, hscaled] at hread
  omega

end Representable

end Number

end ItemStore
