import ItemStore.Numeral.Decimal

/-!
# Binary floating-point formats

A format has a width for the fraction and one for the exponent.  The magnitudes of a
format are numbered by their bit patterns, called codes here: codes grow with the
magnitude, `infinity` follows the largest finite magnitude, and the codes above it are
not numbers.  Every finite magnitude is a whole multiple of the least positive one, so
rounding and comparison are exact arithmetic on natural numbers.

## Main definitions

* `FloatFormat` — a format; `FloatFormat.double` and `FloatFormat.single`.
* `FloatFormat.units` — a magnitude as a multiple of the least positive one.
* `FloatFormat.nearest` — the code of the magnitude nearest to a fraction.
* `FloatFormat.ofDecimal` — the code of the magnitude nearest to a decimal.
* `FloatFormat.shortest` — the fewest digits that read back as a magnitude.
-/

namespace ItemStore

/-- A quotient rounded to the nearest natural number, a half to the even one. -/
def roundHalfEven (num den : Nat) : Nat :=
  let q := num / den
  let r := num % den
  if 2 * r < den then q else if den < 2 * r then q + 1 else q + q % 2

/-- The widths of a binary floating-point format. -/
structure FloatFormat where
  fractionBits : Nat
  exponentBits : Nat
  deriving DecidableEq

namespace FloatFormat

/-- The format of 64 bits. -/
def double : FloatFormat := ⟨52, 11⟩

/-- The format of 32 bits. -/
def single : FloatFormat := ⟨23, 8⟩

variable (F : FloatFormat)

/-- The number of codes. -/
def codes : Nat := Nat.pow 2 (F.exponentBits + F.fractionBits)

/-- The number of codes in a binade, between one power of two and the next. -/
def binade : Nat := Nat.pow 2 F.fractionBits

/-- The code after the largest finite magnitude. -/
def infinity : Nat := (Nat.pow 2 F.exponentBits - 1) * F.binade

/-- Every magnitude from `2 ^ maxExponent` on is infinite. -/
def maxExponent : Nat := Nat.pow 2 (F.exponentBits - 1)

/-- The least positive magnitude is `1 / 2 ^ unitExponent`. -/
def unitExponent : Nat := F.maxExponent + F.fractionBits - 2

/-- The number one, as a multiple of the least positive magnitude. -/
def one : Nat := Nat.pow 2 F.unitExponent

/-- The magnitude of a code, as a multiple of the least positive magnitude.  Codes from
`infinity` on continue the sequence, so the order of codes is the order of multiples. -/
def units (code : Nat) : Nat :=
  if code < F.binade then code
  else (F.binade + code % F.binade) * Nat.pow 2 (code / F.binade - 1)

theorem binade_pos : 0 < F.binade := Nat.two_pow_pos _

theorem one_pos : 0 < F.one := Nat.two_pow_pos _

theorem units_lt_succ (code : Nat) : F.units code < F.units (code + 1) := by
  have hpos := F.binade_pos
  unfold units
  by_cases hlow : code < F.binade
  · rw [if_pos hlow]
    by_cases hlast : code + 1 < F.binade
    · rw [if_pos hlast]
      omega
    · rw [if_neg hlast, show code + 1 = F.binade by omega, Nat.mod_self, Nat.div_self hpos]
      simp only [Nat.sub_self, Nat.pow_eq, Nat.pow_zero]
      omega
  · rw [if_neg hlow, if_neg (by omega)]
    have hdiv : 1 ≤ code / F.binade := (Nat.le_div_iff_mul_le hpos).mpr (by omega)
    have hmod := Nat.mod_lt code hpos
    have hsplit := Nat.div_add_mod code F.binade
    have hpow : 0 < 2 ^ (code / F.binade - 1) := Nat.two_pow_pos _
    generalize hq : code / F.binade = q at *
    generalize hr : code % F.binade = r at *
    simp only [Nat.pow_eq]
    by_cases hlast : r + 1 < F.binade
    · have hsucc : code + 1 = r + 1 + F.binade * q := by omega
      rw [hsucc, Nat.add_mul_div_left _ _ hpos, Nat.div_eq_of_lt hlast, Nat.add_mul_mod_self_left,
        Nat.mod_eq_of_lt hlast, Nat.zero_add]
      exact Nat.mul_lt_mul_of_pos_right (by omega) hpow
    · have hsucc : code + 1 = F.binade * (q + 1) := by
        rw [Nat.mul_add]
        omega
      rw [hsucc, Nat.mul_div_cancel_left _ hpos, Nat.mul_mod_right, Nat.add_zero,
        show q + 1 - 1 = q - 1 + 1 by omega, Nat.pow_succ]
      calc (F.binade + r) * 2 ^ (q - 1)
          < (F.binade * 2) * 2 ^ (q - 1) := Nat.mul_lt_mul_of_pos_right (by omega) hpow
        _ = F.binade * (2 ^ (q - 1) * 2) := by rw [Nat.mul_assoc, Nat.mul_comm 2]

/-- The order of codes is the order of multiples. -/
theorem units_lt_units {code code' : Nat} (h : code < code') : F.units code < F.units code' := by
  induction code' with
  | zero => omega
  | succ n ih =>
    rcases Nat.lt_or_eq_of_le (Nat.le_of_lt_succ h) with hlt | rfl
    · exact Nat.lt_trans (ih hlt) (F.units_lt_succ n)
    · exact F.units_lt_succ code

theorem units_lt_iff (code code' : Nat) : F.units code < F.units code' ↔ code < code' := by
  constructor
  · intro h
    rcases Nat.lt_trichotomy code code' with hlt | rfl | hgt
    · exact hlt
    · exact absurd h (Nat.lt_irrefl _)
    · exact absurd (F.units_lt_units hgt) (Nat.lt_asymm h)
  · exact F.units_lt_units

theorem units_zero : F.units 0 = 0 := if_pos F.binade_pos

/-- The code of the magnitude nearest to `num / den`, of two equally near ones the
even.  Within one binade consecutive codes lie equally far apart, and the last code of
a binade is followed by the first of the next, so one rounding of the quotient serves
both the fraction and the carry into the exponent. -/
def nearest (num den : Nat) : Nat :=
  let scaled := num * F.one
  let doublings := Nat.log2 (scaled / den) - F.fractionBits
  min F.infinity (doublings * F.binade + roundHalfEven scaled (den * Nat.pow 2 doublings))

/-- The code of the magnitude nearest to `coefficient · 10 ^ exponent`.  Exponents far
outside the format are answered without computing the power. -/
def ofDecimal (coefficient : Nat) (exponent : Int) : Nat :=
  if coefficient = 0 then 0
  else if (F.maxExponent : Int) ≤ exponent then F.infinity
  else if exponent + Nat.log2 coefficient + 1 ≤ -((F.unitExponent + 1 : Nat) : Int) then 0
  else
    match exponent with
    | .ofNat e => F.nearest (coefficient * Nat.pow 10 e) 1
    | .negSucc e => F.nearest coefficient (Nat.pow 10 (e + 1))

/-- A magnitude written out in full: `exact · 10 ^ -unitExponent`. -/
def exact (code : Nat) : Nat := F.units code * Nat.pow 5 F.unitExponent

/-- The number of decimal digits of a natural number. -/
def digitCount (n : Nat) : Nat := (Nat.toDigits 10 n).length

/-- The decimal nearest to a magnitude among those that keep all but `dropped` of its
digits and read back as it, the larger of two equally near ones.  Only the two decimals
next to the magnitude can be: if any of that length reads back, one of them does. -/
def shorten? (code full dropped : Nat) : Option (Nat × Int) :=
  let exponent : Int := (dropped : Int) - (F.unitExponent : Int)
  let step := Nat.pow 10 dropped
  let below := full / step
  let rest := full % step
  let hitsBelow := F.ofDecimal below exponent == code
  let hitsAbove := F.ofDecimal (below + 1) exponent == code
  if hitsBelow && (!hitsAbove || 2 * rest < step) then some (below, exponent)
  else if hitsAbove then some (below + 1, exponent)
  else none

/-- A carry out of all digits leaves a one and zeros; the zeros go to the exponent. -/
def normalized (places : Nat) (decimal : Nat × Int) : Nat × Int :=
  if decimal.1 = Nat.pow 10 places then (1, decimal.2 + places) else decimal

/-- The most digits that are tried before a magnitude is written out in full. -/
def maxPlaces : Nat := 17

/-- The fewest digits that read back as a magnitude, and the power of ten that the
last of them counts. -/
def shortest (code : Nat) : Nat × Int :=
  if code = 0 then (0, 0)
  else
    let full := F.exact code
    let length := digitCount full
    let shortened := (List.range maxPlaces).findSome? fun n =>
      (F.shorten? code full (length - (n + 1))).map (normalized (n + 1))
    shortened.getD (full, -(F.unitExponent : Int))

end FloatFormat

end ItemStore
