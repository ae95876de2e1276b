import Mathlib.Tactic.FieldSimp
import Mathlib.Tactic.Linarith
import Mathlib.Tactic.NormNum
import Mathlib.Algebra.Order.Field.Rat
import ItemStore.Proofs.Rounding
import ItemStore.Number

/-!
# The order of numbers

Numbers are in the order of the extended line: first what is not a number and has a negative
sign, then minus infinity, then all integers and finite doubles by the rational numbers that
they are, then infinity, and last what is not a number and has no sign.  Among themselves the
numbers at an end are in the order of their bit patterns.

The rational number of a double is read from the fields of its bit pattern, its exponent and
its fraction.  Counted in the least positive double, the finite numbers lie strictly between
the two infinities, and what is not a number lies outside of them: so each number's multiple
lies as its place does.

## Main definitions

* `FloatFormat.value`, `BinaryFloat.value` — the rational number of a bit pattern, by its fields.
* `Number.Place`, `Number.place` — the places of the extended line, and that of a number.
* `Number.Place.Below` — the order of the places.

## Main results

* `FloatFormat.magnitude_eq_value` — the multiples are those of the fields.
* `Number.marks_place` — the multiple of a number lies at its place.
* `Number.compare_place` — numbers are compared by their places, and so in a total order.
-/

namespace ItemStore

/-! ### The rational number of a bit pattern -/

namespace FloatFormat

variable (F : FloatFormat)

/-- What is subtracted from an exponent field. -/
def bias : ℤ := F.maxExponent - 1

/-- The rational number of a finite magnitude: the exponent field zero has no leading one, and
the exponent of the field one. -/
def value (code : Nat) : ℚ :=
  let exponent := code / F.binade
  let fraction : ℚ := (code % F.binade : Nat) / F.binade
  if exponent = 0 then fraction * 2 ^ (1 - F.bias)
  else (1 + fraction) * 2 ^ (exponent - F.bias)

/-- The least positive magnitude, by the fields. -/
theorem inv_one_eq (hF : 2 ≤ F.exponentBits) :
    ((F.one : ℚ))⁻¹ = 2 ^ (1 - F.bias) / F.binade := by
  have hexponent : (1 - F.bias : ℤ) - F.fractionBits = -(F.unitExponent : ℤ) := by
    have hmax := F.two_le_maxExponent hF
    unfold bias unitExponent
    omega
  rw [binade_eq, Nat.cast_pow, Nat.cast_ofNat, ← zpow_natCast, ← zpow_sub₀ two_ne_zero, hexponent,
    zpow_neg, zpow_natCast, show F.one = 2 ^ F.unitExponent from rfl, Nat.cast_pow, Nat.cast_ofNat]

/-- **The multiples of the least positive magnitude are the numbers of the fields.** -/
theorem magnitude_eq_value (hF : 2 ≤ F.exponentBits) (code : Nat) :
    F.magnitude code = F.value code := by
  have hbinade : (F.binade : ℚ) ≠ 0 := Nat.cast_ne_zero.mpr (Nat.ne_of_gt F.binade_pos)
  rw [magnitude, div_eq_mul_inv, F.inv_one_eq hF]
  unfold value
  by_cases hlow : code < F.binade
  · rw [if_pos (Nat.div_eq_of_lt hlow), Nat.mod_eq_of_lt hlow, F.units_of_lt_binade hlow]
    ring
  · have hexponent : 1 ≤ code / F.binade :=
      (Nat.le_div_iff_mul_le F.binade_pos).mpr (by omega)
    have hpow : (2 : ℚ) ^ ((code / F.binade : Nat) - F.bias) =
        2 ^ (code / F.binade - 1) * 2 ^ (1 - F.bias) := by
      rw [← zpow_natCast, ← zpow_add₀ two_ne_zero, Nat.cast_sub hexponent]
      congr 1
      push_cast
      ring
    rw [if_neg (by omega), F.units_of_binade_le (Nat.le_of_not_lt hlow), hpow, Nat.cast_mul,
      Nat.cast_add, Nat.cast_pow, Nat.cast_ofNat]
    field_simp

end FloatFormat

namespace BinaryFloat

variable {F : FloatFormat}

/-- The rational number of a finite floating-point number. -/
def value (x : BinaryFloat F) : ℚ := if x.negative then -F.value x.code else F.value x.code

/-- The rational number of a double, counted in the least positive one. -/
theorem scaled_eq_value_mul (hF : 2 ≤ F.exponentBits) (x : BinaryFloat F) :
    (x.scaled : ℚ) = x.value * F.one := by
  have hunits : (F.units x.code : ℚ) = F.value x.code * F.one := by
    rw [← F.magnitude_eq_value hF, FloatFormat.magnitude, div_mul_cancel₀ _ F.ratCast_one_pos.ne']
  unfold scaled value
  cases x.negative with
  | true => rw [if_pos rfl, if_pos rfl, Int.cast_neg, Int.cast_natCast, hunits, neg_mul]
  | false =>
    rw [if_neg Bool.false_ne_true, if_neg Bool.false_ne_true, Int.cast_natCast, hunits]

end BinaryFloat

/-! ### The places of the extended line -/

namespace Number

/-- A place of the extended line.  What is not a number lies at an end, by its bit pattern. -/
inductive Place
  | negativeNaN (key : Int)
  | negativeInfinity
  | finite (value : ℚ)
  | positiveInfinity
  | positiveNaN (key : Int)

/-- The place of a double. -/
def doublePlace (x : Double) : Place :=
  if x.isNaN then if x.negative then .negativeNaN x.totalKey else .positiveNaN x.totalKey
  else if x.isFinite then .finite x.value
  else if x.negative then .negativeInfinity else .positiveInfinity

/-- The place of a number. -/
def place : Number → Place
  | .integer i => .finite i.toInt
  | .float x => doublePlace x

namespace Place

/-- The parts of the line, from below. -/
def region : Place → Nat
  | .negativeNaN _ => 0
  | .negativeInfinity => 1
  | .finite _ => 2
  | .positiveInfinity => 3
  | .positiveNaN _ => 4

/-- The place within its part of the line. -/
def coordinate : Place → ℚ
  | .negativeNaN key | .positiveNaN key => key
  | .finite value => value
  | .negativeInfinity | .positiveInfinity => 0

/-- The order of the line: by the parts, and within a part by the coordinate. -/
def Below (p q : Place) : Prop :=
  p.region < q.region ∨ p.region = q.region ∧ p.coordinate < q.coordinate

/-- Two places in one part of the line. -/
theorem region_cases {p q : Place} (h : p.region = q.region) :
    (∃ key key', p = .negativeNaN key ∧ q = .negativeNaN key') ∨
      (∃ value value', p = .finite value ∧ q = .finite value') ∨
      (∃ key key', p = .positiveNaN key ∧ q = .positiveNaN key') ∨ p = q := by
  cases p <;> cases q <;> simp [region] at h ⊢

theorem eq_of_coordinate {p q : Place} (hregion : p.region = q.region)
    (hcoordinate : p.coordinate = q.coordinate) : p = q := by
  rcases region_cases hregion with ⟨key, key', rfl, rfl⟩ | ⟨value, value', rfl, rfl⟩ |
    ⟨key, key', rfl, rfl⟩ | rfl
  · rw [Int.cast_injective (α := ℚ) hcoordinate]
  · exact congrArg finite hcoordinate
  · rw [Int.cast_injective (α := ℚ) hcoordinate]
  · rfl

theorem below_trichotomy (p q : Place) : p.Below q ∨ p = q ∨ q.Below p := by
  rcases Nat.lt_trichotomy p.region q.region with hregion | hregion | hregion
  · exact .inl (.inl hregion)
  · rcases lt_trichotomy p.coordinate q.coordinate with h | h | h
    · exact .inl (.inr ⟨hregion, h⟩)
    · exact .inr (.inl (eq_of_coordinate hregion h))
    · exact .inr (.inr (.inr ⟨hregion.symm, h⟩))
  · exact .inr (.inr (.inl hregion))

/-! ### Multiples at their places -/

/-- The multiple that stands for infinity. -/
def top : Int := FloatFormat.double.units FloatFormat.double.infinity

/-- Multiples of the least positive double that lie at a place. -/
def Marks : Place → Int → Prop
  | .negativeNaN key, r =>
    ∃ code, FloatFormat.double.infinity < code ∧ key = -1 - (code : Int) ∧
      r = -(FloatFormat.double.units code : Int)
  | .negativeInfinity, r => r = -top
  | .finite value, r => -top < r ∧ r < top ∧ (r : ℚ) = value * FloatFormat.double.one
  | .positiveInfinity, r => r = top
  | .positiveNaN key, r =>
    ∃ code, FloatFormat.double.infinity < code ∧ key = (code : Int) ∧
      r = (FloatFormat.double.units code : Int)

theorem top_lt_units {code : Nat} (h : FloatFormat.double.infinity < code) :
    top < FloatFormat.double.units code :=
  Int.ofNat_lt.mpr (FloatFormat.units_lt_units _ h)

theorem top_pos : 0 < top := by
  have h : FloatFormat.double.units 0 < FloatFormat.double.units FloatFormat.double.infinity :=
    FloatFormat.units_lt_units _ (by decide)
  rw [FloatFormat.units_zero] at h
  exact Int.natCast_pos.mpr h

/-- The parts of the line, as multiples. -/
theorem Marks.bounds {p : Place} {r : Int} (h : p.Marks r) :
    p.region = 0 ∧ r < -top ∨ p.region = 1 ∧ r = -top ∨ p.region = 2 ∧ -top < r ∧ r < top ∨
      p.region = 3 ∧ r = top ∨ p.region = 4 ∧ top < r := by
  cases p with
  | negativeNaN key =>
    obtain ⟨code, hcode, -, rfl⟩ := h
    exact .inl ⟨rfl, Int.neg_lt_neg (top_lt_units hcode)⟩
  | negativeInfinity => exact .inr (.inl ⟨rfl, h⟩)
  | finite value => exact .inr (.inr (.inl ⟨rfl, h.1, h.2.1⟩))
  | positiveInfinity => exact .inr (.inr (.inr (.inl ⟨rfl, h⟩)))
  | positiveNaN key =>
    obtain ⟨code, hcode, -, rfl⟩ := h
    exact .inr (.inr (.inr (.inr ⟨rfl, top_lt_units hcode⟩)))

/-- One place has one multiple. -/
theorem Marks.unique {p : Place} {r s : Int} (h : p.Marks r) (h' : p.Marks s) : r = s := by
  cases p with
  | negativeNaN key =>
    obtain ⟨code, -, hkey, rfl⟩ := h
    obtain ⟨code', -, hkey', rfl⟩ := h'
    rw [show code = code' by omega]
  | negativeInfinity => exact h.trans h'.symm
  | finite value => exact Int.cast_injective (α := ℚ) (h.2.2.trans h'.2.2.symm)
  | positiveInfinity => exact h.trans h'.symm
  | positiveNaN key =>
    obtain ⟨code, -, hkey, rfl⟩ := h
    obtain ⟨code', -, hkey', rfl⟩ := h'
    rw [show code = code' by omega]

/-- Within a part of the line, multiples are in the order of the coordinates. -/
theorem Marks.lt_of_coordinate {p q : Place} {r s : Int} (h : p.Marks r) (h' : q.Marks s)
    (hregion : p.region = q.region) (hlt : p.coordinate < q.coordinate) : r < s := by
  rcases region_cases hregion with ⟨key, key', rfl, rfl⟩ | ⟨value, value', rfl, rfl⟩ |
    ⟨key, key', rfl, rfl⟩ | rfl
  · obtain ⟨code, -, hkey, rfl⟩ := h
    obtain ⟨code', -, hkey', rfl⟩ := h'
    have hkeys : key < key' := Int.cast_lt.mp hlt
    apply Int.neg_lt_neg
    exact Int.ofNat_lt.mpr (FloatFormat.units_lt_units _ (by omega))
  · have hone : (0 : ℚ) < FloatFormat.double.one := Nat.cast_pos.mpr (FloatFormat.one_pos _)
    have hcast : (r : ℚ) < s := by
      rw [h.2.2, h'.2.2]
      exact mul_lt_mul_of_pos_right hlt hone
    exact Int.cast_lt.mp hcast
  · obtain ⟨code, -, hkey, rfl⟩ := h
    obtain ⟨code', -, hkey', rfl⟩ := h'
    have hkeys : key < key' := Int.cast_lt.mp hlt
    exact Int.ofNat_lt.mpr (FloatFormat.units_lt_units _ (by omega))
  · exact absurd hlt (lt_irrefl _)

/-- Multiples are in the order of their places. -/
theorem Marks.lt {p q : Place} {r s : Int} (h : p.Marks r) (h' : q.Marks s) (hlt : p.Below q) :
    r < s := by
  rcases hlt with hregion | ⟨hregion, hcoordinate⟩
  · have htop := top_pos
    have hr := h.bounds
    have hs := h'.bounds
    omega
  · exact h.lt_of_coordinate h' hregion hcoordinate

end Place

/-- The multiple of a double lies at its place. -/
theorem marks_doublePlace (x : Double) : (doublePlace x).Marks x.scaled := by
  have hlt := FloatFormat.double.units_lt_iff x.code FloatFormat.double.infinity
  have hsign : x.scaled = if x.negative then -(FloatFormat.double.units x.code : Int)
      else FloatFormat.double.units x.code := rfl
  unfold doublePlace
  by_cases hnan : x.isNaN
  · have hcode : FloatFormat.double.infinity < x.code := of_decide_eq_true hnan
    rw [if_pos hnan, hsign, BinaryFloat.totalKey]
    cases x.negative with
    | true => exact ⟨x.code, hcode, rfl, rfl⟩
    | false => exact ⟨x.code, hcode, rfl, rfl⟩
  · rw [if_neg hnan]
    by_cases hfinite : x.isFinite
    · have hcode : FloatFormat.double.units x.code < Place.top :=
        Int.ofNat_lt.mpr (hlt.mpr (of_decide_eq_true hfinite))
      have hbounds : -Place.top < x.scaled ∧ x.scaled < Place.top := by
        rw [hsign]
        split <;> omega
      rw [if_pos hfinite]
      exact ⟨hbounds.1, hbounds.2, x.scaled_eq_value_mul (by decide)⟩
    · -- The code between what is finite and what is not a number.
      have hcode : x.code = FloatFormat.double.infinity := by
        rw [BinaryFloat.isNaN, decide_eq_true_iff] at hnan
        rw [BinaryFloat.isFinite, decide_eq_true_iff] at hfinite
        omega
      rw [if_neg hfinite, hsign, hcode]
      cases x.negative with
      | true => rfl
      | false => rfl

/-- **The multiple of a number lies at its place.** -/
theorem marks_place (n : Number) : n.place.Marks n.rank := by
  cases n with
  | integer i =>
    obtain ⟨hbelow, habove⟩ := mul_one_bounds i
    have hbound : integerBound * FloatFormat.double.one < Place.top :=
      integerBound_mul_lt_units (Nat.le_refl _)
    refine ⟨?_, ?_, ?_⟩
    · exact Int.lt_of_lt_of_le (Int.neg_lt_neg hbound) hbelow
    · exact Int.lt_trans habove hbound
    · rw [rank, Int.cast_mul, Int.cast_natCast]
  | float x => exact marks_doublePlace x

/-- Numbers are in the order of their places. -/
theorem rank_lt_iff (a b : Number) : a.rank < b.rank ↔ a.place.Below b.place := by
  constructor
  · intro h
    rcases Place.below_trichotomy a.place b.place with hbelow | heq | habove
    · exact hbelow
    · have hmark := marks_place a
      rw [heq] at hmark
      exact absurd (hmark.unique (marks_place b)) (Int.ne_of_lt h)
    · exact absurd ((marks_place b).lt (marks_place a) habove) (Int.lt_asymm h)
  · exact (marks_place a).lt (marks_place b)

/-- Numbers of one multiple are at one place. -/
theorem rank_eq_iff (a b : Number) : a.rank = b.rank ↔ a.place = b.place := by
  constructor
  · intro h
    rcases Place.below_trichotomy a.place b.place with hbelow | heq | habove
    · exact absurd h (Int.ne_of_lt ((rank_lt_iff a b).mpr hbelow))
    · exact heq
    · exact absurd h.symm (Int.ne_of_lt ((rank_lt_iff b a).mpr habove))
  · intro h
    have hmark := marks_place a
    rw [h] at hmark
    exact hmark.unique (marks_place b)

/-- **Numbers are compared by their places on the extended line.**  So comparing is a total
order, in which two numbers are equal just when they are at one place. -/
theorem compare_place (a b c : Number) :
    (compare a b = .lt ↔ a.place.Below b.place) ∧
      (compare a b = .eq ↔ a.place = b.place) ∧
      (compare a b = .gt ↔ b.place.Below a.place) ∧
      compare a a = .eq ∧
      compare b a = (compare a b).swap ∧
      ((compare a b).isLE → (compare b c).isLE → (compare a c).isLE) := by
  refine ⟨?_, ?_, ?_, ?_, ?_, ?_⟩
  · rw [compare_def, Int.compare_eq_lt, rank_lt_iff]
  · rw [compare_def, Int.compare_eq_eq, rank_eq_iff]
  · rw [compare_def, Int.compare_eq_gt, rank_lt_iff]
  · exact Std.ReflCmp.compare_self
  · exact Std.OrientedCmp.eq_swap
  · exact Std.TransCmp.isLE_trans

/-- Three numbers next to one another, of which a double can hold the outer two only. -/
theorem compare_place_adjacent :
    (compare (integer 9007199254740992) (integer 9007199254740993)).isLE ∧
      (compare (integer 9007199254740993) (float (.ofInt 9007199254740994))).isLE ∧
      (compare (integer 9007199254740992) (float (.ofInt 9007199254740994))).isLE := by
  have hbelow : (compare (integer 9007199254740992) (integer 9007199254740993)).isLE := by
    decide +kernel
  have habove : (compare (integer 9007199254740993) (float (.ofInt 9007199254740994))).isLE := by
    decide +kernel
  exact ⟨hbelow, habove, (compare_place _ _ _).2.2.2.2.2 hbelow habove⟩

end Number

end ItemStore
