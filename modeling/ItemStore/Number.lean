import ItemStore.SortedSet
import ItemStore.Numeral.Float

/-!
# Numbers

A number is an integer of 64 bits or a floating-point number.  Numbers are compared by
value, without rounding either side: two doubles as doubles, and an integer with a double by
the integer part of the double and then by its fraction.  All this is one order: each number
stands at a whole multiple of the least positive double, and numbers are in the order of
those multiples.  Numbers travel as decimal text; a text that denotes an integer is read as
an integer.

## Main definitions

* `Number` — an integer or a floating-point number.
* `Number.cmp` — comparing numbers.
* `Number.rank` — the place of a number on the extended line.
* `Number.text?`, `Number.ofText?` — writing and reading.

## Main results

* `Number.compare_def` — numbers are compared by their places.
-/

namespace ItemStore

open Std

/-- A number: an integer of 64 bits, or a floating-point number. -/
inductive Number
  | integer (value : Int64)
  | float (value : Double)
  deriving DecidableEq

namespace Number

/-- The place of a number on the extended line, counted in the least positive double. -/
def rank : Number → Int
  | .integer i => i.toInt * (FloatFormat.double.one : Int)
  | .float x => x.scaled

/-! ### Comparing -/

/-- Every integer of 64 bits lies below. -/
def integerBound : Int := 9223372036854775808

/-- An integer and a double, neither of them rounded.  What is not a number lies at the end
of its sign. -/
def compareExact (i : Int64) (x : Double) : Ordering :=
  if x.isNaN then if x.negative then .gt else .lt
  else if integerBound ≤ x.truncated then .lt
  else if x.truncated < -integerBound then .gt
  else
    (compare i.toInt x.truncated).then
      (if 0 < x.fraction then .lt else if x.fraction < 0 then .gt else .eq)

/-- Two numbers, by value as far as they have one. -/
def cmp : Number → Number → Ordering
  | .integer i, .integer j => compare i.toInt j.toInt
  | .float x, .float y => (x.partialCompare? y).getD (x.totalCompare y)
  | .integer i, .float x => compareExact i x
  | .float x, .integer i => (compareExact i x).swap

instance : Ord Number := ⟨cmp⟩

/-- Integers that lie alike are compared alike. -/
theorem compare_congr {a b c d : Int} (hlt : a < b ↔ c < d) (hgt : b < a ↔ d < c) :
    compare a b = compare c d := by
  rcases Int.lt_trichotomy a b with h | h | h
  · rw [Int.compare_eq_lt.mpr h, Int.compare_eq_lt.mpr (hlt.mp h)]
  · rw [Int.compare_eq_eq.mpr h, Int.compare_eq_eq.mpr (by omega)]
  · rw [Int.compare_eq_gt.mpr h, Int.compare_eq_gt.mpr (hgt.mp h)]

/-- Away from zero, bit patterns are in the order of the extended line. -/
theorem totalCompare_eq {x y : Double} (h : x.code ≠ 0 ∨ y.code ≠ 0) :
    x.totalCompare y = compare x.scaled y.scaled := by
  have hxy := FloatFormat.double.units_lt_iff x.code y.code
  have hyx := FloatFormat.double.units_lt_iff y.code x.code
  have hx := FloatFormat.double.units_lt_iff 0 x.code
  have hy := FloatFormat.double.units_lt_iff 0 y.code
  rw [FloatFormat.units_zero] at hx hy
  rw [BinaryFloat.totalCompare, BinaryFloat.totalKey, BinaryFloat.totalKey, BinaryFloat.scaled,
    BinaryFloat.scaled]
  apply compare_congr <;> cases x.negative <;> cases y.negative <;>
    simp only [Bool.false_eq_true, if_true, if_false] <;> omega

/-- The order of multiples, and of what lies between two of them. -/
theorem compare_mul_add {i t c r : Int} (hlow : -c < r) (hhigh : r < c) :
    compare (i * c) (t * c + r) =
      (compare i t).then (if 0 < r then .lt else if r < 0 then .gt else .eq) := by
  rcases Int.lt_trichotomy i t with h | rfl | h
  · have hmul := Int.mul_le_mul_of_nonneg_right (show i + 1 ≤ t by omega) (show 0 ≤ c by omega)
    rw [Int.add_mul, Int.one_mul] at hmul
    rw [Int.compare_eq_lt.mpr h]
    exact Int.compare_eq_lt.mpr (by omega)
  · rw [Int.compare_eq_eq.mpr rfl]
    show compare (i * c) (i * c + r) = if 0 < r then .lt else if r < 0 then .gt else .eq
    split
    · exact Int.compare_eq_lt.mpr (by omega)
    · split
      · exact Int.compare_eq_gt.mpr (by omega)
      · exact Int.compare_eq_eq.mpr (by omega)
  · have hmul := Int.mul_le_mul_of_nonneg_right (show t + 1 ≤ i by omega) (show 0 ≤ c by omega)
    rw [Int.add_mul, Int.one_mul] at hmul
    rw [Int.compare_eq_gt.mpr h]
    exact Int.compare_eq_gt.mpr (by omega)

/-- An infinity, and what is not a number, lies beyond every integer of 64 bits. -/
theorem integerBound_mul_lt_units {code : Nat} (h : FloatFormat.double.infinity ≤ code) :
    integerBound * FloatFormat.double.one < FloatFormat.double.units code := by
  have hbound : integerBound * FloatFormat.double.one =
      FloatFormat.double.units (1086 * FloatFormat.double.binade) := by decide +kernel
  have hunits : FloatFormat.double.units (1086 * FloatFormat.double.binade) <
      FloatFormat.double.units code := by
    apply FloatFormat.units_lt_units
    have hlow : 1086 * FloatFormat.double.binade < FloatFormat.double.infinity := by decide
    omega
  rw [hbound]
  exact Int.ofNat_lt.mpr hunits

/-- The multiple of an integer of 64 bits lies within that of the bounds. -/
theorem mul_one_bounds (i : Int64) :
    -(integerBound * FloatFormat.double.one) ≤ i.toInt * FloatFormat.double.one ∧
      i.toInt * FloatFormat.double.one < integerBound * FloatFormat.double.one := by
  have hone : 0 < (FloatFormat.double.one : Int) := Int.natCast_pos.mpr (FloatFormat.one_pos _)
  have hbelow := Int.mul_le_mul_of_nonneg_right i.le_toInt (Int.le_of_lt hone)
  rw [Int.neg_mul] at hbelow
  exact ⟨hbelow, Int.mul_lt_mul_of_pos_right i.toInt_lt hone⟩

/-- An integer and a double are compared by their places. -/
theorem compareExact_eq (i : Int64) (x : Double) :
    compareExact i x = compare (i.toInt * (FloatFormat.double.one : Int)) x.scaled := by
  have hone : 0 < (FloatFormat.double.one : Int) := Int.natCast_pos.mpr (FloatFormat.one_pos _)
  unfold compareExact
  by_cases hx : x.isNaN
  · have hcode : FloatFormat.double.infinity < x.code := of_decide_eq_true hx
    have hfar := integerBound_mul_lt_units (Nat.le_of_lt hcode)
    obtain ⟨hbelow, habove⟩ := mul_one_bounds i
    rw [if_pos hx, BinaryFloat.scaled]
    cases x.negative with
    | true => exact (Int.compare_eq_gt.mpr (by rw [if_pos rfl]; omega)).symm
    | false => exact (Int.compare_eq_lt.mpr (by rw [if_neg Bool.false_ne_true]; omega)).symm
  · have hsplit : x.truncated * (FloatFormat.double.one : Int) + x.fraction = x.scaled := by
      rw [Int.mul_comm]
      exact Int.mul_tdiv_add_tmod ..
    have hlow : -(FloatFormat.double.one : Int) < x.fraction := Int.lt_tmod_of_pos _ hone
    have hhigh : x.fraction < (FloatFormat.double.one : Int) := Int.tmod_lt_of_pos _ hone
    rw [← hsplit, compare_mul_add hlow hhigh, if_neg hx]
    -- Beyond the bounds the integer part alone decides.
    have hleast : -integerBound ≤ i.toInt := i.le_toInt
    have hgreatest : i.toInt < integerBound := i.toInt_lt
    by_cases hover : integerBound ≤ x.truncated
    · rw [if_pos hover, Int.compare_eq_lt.mpr (by omega)]
      rfl
    · by_cases hunder : x.truncated < -integerBound
      · rw [if_neg hover, if_pos hunder, Int.compare_eq_gt.mpr (by omega)]
        rfl
      · rw [if_neg hover, if_neg hunder]

/-- **Numbers are compared by their places on the extended line.** -/
theorem compare_def (a b : Number) : compare a b = compare a.rank b.rank := by
  show cmp a b = compare a.rank b.rank
  cases a with
  | integer i =>
    cases b with
    | integer j =>
      have hone : 0 < (FloatFormat.double.one : Int) := Int.natCast_pos.mpr (FloatFormat.one_pos _)
      refine compare_congr ?_ ?_
      · exact (Int.mul_lt_mul_right hone).symm
      · exact (Int.mul_lt_mul_right hone).symm
    | float y => exact compareExact_eq i y
  | float x =>
    cases b with
    | integer j =>
      rw [cmp, compareExact_eq]
      exact OrientedCmp.eq_swap.symm
    | float y =>
      rw [cmp, BinaryFloat.partialCompare?]
      split
      · next hnan =>
        -- What is not a number is not zero.
        have hpos : ∀ z : Double, z.isNaN → z.code ≠ 0 := fun z hz =>
          Nat.ne_of_gt (Nat.lt_of_le_of_lt (Nat.zero_le _) (of_decide_eq_true hz))
        rcases Bool.or_eq_true_iff.mp hnan with hx | hy
        · exact totalCompare_eq (.inl (hpos x hx))
        · exact totalCompare_eq (.inr (hpos y hy))
      · rfl

instance : TransOrd Number where
  eq_swap {a b} := by
    simpa only [compare_def] using OrientedOrd.eq_swap
  isLE_trans {a b c} := by
    simpa only [compare_def] using TransOrd.isLE_trans

/-- The nearest double. -/
def toDouble : Number → Double
  | .integer i => .ofInt i.toInt
  | .float x => x

/-- The text of a number; a number that is not finite has none. -/
def text? : Number → Option String
  | .integer i => some (String.ofList (integerText i.toInt))
  | .float x => if x.isFinite then some x.plainText else none

/-- A floating-point number, as an integer if it is one of 64 bits. -/
def ofDouble (x : Double) : Number :=
  match x.toInt? with
  | some i => if IntegerRange.int64.contains i then .integer (.ofInt i) else .float x
  | none => .float x

/-- The number that a text denotes: exactly for an integer numeral of 64 bits, otherwise
the nearest double.  What would be infinite or no number is refused. -/
def ofText? (text : String) : Option Number :=
  match IntegerRange.int64.read text.toList with
  | .ok i => some (.integer (.ofInt i))
  | .error _ =>
    match BinaryFloat.ofText text.toList with
    | .ok x => if BinaryFloat.isFinite x then some (ofDouble x) else none
    | .error _ => none

/-- The text inside a message. -/
def inspect : Number → String
  | .integer i => "Integer(" ++ String.ofList (integerText i.toInt) ++ ")"
  | .float x => "Float(" ++ x.inspect ++ ")"

end Number

end ItemStore
