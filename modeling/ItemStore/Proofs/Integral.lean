import ItemStore.Proofs.Integers
import ItemStore.Proofs.Line

/-!
# Texts that denote integers

An integer can be written in many ways: with a plus sign, with zeros in front, with a fraction of
zeros, with an exponent.  Only an integer numeral is read digit by digit.  Every other text is read
as the double nearest to the number that it denotes, which becomes an integer if it is one of 64
bits.  So the text is read as its own number just when there is nothing to round: if it is an
integer numeral of 64 bits, or if its number is a double.  Up to `2 ^ 53` every integer is one;
beyond, an integer that is none becomes another number, and a fraction may become an integer.

## Main definitions

* `Number.value` — the rational number of a number.
* `Number.IsDouble` — the rational numbers that are finite doubles.
* `Number.Unrounded` — a text that is an integer numeral of 64 bits or denotes a double.

## Main results

* `Number.ofDouble_ofDecimal_of_value` — a decimal that a double is equal to is read as it.
* `Number.value_eq_iff_unrounded` — which texts are read as the numbers that they denote.
* `Number.ofText?_integral` — texts that denote integers, and texts that are read as integers.
-/

namespace ItemStore

/-! ### Doubles written out in full -/

namespace BinaryFloat

variable {F : FloatFormat}

/-- A finite number written out in full. -/
def exactDecimal (x : BinaryFloat F) : Decimal :=
  ⟨x.negative, F.exact x.code, -(F.unitExponent : Int)⟩

theorem value_exactDecimal (hF : 2 ≤ F.exponentBits) (x : BinaryFloat F) :
    x.exactDecimal.value = x.value := by
  rw [exactDecimal, Decimal.value, cast_signedInt, mul_assoc, ← F.magnitude_eq_exact,
    F.magnitude_eq_value hF, value, signedInt]
  cases x.negative with
  | false => simp
  | true => simp

/-- What is written out in full reads back. -/
theorem ofDecimal_exactDecimal (hF : 2 ≤ F.exponentBits) {x : BinaryFloat F} (hx : x.isFinite) :
    ofDecimal x.exactDecimal = x :=
  ofDecimal_eq_of_code rfl (F.ofDecimal_exact hF (code_lt_infinity hx).le)

end BinaryFloat

namespace Number

/-- The rational number of a number, if it is finite. -/
def value : Number → ℚ
  | .integer i => i.toInt
  | .float x => x.value

/-- The place of a number counts its rational number. -/
theorem rank_eq_value_mul (n : Number) : (n.rank : ℚ) = n.value * FloatFormat.double.one := by
  cases n with
  | integer i =>
    rw [rank, value, Int.cast_mul, Int.cast_natCast]
  | float x => exact x.scaled_eq_value_mul (by decide)

/-- A double that becomes an integer keeps its rational number. -/
theorem value_ofDouble (x : Double) : (ofDouble x).value = x.value := by
  apply mul_right_cancel₀ FloatFormat.double.ratCast_one_pos.ne'
  rw [← rank_eq_value_mul, ← x.scaled_eq_value_mul (by decide), rank_ofDouble]

/-- The rational number is that of a finite double. -/
def IsDouble (q : ℚ) : Prop := ∃ x : Double, x.isFinite ∧ x.value = q

/-- **A decimal that a double is equal to is read as it.** -/
theorem ofDouble_ofDecimal_of_value {d : Decimal} {x : Double} (hx : x.isFinite)
    (h : d.value = x.value) :
    BinaryFloat.isFinite (.ofDecimal d : Double) ∧ ofDouble (.ofDecimal d) = ofDouble x := by
  have hexact : d.value = x.exactDecimal.value := by
    rw [h, x.value_exactDecimal (by decide)]
  constructor
  · apply BinaryFloat.isFinite_ofDecimal
    have hcode :=
      FloatFormat.double.ofDecimal_exact (by decide) (BinaryFloat.code_lt_infinity hx).le
    rw [FloatFormat.double.ofDecimal_eq_of_value (by decide) hexact]
    exact hcode.trans_lt (BinaryFloat.code_lt_infinity hx)
  · rw [ofDouble_ofDecimal_congr hexact, BinaryFloat.ofDecimal_exactDecimal (by decide) hx]

theorem isDouble_intCast_of_representable {m : Int} (h : Representable m) : IsDouble m := by
  obtain ⟨hfinite, hscaled⟩ := h.ofDecimal_lt
  refine ⟨.ofDecimal (wholeDecimal m), BinaryFloat.isFinite_ofDecimal hfinite, ?_⟩
  apply mul_right_cancel₀ FloatFormat.double.ratCast_one_pos.ne'
  rw [← BinaryFloat.scaled_eq_value_mul (by decide), hscaled, Int.cast_mul, Int.cast_natCast]

/-! ### Reading a text -/

/-- The text is an integer numeral of 64 bits or denotes a double. -/
def Unrounded (text : String) : Prop :=
  (∃ i, IntegerRange.int64.read text.toList = .ok i) ∨
    ∃ q, textValue? text = some q ∧ IsDouble q

/-- A text that can be read denotes a number. -/
theorem exists_textValue?_of_ofText? {text : String} {n : Number} (h : ofText? text = some n) :
    ∃ q, textValue? text = some q := by
  cases ofText?_eq_some_iff.mp h with
  | numeral hread => exact ⟨_, textValue?_of_read (by decide) (by decide) hread⟩
  | decimal _ hd _ => exact ⟨_, textValue?_eq_some_iff.mpr ⟨_, hd, rfl⟩⟩

/-- **Which texts are read as the numbers that they denote.** -/
theorem value_eq_iff_unrounded {text : String} {n : Number} {q : ℚ} (hn : ofText? text = some n)
    (hq : textValue? text = some q) : n.value = q ↔ Unrounded text := by
  cases ofText?_eq_some_iff.mp hn with
  | @numeral i hread =>
    have hcontains := ((IntegerRange.read_eq_ok_iff (by decide) (by decide)).mp hread).2.2.2
    rw [textValue?_of_read (by decide) (by decide) hread, Option.some.injEq] at hq
    rw [value, toInt_ofInt hcontains]
    exact iff_of_true hq (.inl ⟨i, hread⟩)
  | @decimal d hnumeral hd hfinite =>
    obtain ⟨_, hd', rfl⟩ := textValue?_eq_some_iff.mp hq
    obtain rfl := Option.some.inj (hd.symm.trans hd')
    constructor
    · intro heq
      refine .inr ⟨d.value, hq, .ofDecimal d, hfinite, ?_⟩
      rw [← value_ofDouble, heq]
    · rintro (⟨i, hread⟩ | ⟨_, hq', x, hx, rfl⟩)
      · exact absurd hread (hnumeral i)
      · have hx' : d.value = x.value := Option.some.inj (hq.symm.trans hq')
        rw [(ofDouble_ofDecimal_of_value hx hx').2, value_ofDouble, hx']

/-- A number that was read is an integer of 64 bits if its value is one. -/
theorem eq_integer_iff {text : String} {n : Number} (hn : ofText? text = some n) {i : Int}
    (hi : IntegerRange.int64.contains i) : n = .integer (.ofInt i) ↔ n.value = i := by
  constructor
  · rintro rfl
    rw [value, toInt_ofInt hi]
  · intro h
    rcases eq_integer_or_float hn with ⟨j, rfl⟩ | ⟨x, rfl, hx, hfloat⟩
    · rw [← Int.cast_injective (α := ℚ) h, Int64.ofInt_toInt]
    · -- A double that stayed a double is no integer of 64 bits.
      have hscaled : x.scaled = i * (FloatFormat.double.one : Int) := by
        have hrank := rank_eq_value_mul (.float x)
        rw [h] at hrank
        exact_mod_cast hrank
      rw [ofDouble_eq_integer hx hi hscaled] at hfloat
      cases hfloat

/-- A text that denotes an integer of 64 bits can be read. -/
theorem exists_ofText?_of_contains {text : String} {i : Int} (hi : IntegerRange.int64.contains i)
    (h : textValue? text = some (i : ℚ)) : ∃ n, ofText? text = some n := by
  cases hread : IntegerRange.int64.read text.toList with
  | ok j => exact ⟨_, ofText?_eq_some_iff.mpr (.numeral hread)⟩
  | error e =>
    obtain ⟨d, hd, hvalue⟩ := textValue?_eq_some_iff.mp h
    have hnumeral : ∀ j, IntegerRange.int64.read text.toList ≠ .ok j := by
      intro j hj
      rw [hread] at hj
      cases hj
    have hword : IsWord i := by
      have hrange := IntegerRange.contains_iff.mp hi
      change -9223372036854775808 ≤ i ∧ i ≤ 9223372036854775807 at hrange
      unfold IsWord
      omega
    rw [← value_wholeDecimal] at hvalue
    have hfinite := hword.ofDecimal_lt
    rw [← FloatFormat.double.ofDecimal_eq_of_value (by decide) hvalue] at hfinite
    exact ⟨_, ofText?_eq_some_iff.mpr
      (.decimal hnumeral hd (BinaryFloat.isFinite_ofDecimal hfinite))⟩

/-- **Texts that denote integers, and texts that are read as integers.**

A text that denotes an integer of 64 bits, in whatever notation, can be read.  It is read as just
this integer if, and only if, it is an integer numeral or the integer is a double.  And a text that
is read as an integer denotes a number, which is just this integer if, and only if, the text is an
integer numeral or the number is a double. -/
theorem ofText?_integral (text : String) :
    (∀ i : Int, IntegerRange.int64.contains i → textValue? text = some (i : ℚ) →
      (∃ n, ofText? text = some n) ∧
        (ofText? text = some (.integer (.ofInt i)) ↔ Unrounded text)) ∧
    ∀ k : Int64, ofText? text = some (.integer k) →
      ∃ q, textValue? text = some q ∧ (q = k.toInt ↔ Unrounded text) := by
  constructor
  · intro i hi hvalue
    obtain ⟨n, hn⟩ := exists_ofText?_of_contains hi hvalue
    refine ⟨⟨n, hn⟩, ?_⟩
    rw [hn, Option.some.injEq, eq_integer_iff hn hi, value_eq_iff_unrounded hn hvalue]
  · intro k hk
    obtain ⟨q, hq⟩ := exists_textValue?_of_ofText? hk
    refine ⟨q, hq, ?_⟩
    rw [← value_eq_iff_unrounded hk hq]
    exact eq_comm

/-- Fifty in an unusual notation is read as fifty. -/
theorem ofText?_integral_scientific :
    textValue? "+000.50E+2" = some ((50 : Int) : ℚ) ∧
      ofText? "+000.50E+2" = some (.integer 50) := by
  have hdecimal : Decimal.ofText? "+000.50E+2".toList = some ⟨false, 50, 0⟩ := by decide
  have hvalue : textValue? "+000.50E+2" = some ((50 : Int) : ℚ) := by
    rw [textValue?, hdecimal, Option.map_some, Decimal.value, signedInt]
    norm_num
  have hunrounded : Unrounded "+000.50E+2" :=
    .inr ⟨_, hvalue, isDouble_intCast_of_representable (representable_of_le (by decide))⟩
  have hcontains : IntegerRange.int64.contains 50 := by decide
  exact ⟨hvalue, (((ofText?_integral _).1 50 hcontains hvalue).2).mpr hunrounded⟩

/-- An odd integer above `2 ^ 53` with a fraction of zeros is read as the one below. -/
theorem ofText?_integral_ne :
    textValue? "9007199254740993.0" = some 9007199254740993 ∧
      ofText? "9007199254740993.0" = some (.integer 9007199254740992) := by
  refine ⟨?_, by decide +kernel⟩
  have hdecimal : Decimal.ofText? "9007199254740993.0".toList =
      some ⟨false, 90071992547409930, -1⟩ := by decide
  rw [textValue?, hdecimal, Option.map_some, Decimal.value, signedInt]
  norm_num

/-- Integers up to `2 ^ 53` are read as themselves in every notation. -/
theorem ofText?_of_le {text : String} {i : Int} (h : textValue? text = some (i : ℚ))
    (hi : i.natAbs ≤ 2 ^ 53) : ofText? text = some (.integer (.ofInt i)) := by
  have hcontains : IntegerRange.int64.contains i := by
    rw [IntegerRange.contains_iff]
    change -9223372036854775808 ≤ i ∧ i ≤ 9223372036854775807
    omega
  obtain ⟨n, hn⟩ := exists_ofText?_of_contains hcontains h
  have hunrounded : Unrounded text :=
    .inr ⟨i, h, isDouble_intCast_of_representable (representable_of_le hi)⟩
  rw [hn, (eq_integer_iff hn hcontains).mpr ((value_eq_iff_unrounded hn h).mpr hunrounded)]

end Number

end ItemStore
