import ItemStore.Proofs.ReadBack
import ItemStore.Proofs.Rounding

/-!
# What numbers keep of their texts

The text of a number denotes a rational number.  Reading keeps it if the text is an integer
numeral of 64 bits; any other text is read as the nearest double, and what is written then is
the integer that this double is, or the fewest digits that read back.  A number is kept if
that is the number itself, and numbers of few digits are kept.

## Main definitions

* `Decimal.value`, `textValue?` — the rational number of a decimal and of a text.
* `Number.written` — the rational number of the text of a number.
* `Number.keptValue?`, `Number.Kept` — what a text is kept as, and that this is its number.
* `Number.RoundedInteger` — an integer of 64 bits in another notation that is not kept.
* `Number.FewDigits` — a text has at most fifteen digits that count.

## Main results

* `Number.ofDouble_ofDecimal_congr` — reading depends on the value only.
* `Number.ofDouble_ofDecimal_of_written` — what was written once is read as it was.
* `Number.written_eq_iff` — when a text keeps its number.
* `Number.kept_of_fewDigits` — few digits are kept.
-/

namespace ItemStore

/-- An integer is its magnitude with its sign. -/
theorem signedInt_natAbs (i : Int) : signedInt (decide (i < 0)) i.natAbs = i := by
  unfold signedInt
  by_cases h : i < 0
  · rw [decide_eq_true h, if_pos rfl]
    omega
  · rw [decide_eq_false h, if_neg Bool.false_ne_true]
    omega

/-- The sign is a factor. -/
theorem cast_signedInt (negative : Bool) (n : Nat) :
    (signedInt negative n : ℚ) = signedInt negative 1 * (n : ℚ) := by
  cases negative with
  | false => simp [signedInt]
  | true => simp [signedInt]

/-- Away from zero the sign can be told. -/
theorem eq_of_signedInt_eq {negative negative' : Bool} {n : Nat} (hn : n ≠ 0)
    (h : signedInt negative n = signedInt negative' n) : negative = negative' := by
  unfold signedInt at h
  cases negative with
  | false =>
    cases negative' with
    | false => rfl
    | true =>
      simp only [Bool.false_eq_true, if_false, if_true] at h
      omega
  | true =>
    cases negative' with
    | false =>
      simp only [Bool.false_eq_true, if_false, if_true] at h
      omega
    | true => rfl

/-! ### The number that a text denotes -/

namespace Decimal

/-- The number that a decimal denotes. -/
def value (d : Decimal) : ℚ := signedInt d.negative d.coefficient * 10 ^ d.exponent

theorem abs_value (d : Decimal) : |d.value| = d.coefficient * 10 ^ d.exponent := by
  have hpow : (0 : ℚ) < 10 ^ d.exponent := zpow_pos (by norm_num) _
  rw [value, abs_mul, abs_of_pos hpow]
  congr 1
  cases d.negative with
  | false => simp [signedInt]
  | true => simp [signedInt]

theorem value_eq_sign_mul (d : Decimal) : d.value = signedInt d.negative 1 * |d.value| := by
  rw [abs_value, ← mul_assoc, ← cast_signedInt, value]

theorem value_eq_zero_iff (d : Decimal) : d.value = 0 ↔ d.coefficient = 0 := by
  have hpow : (10 : ℚ) ^ d.exponent ≠ 0 := zpow_ne_zero _ (by norm_num)
  rw [← abs_eq_zero, abs_value, mul_eq_zero]
  constructor
  · rintro (hcoefficient | hzero)
    · exact_mod_cast hcoefficient
    · exact absurd hzero hpow
  · intro hzero
    exact .inl (by exact_mod_cast hzero)

theorem value_neg_iff {d : Decimal} (h : d.value ≠ 0) : d.value < 0 ↔ d.negative := by
  have hpow : (0 : ℚ) < 10 ^ d.exponent := zpow_pos (by norm_num) _
  have hcoefficient : (0 : ℚ) < d.coefficient := by
    have hne : d.coefficient ≠ 0 := fun hzero => h (d.value_eq_zero_iff.mpr hzero)
    exact_mod_cast Nat.pos_of_ne_zero hne
  have hpos : 0 < d.coefficient * (10 : ℚ) ^ d.exponent := mul_pos hcoefficient hpow
  unfold value
  cases d.negative with
  | false =>
    simp only [signedInt, Bool.false_eq_true, if_false, iff_false, Int.cast_natCast]
    exact hpos.le.not_gt
  | true =>
    simp only [signedInt, if_true, iff_true, Int.cast_neg, Int.cast_natCast]
    linarith

/-- Zeros before the point do not change the value. -/
theorem value_laidOut (negative : Bool) (coefficient : Nat) (exponent : Int) :
    value ⟨negative, (laidOut coefficient exponent).1, (laidOut coefficient exponent).2⟩ =
      signedInt negative coefficient * 10 ^ exponent := by
  cases exponent with
  | ofNat k =>
    simp only [laidOut, value, signedInt_mul, zpow_zero, mul_one, Int.ofNat_eq_natCast,
      zpow_natCast]
    push_cast
    rfl
  | negSucc k => rfl

end Decimal

/-- The number that a text denotes, if it is a decimal. -/
def textValue? (text : String) : Option ℚ := (Decimal.ofText? text.toList).map Decimal.value

theorem textValue?_eq_some_iff {text : String} {q : ℚ} :
    textValue? text = some q ↔ ∃ d, Decimal.ofText? text.toList = some d ∧ d.value = q :=
  Option.map_eq_some_iff

/-- An integer numeral denotes its integer. -/
theorem textValue?_of_read {range : IntegerRange} (hleast : range.least < 0)
    (hgreatest : 0 ≤ range.greatest) {text : String} {i : Int}
    (h : range.read text.toList = .ok i) : textValue? text = some (i : ℚ) := by
  obtain ⟨hne, hdigits, hi, -⟩ := (IntegerRange.read_eq_ok_iff hleast hgreatest).mp h
  rw [textValue?, Decimal.ofText?]
  simp only [Decimal.magnitudeOfText?_digits hne hdigits, Option.map_some, Decimal.value, zpow_zero,
    mul_one, hi]

/-! ### Doubles of decimals -/

/-- Decimals of one value have the same nearest code. -/
theorem FloatFormat.ofDecimal_eq_of_value (F : FloatFormat) (hF : 2 ≤ F.exponentBits)
    {d d' : Decimal} (h : d.value = d'.value) :
    F.ofDecimal d.coefficient d.exponent = F.ofDecimal d'.coefficient d'.exponent := by
  apply F.ofDecimal_congr hF
  rw [← d.abs_value, ← d'.abs_value, h]

/-- A magnitude determines its code. -/
theorem FloatFormat.eq_of_units_eq (F : FloatFormat) {code code' : Nat} (h : code ≤ F.infinity)
    (h' : code' ≤ F.infinity) (heq : F.units code = F.units code') : code = code' := by
  have hnearest := F.nearest_eq_of_units F.one_pos h rfl
  rw [heq] at hnearest
  rw [← hnearest]
  exact F.nearest_eq_of_units F.one_pos h' rfl

namespace BinaryFloat

variable {F : FloatFormat}

theorem code_ofDecimal {d : Decimal} (h : F.ofDecimal d.coefficient d.exponent < F.infinity) :
    (ofDecimal d : BinaryFloat F).code = F.ofDecimal d.coefficient d.exponent := by
  refine Nat.mod_eq_of_lt (Nat.lt_trans h ?_)
  rw [FloatFormat.infinity, FloatFormat.codes, FloatFormat.binade, Nat.pow_eq, Nat.pow_eq,
    Nat.pow_eq, pow_add]
  refine Nat.mul_lt_mul_of_pos_right ?_ (Nat.two_pow_pos _)
  have hpos := Nat.two_pow_pos F.exponentBits
  omega

theorem isFinite_ofDecimal {d : Decimal}
    (h : F.ofDecimal d.coefficient d.exponent < F.infinity) :
    (ofDecimal d : BinaryFloat F).isFinite := by
  rw [isFinite, decide_eq_true_iff, code_ofDecimal h]
  exact h

theorem ofDecimal_eq_of_code {d : Decimal} {x : BinaryFloat F} (hnegative : d.negative = x.negative)
    (h : F.ofDecimal d.coefficient d.exponent = x.code) : ofDecimal d = x := by
  rw [ofDecimal, h, hnegative, ofCode_self]

/-- Equal numbers have the same code. -/
theorem code_eq_of_scaled_eq {x y : BinaryFloat F} (hx : x.isFinite) (hy : y.isFinite)
    (h : x.scaled = y.scaled) : x.code = y.code := by
  rw [x.scaled_eq_signedInt, y.scaled_eq_signedInt] at h
  have habs := congrArg Int.natAbs h
  rw [natAbs_signedInt, natAbs_signedInt] at habs
  exact F.eq_of_units_eq (code_lt_infinity hx).le (code_lt_infinity hy).le habs

theorem magnitude_eq_natAbs {x : BinaryFloat F} {i : Int} (h : x.scaled = i * (F.one : Int)) :
    F.magnitude x.code = i.natAbs :=
  FloatFormat.magnitude_eq_of_units (units_eq_natAbs_mul h)

/-- An integer has the sign of its double. -/
theorem eq_sign_mul_natAbs {x : BinaryFloat F} {i : Int} (h : x.scaled = i * (F.one : Int)) :
    (i : ℚ) = signedInt x.negative 1 * (i.natAbs : Nat) := by
  have hunits := units_eq_natAbs_mul h
  rw [scaled_eq_signedInt, hunits, signedInt_mul] at h
  rw [← cast_signedInt, Int.eq_of_mul_eq_mul_right F.cast_one_ne_zero h]

end BinaryFloat

/-- Whole numbers of few binary digits are not rounded. -/
theorem FloatFormat.magnitude_ofDecimal_whole (F : FloatFormat) (hF : 2 ≤ F.exponentBits)
    (hbits : F.fractionBits < F.maxExponent) {n : Nat} (hn : n < 2 ^ (F.fractionBits + 1)) :
    F.magnitude (F.ofDecimal n 0) = n := by
  obtain ⟨code, hcode, hunits⟩ := F.exists_units_eq hF hbits hn
  have hnearest : F.ofDecimal n 0 = code := by
    rw [F.ofDecimal_eq_nearestDecimal hF]
    refine F.nearest_eq_of_units (by decide) hcode ?_
    rw [hunits]
    simp
  rw [hnearest, magnitude_eq_of_units hunits]

namespace Number

/-- The number that the text of a number denotes. -/
def written : Number → ℚ
  | .integer i => i.toInt
  | .float x =>
    signedInt x.negative (FloatFormat.double.shortest x.code).1 *
      10 ^ (FloatFormat.double.shortest x.code).2

/-- The text of a number denotes what it is written as. -/
theorem textValue?_of_text? {n : Number} {text : String} (h : n.text? = some text) :
    textValue? text = some n.written := by
  cases n with
  | integer i =>
    obtain rfl : String.ofList (integerText i.toInt) = text := Option.some.inj h
    have hread := IntegerRange.read_integerText (by decide) (by decide) (int64_contains_toInt i)
    rw [← String.toList_ofList (l := integerText i.toInt)] at hread
    exact textValue?_of_read (by decide) (by decide) hread
  | float x =>
    obtain ⟨hx, rfl⟩ : x.isFinite ∧ x.plainText = text := by simpa [text?] using h
    rw [textValue?, BinaryFloat.decimal_plainText hx, Option.map_some, Decimal.value_laidOut]
    rfl

/-! ### Reading a decimal -/

theorem ofDouble_eq_integer {x : Double} {i : Int} (hx : x.isFinite)
    (hi : IntegerRange.int64.contains i) (h : x.scaled = i * (FloatFormat.double.one : Int)) :
    ofDouble x = .integer (.ofInt i) := by
  rw [ofDouble, BinaryFloat.toInt?_eq_some_iff.mpr ⟨hx, h⟩]
  simp only [hi, if_true]

/-- A double is an integer of 64 bits or stays a double. -/
theorem ofDouble_cases (x : Double) :
    (∃ i, IntegerRange.int64.contains i ∧ x.scaled = i * (FloatFormat.double.one : Int) ∧
      ofDouble x = .integer (.ofInt i)) ∨ ofDouble x = .float x := by
  unfold ofDouble
  cases hint : x.toInt? with
  | none => exact .inr rfl
  | some i =>
    by_cases hcontains : IntegerRange.int64.contains i
    · refine .inl ⟨i, hcontains, (BinaryFloat.toInt?_eq_some_iff.mp hint).2, ?_⟩
      simp only [hcontains, if_true]
    · refine .inr ?_
      simp only [hcontains, Bool.false_eq_true, if_false]

/-- Zero is an integer, whatever its sign. -/
theorem ofDouble_of_code_eq_zero {x : Double} (h : x.code = 0) : ofDouble x = .integer 0 := by
  refine ofDouble_eq_integer (i := 0) ?_ (by decide) ?_
  · rw [BinaryFloat.isFinite, h]
    decide
  · rw [x.scaled_eq_signedInt, h]
    cases x.negative with
    | false => decide +kernel
    | true => decide +kernel

/-- **Reading depends on the value only.** -/
theorem ofDouble_ofDecimal_congr {d d' : Decimal} (h : d.value = d'.value) :
    ofDouble (.ofDecimal d) = ofDouble (.ofDecimal d') := by
  by_cases hzero : d.value = 0
  · -- The two may be zeros of different sign.
    have hcode : ∀ c : Decimal, c.value = 0 → ofDouble (.ofDecimal c) = .integer 0 := by
      intro c hc
      refine ofDouble_of_code_eq_zero ?_
      rw [BinaryFloat.ofDecimal, c.value_eq_zero_iff.mp hc]
      rfl
    rw [hcode d hzero, hcode d' (h ▸ hzero)]
  · have hne : d'.value ≠ 0 := h ▸ hzero
    have hnegative : d.negative = d'.negative := by
      rw [Bool.eq_iff_iff, ← Decimal.value_neg_iff hzero, ← Decimal.value_neg_iff hne, h]
    rw [BinaryFloat.ofDecimal, BinaryFloat.ofDecimal, hnegative,
      FloatFormat.double.ofDecimal_eq_of_value (by decide) h]

/-- A finite double has a decimal that is written for it and read as it. -/
theorem exists_decimal_written {x : Double} (hx : x.isFinite) :
    ∃ d : Decimal, d.value = (ofDouble x).written ∧ ofDouble (.ofDecimal d) = ofDouble x := by
  have hcode := BinaryFloat.code_lt_infinity hx
  rcases ofDouble_cases x with ⟨i, hi, hscaled, heq⟩ | heq
  · refine ⟨⟨decide (i < 0), i.natAbs, 0⟩, ?_, ?_⟩
    · rw [heq, written, toInt_ofInt hi, Decimal.value, zpow_zero, mul_one, signedInt_natAbs]
    · have hunits := BinaryFloat.units_eq_natAbs_mul hscaled
      have hsame : FloatFormat.double.ofDecimal i.natAbs 0 = x.code := by
        rw [FloatFormat.double.ofDecimal_eq_nearestDecimal (by decide)]
        refine FloatFormat.double.nearest_eq_of_units (by decide) hcode.le ?_
        rw [hunits]
        simp
      have hfinite : FloatFormat.double.ofDecimal i.natAbs 0 < FloatFormat.double.infinity := by
        rw [hsame]
        exact hcode
      rw [heq]
      refine ofDouble_eq_integer (BinaryFloat.isFinite_ofDecimal hfinite) hi ?_
      rw [BinaryFloat.scaled_eq_signedInt, BinaryFloat.code_ofDecimal hfinite, hsame, hunits,
        signedInt_mul]
      simp only [BinaryFloat.ofDecimal, BinaryFloat.ofCode, signedInt_natAbs]
  · refine ⟨⟨x.negative, (FloatFormat.double.shortest x.code).1,
      (FloatFormat.double.shortest x.code).2⟩, ?_, ?_⟩
    · rw [heq]
      rfl
    · rw [BinaryFloat.ofDecimal_eq_of_code (x := x) rfl
        (FloatFormat.double.ofDecimal_shortest (by decide) hcode)]

/-- **What was written once is read as it was.** -/
theorem ofDouble_ofDecimal_of_written {d : Decimal} {x : Double} (hx : x.isFinite)
    (h : d.value = (ofDouble x).written) : ofDouble (.ofDecimal d) = ofDouble x := by
  obtain ⟨d', hvalue, hread⟩ := exists_decimal_written hx
  rw [← hread]
  exact ofDouble_ofDecimal_congr (h.trans hvalue.symm)

/-! ### Reading a text -/

/-- What a text is read as: an integer numeral of 64 bits as its integer, any other decimal as
the double nearest to it, if that is finite. -/
inductive Reads (text : String) : Number → Prop
  | numeral {i : Int} (h : IntegerRange.int64.read text.toList = .ok i) :
    Reads text (.integer (.ofInt i))
  | decimal {d : Decimal} (hnumeral : ∀ i, IntegerRange.int64.read text.toList ≠ .ok i)
    (hd : Decimal.ofText? text.toList = some d)
    (hfinite : BinaryFloat.isFinite (.ofDecimal d : Double)) :
    Reads text (ofDouble (.ofDecimal d))

/-- A name stands for no finite number. -/
theorem not_isFinite_of_codeOfName? {cs : List Char} {code : Nat} (negative : Bool)
    (h : BinaryFloat.codeOfName? .double cs = some code) :
    BinaryFloat.isFinite (.ofCode negative code : Double) = false := by
  unfold BinaryFloat.codeOfName? at h
  split at h
  · cases h
    rfl
  · cases h
    rfl
  · cases h
    rfl
  · cases h

theorem ofText?_eq_some_iff {text : String} {n : Number} :
    ofText? text = some n ↔ Reads text n := by
  unfold ofText?
  constructor
  · intro h
    split at h
    · next i hread =>
      cases h
      exact .numeral hread
    · next e hread =>
      have hnumeral : ∀ i, IntegerRange.int64.read text.toList ≠ .ok i := by
        intro i hi
        rw [hread] at hi
        cases hi
      unfold BinaryFloat.ofText at h
      cases hd : Decimal.ofText? text.toList with
      | some d =>
        simp only [hd] at h
        split at h
        · next hfinite =>
          cases h
          exact .decimal hnumeral hd hfinite
        · cases h
      | none =>
        simp only [hd] at h
        cases hname : BinaryFloat.codeOfName? .double (splitSign text.toList).2 with
        | none =>
          simp only [hname] at h
          cases h
        | some code =>
          simp only [hname, not_isFinite_of_codeOfName? _ hname] at h
          cases h
  · intro h
    cases h with
    | numeral h => simp only [h]
    | decimal hnumeral hd hfinite =>
      split
      · next i hread => exact absurd hread (hnumeral i)
      · simp only [BinaryFloat.ofText, hd, hfinite, if_true]

/-- The number that a text is kept as: an integer numeral of 64 bits as its integer, any other
decimal as what the nearest double is written as. -/
def keptValue? (text : String) : Option ℚ :=
  match IntegerRange.int64.read text.toList with
  | .ok i => some i
  | .error _ => (Decimal.ofText? text.toList).map fun d => (ofDouble (.ofDecimal d)).written

/-- The text is kept as the number that it denotes. -/
def Kept (text : String) : Prop := keptValue? text = textValue? text

/-- The text denotes an integer of 64 bits, in any notation. -/
def DenotesInt64 (text : String) : Prop :=
  ∃ i, IntegerRange.int64.contains i ∧ textValue? text = some (i : ℚ)

/-- The text denotes an integer of 64 bits and is kept as another number; it is no numeral then. -/
def RoundedInteger (text : String) : Prop := DenotesInt64 text ∧ ¬Kept text

/-- A text is kept as what is written for the number that it is read as. -/
theorem keptValue?_of_ofText? {text : String} {n : Number} (h : ofText? text = some n) :
    keptValue? text = some n.written := by
  unfold keptValue?
  cases ofText?_eq_some_iff.mp h with
  | numeral hread =>
    have hcontains := ((IntegerRange.read_eq_ok_iff (by decide) (by decide)).mp hread).2.2.2
    simp only [hread, written, toInt_ofInt hcontains]
  | decimal hnumeral hd hfinite =>
    split
    · next i hread => exact absurd hread (hnumeral i)
    · rw [hd, Option.map_some]

theorem kept_of_read {text : String} {i : Int} (h : IntegerRange.int64.read text.toList = .ok i) :
    Kept text := by
  rw [Kept, keptValue?, textValue?_of_read (by decide) (by decide) h]
  simp only [h]

/-- **When a text keeps its number.** -/
theorem written_eq_iff {text : String} {n : Number} {q : ℚ} (hn : ofText? text = some n)
    (hq : textValue? text = some q) : n.written = q ↔ Kept text := by
  rw [Kept, keptValue?_of_ofText? hn, hq, Option.some.injEq]

/-- A text that denotes what the number of another text is written as, is written as that. -/
theorem written_of_textValue? {text text' : String} {n n' : Number} (hn : ofText? text = some n)
    (hnumeral : ∀ i, IntegerRange.int64.read text.toList ≠ .ok i) (hn' : ofText? text' = some n')
    (h : textValue? text' = some n.written) : n'.written = n.written := by
  cases ofText?_eq_some_iff.mp hn with
  | numeral hread => exact absurd hread (hnumeral _)
  | decimal _ hd hfinite =>
    cases ofText?_eq_some_iff.mp hn' with
    | numeral hread => exact (written_eq_iff hn' h).mpr (kept_of_read hread)
    | decimal _ hd' hfinite' =>
      rw [textValue?, hd', Option.map_some, Option.some.injEq] at h
      rw [ofDouble_ofDecimal_of_written hfinite h]

/-- A number that was read is an integer, or a finite double that is no integer of 64 bits. -/
theorem eq_integer_or_float {text : String} {n : Number} (h : ofText? text = some n) :
    (∃ i, n = .integer i) ∨ ∃ x : Double, n = .float x ∧ x.isFinite ∧ ofDouble x = .float x := by
  cases ofText?_eq_some_iff.mp h with
  | numeral hread => exact .inl ⟨_, rfl⟩
  | @decimal d _ hd hfinite =>
    rcases ofDouble_cases (.ofDecimal d) with ⟨i, -, -, heq⟩ | heq
    · exact .inl ⟨_, heq⟩
    · exact .inr ⟨_, heq, hfinite, heq⟩

theorem exists_text_of_ofText? {text : String} {n : Number} (h : ofText? text = some n) :
    ∃ text', n.text? = some text' := by
  rcases eq_integer_or_float h with ⟨i, rfl⟩ | ⟨x, rfl, hx, -⟩
  · exact ⟨_, rfl⟩
  · exact ⟨x.plainText, by simp only [text?, hx, if_true]⟩

/-- Numbers that were read are equal only if they are the same. -/
theorem eq_of_rank_eq {text text' : String} {n n' : Number} (hn : ofText? text = some n)
    (hn' : ofText? text' = some n') (h : n.rank = n'.rank) : n = n' := by
  -- A double that is no integer of 64 bits is not equal to one.
  have hmixed : ∀ (i : Int64) (x : Double), x.isFinite → ofDouble x = .float x →
      (integer i).rank ≠ (float x).rank := by
    intro i x hx hfloat heq
    have hinteger := ofDouble_eq_integer hx (int64_contains_toInt i) heq.symm
    rw [hfloat] at hinteger
    cases hinteger
  rcases eq_integer_or_float hn with ⟨i, rfl⟩ | ⟨x, rfl, hx, hfloat⟩
  · rcases eq_integer_or_float hn' with ⟨j, rfl⟩ | ⟨y, rfl, hy, hfloat'⟩
    · have htoInt : i.toInt = j.toInt :=
        Int.eq_of_mul_eq_mul_right FloatFormat.double.cast_one_ne_zero h
      rw [Int64.toInt_inj.mp htoInt]
    · exact absurd h (hmixed i y hy hfloat')
  · rcases eq_integer_or_float hn' with ⟨j, rfl⟩ | ⟨y, rfl, hy, hfloat'⟩
    · exact absurd h.symm (hmixed j x hx hfloat)
    · rw [rank_float, rank_float] at h
      have hcode : x.code = y.code := BinaryFloat.code_eq_of_scaled_eq hx hy h
      have hne : FloatFormat.double.units x.code ≠ 0 := by
        intro hzero
        have hcodezero : x.code = 0 :=
          FloatFormat.double.eq_of_units_eq (BinaryFloat.code_lt_infinity hx).le
            (Nat.zero_le _) (hzero.trans (by decide +kernel))
        rw [ofDouble_of_code_eq_zero hcodezero] at hfloat
        cases hfloat
      rw [x.scaled_eq_signedInt, y.scaled_eq_signedInt, ← hcode] at h
      have hnegative := eq_of_signedInt_eq hne h
      rw [← x.ofCode_self, ← y.ofCode_self, hcode, hnegative]

/-! ### Numbers that the store holds -/

/-- The store holds zero, and numbers whose magnitude is at least `10 ^ -130` and less than
`10 ^ 126`. -/
def InRange (q : ℚ) : Prop := q = 0 ∨ 10 ^ (-130 : Int) ≤ |q| ∧ |q| < 10 ^ 126

/-- The text denotes a number that the store holds. -/
def Storable (text : String) : Prop := ∃ q, textValue? text = some q ∧ InRange q

/-- The store holds no number that is rounded to infinity. -/
theorem InRange.ofDecimal_lt_infinity {d : Decimal} (h : InRange d.value) :
    FloatFormat.double.ofDecimal d.coefficient d.exponent < FloatFormat.double.infinity := by
  have hlarge : (10 : ℚ) ^ 126 ≤ 2 ^ (FloatFormat.double.maxExponent - 1) := by
    have hle : 10 ^ 126 ≤ 2 ^ (FloatFormat.double.maxExponent - 1) := by decide +kernel
    exact_mod_cast hle
  have hlt : |d.value| < 10 ^ 126 := by
    rcases h with hzero | ⟨-, hlt⟩
    · rw [hzero, abs_zero]
      positivity
    · exact hlt
  refine FloatFormat.double.ofDecimal_lt_infinity (by decide) ?_
  rw [← d.abs_value]
  exact hlt.trans_le hlarge

/-- Away from zero it holds none that is rounded below the second binade. -/
theorem InRange.binade_le_units {d : Decimal} (h : InRange d.value) (hne : d.value ≠ 0) :
    FloatFormat.double.binade ≤
      FloatFormat.double.units (FloatFormat.double.ofDecimal d.coefficient d.exponent) := by
  have hsmall : (FloatFormat.double.binade : ℚ) * 10 ^ 130 ≤ FloatFormat.double.one := by
    have hle : FloatFormat.double.binade * 10 ^ 130 ≤ FloatFormat.double.one := by decide +kernel
    exact_mod_cast hle
  obtain ⟨hge, -⟩ := h.resolve_left hne
  refine FloatFormat.double.binade_le_units_ofDecimal (by decide) h.ofDecimal_lt_infinity ?_
  rw [← d.abs_value]
  calc (FloatFormat.double.binade : ℚ)
      = 10 ^ (-130 : Int) * (FloatFormat.double.binade * 10 ^ 130) := by
        rw [zpow_neg, show (130 : Int) = ((130 : Nat) : Int) from rfl, zpow_natCast]
        field_simp
    _ ≤ |d.value| * FloatFormat.double.one :=
        mul_le_mul hge hsmall (mul_nonneg (Nat.cast_nonneg _) (by norm_num)) (abs_nonneg _)

/-- What the store holds can be read. -/
theorem Storable.exists_ofText? {text : String} (h : Storable text) :
    ∃ n, ofText? text = some n := by
  obtain ⟨q, hq, hrange⟩ := h
  obtain ⟨d, hd, rfl⟩ := textValue?_eq_some_iff.mp hq
  by_cases hread : ∃ i, IntegerRange.int64.read text.toList = .ok i
  · obtain ⟨i, hi⟩ := hread
    exact ⟨_, ofText?_eq_some_iff.mpr (.numeral hi)⟩
  · have hnumeral : ∀ i, IntegerRange.int64.read text.toList ≠ .ok i := not_exists.mp hread
    have hfinite := BinaryFloat.isFinite_ofDecimal hrange.ofDecimal_lt_infinity
    exact ⟨_, ofText?_eq_some_iff.mpr (.decimal hnumeral hd hfinite)⟩

/-! ### Few digits -/

/-- The text is an integer numeral of 64 bits, or at most fifteen of its digits count and it
denotes no integer from `2 ^ 53` to `2 ^ 63`. -/
def FewDigits (text : String) : Prop :=
  (∃ i, IntegerRange.int64.read text.toList = .ok i) ∨
    ∃ q, textValue? text = some q ∧ (|q| < 2 ^ 53 ∨ 2 ^ 63 < |q|) ∧
      ∃ (c : Nat) (e : Int), c < 10 ^ 15 ∧ |q| = c * 10 ^ e

/-- Just above `2 ^ 63` few digits end in four zeros, and no integer up to there is near. -/
theorem lt_error_of_lt {c k M : Nat} (hc : c < 10 ^ 15) (hlt : 2 ^ 63 < c * 10 ^ k)
    (hM : M ≤ 2 ^ 63) : M < (c * 10 ^ k - M) * 2 ^ 53 := by
  have hk : 4 ≤ k := by
    by_contra hshort
    have hpow : 10 ^ k ≤ 10 ^ 3 := Nat.pow_le_pow_right (by decide) (by omega)
    have hmul : c * 10 ^ k ≤ 10 ^ 15 * 10 ^ 3 := Nat.mul_le_mul hc.le hpow
    omega
  obtain ⟨m, hm⟩ : ∃ m, c * 10 ^ k = m * 10 ^ 4 := by
    refine ⟨c * 10 ^ (k - 4), ?_⟩
    rw [Nat.mul_assoc, ← pow_add, Nat.sub_add_cancel hk]
  rw [hm] at hlt ⊢
  omega

/-- An integer near to a number of few digits, some of them after the point, is that number:
counted in units of the last digit, the two are too short to differ. -/
theorem eq_of_near_of_places {c k M : Nat} {q : ℚ} (hc : c < 10 ^ 15) (hq : q * 10 ^ k = c)
    (hnear : |(M : ℚ) - q| * 2 ^ 53 ≤ M) : (M : ℚ) = q := by
  have hpow : (0 : ℚ) < 10 ^ k := by positivity
  have herror : |((M * 10 ^ k : Nat) : Int) - c| * 2 ^ 53 ≤ ((M * 10 ^ k : Nat) : Int) := by
    have hmul := mul_le_mul_of_nonneg_right hnear hpow.le
    have hcast : |((M * 10 ^ k : Nat) : ℚ) - c| * 2 ^ 53 ≤ ((M * 10 ^ k : Nat) : ℚ) := by
      calc |((M * 10 ^ k : Nat) : ℚ) - c| * 2 ^ 53
          = |(M : ℚ) - q| * 2 ^ 53 * 10 ^ k := by
            rw [← hq, Nat.cast_mul, Nat.cast_pow, Nat.cast_ofNat, ← sub_mul, abs_mul,
              abs_of_pos hpow]
            ring
        _ ≤ ((M * 10 ^ k : Nat) : ℚ) := by
            rw [Nat.cast_mul, Nat.cast_pow, Nat.cast_ofNat]
            exact hmul
    exact_mod_cast hcast
  have hsame : M * 10 ^ k = c := by
    generalize M * 10 ^ k = A at herror
    rcases abs_cases ((A : Int) - c) with ⟨habs, hsign⟩ | ⟨habs, hsign⟩
    · rw [habs] at herror
      omega
    · rw [habs] at herror
      omega
  have hcast : (M : ℚ) * 10 ^ k = c := by exact_mod_cast hsame
  exact mul_right_cancel₀ hpow.ne' (hcast.trans hq.symm)

/-- A number of few digits that is rounded to an integer is that integer. -/
theorem eq_natAbs_of_fewDigits {c M : Nat} {e : Int} {q : ℚ} (hc : c < 10 ^ 15)
    (hq : q = c * 10 ^ e) (hrange : q < 2 ^ 53 ∨ 2 ^ 63 < q) (hM : M ≤ 2 ^ 63)
    (hnear : |(M : ℚ) - q| * 2 ^ 53 ≤ M)
    (hwhole : ∀ n : Nat, n < 2 ^ 53 → q = n → M = n) : (M : ℚ) = q := by
  rcases Int.le_total 0 e with hle | hle
  · obtain ⟨k, rfl⟩ := Int.eq_ofNat_of_zero_le hle
    have hn : q = ((c * 10 ^ k : Nat) : ℚ) := by
      rw [hq, zpow_natCast]
      push_cast
      rfl
    rcases hrange with hlt | hlt
    · have hlt' : c * 10 ^ k < 2 ^ 53 := by
        rw [hn] at hlt
        exact_mod_cast hlt
      rw [hwhole _ hlt' hn, hn]
    · have hlt' : 2 ^ 63 < c * 10 ^ k := by
        rw [hn] at hlt
        exact_mod_cast hlt
      have herror : (c * 10 ^ k - M) * 2 ^ 53 ≤ M := by
        have hle : ((c * 10 ^ k : Nat) : ℚ) - M ≤ |(M : ℚ) - q| := by
          rw [abs_sub_comm, hn]
          exact le_abs_self _
        have hmul := (mul_le_mul_of_nonneg_right hle (by positivity)).trans hnear
        have hsub : ((c * 10 ^ k : Nat) : Int) - M = ((c * 10 ^ k - M : Nat) : Int) := by omega
        have hint : (((c * 10 ^ k : Nat) : Int) - M) * 2 ^ 53 ≤ M := by exact_mod_cast hmul
        rw [hsub] at hint
        exact_mod_cast hint
      exact absurd herror (Nat.not_le.mpr (lt_error_of_lt hc hlt' hM))
  · obtain ⟨k, hk⟩ := Int.eq_ofNat_of_zero_le (show 0 ≤ -e by omega)
    obtain rfl : e = -(k : Int) := by omega
    refine eq_of_near_of_places (k := k) hc ?_ hnear
    rw [hq, zpow_neg, zpow_natCast]
    field_simp

/-- The double nearest to a decimal of few digits is written as that decimal. -/
theorem written_ofDouble_of_fewDigits {d : Decimal} (hstored : InRange d.value)
    (hrange : |d.value| < 2 ^ 53 ∨ 2 ^ 63 < |d.value|) {c : Nat} {e : Int} (hc : c < 10 ^ 15)
    (hd : |d.value| = c * 10 ^ e) : (ofDouble (.ofDecimal d)).written = d.value := by
  by_cases hzero : d.value = 0
  · have hcode : (BinaryFloat.ofDecimal d : Double).code = 0 := by
      rw [BinaryFloat.ofDecimal, d.value_eq_zero_iff.mp hzero]
      rfl
    rw [ofDouble_of_code_eq_zero hcode, hzero]
    rfl
  have hsame : FloatFormat.double.ofDecimal d.coefficient d.exponent =
      FloatFormat.double.ofDecimal c e := by
    refine FloatFormat.double.ofDecimal_congr (by decide) ?_
    rw [← d.abs_value, hd]
  have hfinite := hstored.ofDecimal_lt_infinity
  have hunits := hstored.binade_le_units hzero
  have hcode := BinaryFloat.code_ofDecimal hfinite
  rw [hsame] at hfinite hunits hcode
  rcases ofDouble_cases (.ofDecimal d) with ⟨i, hi, hscaled, heq⟩ | heq
  · have hM := BinaryFloat.magnitude_eq_natAbs hscaled
    have hnear := FloatFormat.double.abs_magnitude_ofDecimal_sub_le (by decide) hfinite hunits
    rw [← hcode, hM, ← hd, show FloatFormat.double.fractionBits + 1 = 53 from rfl] at hnear
    have hmagnitude : ((i.natAbs : Nat) : ℚ) = |d.value| := by
      refine eq_natAbs_of_fewDigits hc hd hrange ?_ hnear ?_
      · have hbounds := IntegerRange.contains_iff.mp hi
        simp only [IntegerRange.int64] at hbounds
        omega
      · intro n hn hvalue
        have hwhole : FloatFormat.double.ofDecimal c e = FloatFormat.double.ofDecimal n 0 := by
          refine FloatFormat.double.ofDecimal_congr (by decide) ?_
          rw [← hd, hvalue, zpow_zero, mul_one]
        rw [hcode, hwhole, FloatFormat.double.magnitude_ofDecimal_whole (by decide) (by decide) hn]
          at hM
        exact_mod_cast hM.symm
    rw [heq, written, toInt_ofInt hi, d.value_eq_sign_mul, ← hmagnitude,
      BinaryFloat.eq_sign_mul_natAbs hscaled]
    rfl
  · rw [heq, written, hcode, d.value_eq_sign_mul, hd,
      ← FloatFormat.double.shortest_ofDecimal (by decide) (by decide) (by decide) (by decide +kernel)
        hc hfinite hunits, ← mul_assoc, ← cast_signedInt]
    rfl

/-- **Few digits are kept.** -/
theorem kept_of_fewDigits {text : String} (hstorable : Storable text) (h : FewDigits text) :
    Kept text := by
  obtain ⟨n, hn⟩ := hstorable.exists_ofText?
  rcases h with ⟨i, hi⟩ | ⟨q, hq, hrange, c, e, hc, hvalue⟩
  · exact kept_of_read hi
  · obtain ⟨q', hq', hstored⟩ := hstorable
    rw [hq, Option.some.injEq] at hq'
    rw [← hq'] at hstored
    rw [← written_eq_iff hn hq]
    cases ofText?_eq_some_iff.mp hn with
    | numeral hread => exact (written_eq_iff hn hq).mpr (kept_of_read hread)
    | decimal _ hd _ =>
      rw [textValue?, hd, Option.map_some, Option.some.injEq] at hq
      rw [← hq] at hstored hrange hvalue ⊢
      exact written_ofDouble_of_fewDigits hstored hrange hc hvalue

end Number

end ItemStore
