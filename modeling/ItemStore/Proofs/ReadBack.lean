import ItemStore.Number
import ItemStore.Proofs.Nearest
import ItemStore.Proofs.Numeral

/-!
# Numbers read back

The text of a finite floating-point number denotes that number.  It is read as an integer
first, though, and the shortest digits of a large whole number, filled up with zeros, are
the digits of an integer next to it.  So what is read back is the number except where its
text is an integer of 64 bits that is another number.

## Main definitions

* `BinaryFloat.writtenInt?` — the integer that the text of a number denotes.
* `Number.readBack` — the number that the text of a number denotes.
* `Number.Exact` — the number is not written as another integer.

## Main results

* `BinaryFloat.ofText_plainText` — the text of a finite number denotes it.
* `Number.ofText?_text?` — what the text of a number is read as.
* `Number.rank_readBack` — an exact number, and no other, reads back as an equal one.
* `Number.exact_of_lt` — numbers of at most 53 binary digits before the point are exact.
-/

namespace ItemStore

open Std

theorem natAbs_signedInt (negative : Bool) (n : Nat) : (signedInt negative n).natAbs = n := by
  cases negative with
  | false => rfl
  | true => simp [signedInt]

theorem signedInt_mul (negative : Bool) (n m : Nat) :
    signedInt negative (n * m) = signedInt negative n * (m : Int) := by
  cases negative with
  | false => simp [signedInt]
  | true => simp [signedInt]

/-- Zeros before the point do not change the nearest code. -/
theorem FloatFormat.ofDecimal_laidOut (F : FloatFormat) (hF : 2 ≤ F.exponentBits)
    (coefficient : Nat) (exponent : Int) :
    F.ofDecimal (Decimal.laidOut coefficient exponent).1 (Decimal.laidOut coefficient exponent).2 =
      F.ofDecimal coefficient exponent := by
  cases exponent with
  | ofNat k =>
    rw [Decimal.laidOut, F.ofDecimal_eq_nearestDecimal hF, F.ofDecimal_eq_nearestDecimal hF,
      F.nearestDecimal_mul_pow, Int.zero_add]
    rfl
  | negSucc k => rfl

theorem FloatFormat.cast_one_ne_zero (F : FloatFormat) : (F.one : Int) ≠ 0 := by
  have hpos := F.one_pos
  omega

/-- Positional digits start with a digit. -/
theorem Digits.exists_positional_eq_cons (n : Nat) (exponent : Int) :
    ∃ c cs, Digits.positional (Nat.toDigits 10 n) exponent = c :: cs ∧ c.isDigit := by
  have hdigits : ∀ c ∈ Nat.toDigits 10 n, c.isDigit := fun c hc =>
    Nat.isDigit_of_mem_toDigits (by decide) (by decide) hc
  obtain ⟨d, ds, hds⟩ := List.exists_cons_of_ne_nil (Nat.toDigits_ne_nil (n := n) (b := 10))
  rw [hds] at hdigits ⊢
  have hd : d.isDigit := hdigits d (List.mem_cons_self ..)
  cases exponent with
  | ofNat k => exact ⟨d, ds ++ List.replicate k '0', rfl, hd⟩
  | negSucc k =>
    rw [Digits.positional]
    by_cases hplaces : k + 1 < (d :: ds).length
    · obtain ⟨m, hm⟩ : ∃ m, (d :: ds).length - (k + 1) = m + 1 :=
        ⟨(d :: ds).length - (k + 1) - 1, by omega⟩
      rw [if_pos hplaces, hm]
      exact ⟨d, ds.take m ++ '.' :: ds.drop m, rfl, hd⟩
    · rw [if_neg hplaces]
      exact ⟨'0', _, rfl, rfl⟩

/-! ### Floating-point numbers -/

namespace BinaryFloat

variable {F : FloatFormat}

theorem ofCode_self (x : BinaryFloat F) : ofCode x.negative x.code = x := by
  obtain ⟨negative, code, hcode⟩ := x
  simp only [ofCode, Nat.mod_eq_of_lt hcode]

theorem scaled_eq_signedInt (x : BinaryFloat F) :
    x.scaled = signedInt x.negative (F.units x.code) := rfl

theorem code_lt_infinity {x : BinaryFloat F} (hx : x.isFinite) : x.code < F.infinity := by
  simpa [isFinite] using hx

/-- A number that equals an integer has its magnitude. -/
theorem units_eq_natAbs_mul {x : BinaryFloat F} {i : Int} (h : x.scaled = i * (F.one : Int)) :
    F.units x.code = i.natAbs * F.one := by
  rw [← natAbs_signedInt x.negative (F.units x.code), ← scaled_eq_signedInt, h, Int.natAbs_mul,
    Int.natAbs_natCast]

/-- The sign and the digits of a text come apart again. -/
theorem splitSign_signed (x : BinaryFloat F) {c : Char} (hc : c.isDigit) (cs : List Char) :
    splitSign (x.signed (c :: cs)) = (x.negative, c :: cs) := by
  unfold signed
  cases x.negative with
  | false => exact splitSign_of_isDigit hc cs
  | true => rfl

/-- The text of a finite number is its sign and its digits. -/
theorem plainText_of_isFinite {x : BinaryFloat F} (hx : x.isFinite) :
    x.plainText.toList = x.signed (Digits.positional
      (Nat.toDigits 10 (F.shortest x.code).1) (F.shortest x.code).2) := by
  have hnan : x.isNaN = false := by
    have hcode := code_lt_infinity hx
    rw [isNaN, decide_eq_false_iff_not]
    omega
  simp only [plainText, exceptionalText?, hnan, hx, digits, Bool.false_eq_true, if_false, if_true,
    Option.getD_none, String.toList_ofList]

theorem splitSign_plainText {x : BinaryFloat F} (hx : x.isFinite) :
    splitSign x.plainText.toList = (x.negative, Digits.positional
      (Nat.toDigits 10 (F.shortest x.code).1) (F.shortest x.code).2) := by
  obtain ⟨c, cs, hpositional, hc⟩ :=
    Digits.exists_positional_eq_cons (F.shortest x.code).1 (F.shortest x.code).2
  rw [plainText_of_isFinite hx, hpositional, splitSign_signed x hc]

/-- The text of a finite number is read as the decimal of its sign and its digits. -/
theorem decimal_plainText {x : BinaryFloat F} (hx : x.isFinite) :
    Decimal.ofText? x.plainText.toList = some
      ⟨x.negative, (Decimal.laidOut (F.shortest x.code).1 (F.shortest x.code).2).1,
        (Decimal.laidOut (F.shortest x.code).1 (F.shortest x.code).2).2⟩ := by
  rw [Decimal.ofText?, splitSign_plainText hx]
  simp only [Decimal.magnitudeOfText?_positional, Option.map_some]

/-- **The text of a finite number denotes it.** -/
theorem ofText_plainText (hF : 2 ≤ F.exponentBits) {x : BinaryFloat F} (hx : x.isFinite) :
    ofText x.plainText.toList = .ok x := by
  unfold ofText
  simp only [decimal_plainText hx]
  rw [ofDecimal, F.ofDecimal_laidOut hF, F.ofDecimal_shortest hF (code_lt_infinity hx),
    ofCode_self]

/-- Which numbers are integers. -/
theorem toInt?_eq_some_iff {x : BinaryFloat F} {i : Int} :
    x.toInt? = some i ↔ x.isFinite ∧ x.scaled = i * (F.one : Int) := by
  unfold toInt?
  constructor
  · intro h
    split at h
    · next hwhole =>
      rw [Bool.and_eq_true, beq_iff_eq] at hwhole
      refine ⟨hwhole.1, ?_⟩
      rw [← Option.some.inj h]
      exact (Int.ediv_mul_cancel (Int.dvd_of_emod_eq_zero hwhole.2)).symm
    · cases h
  · rintro ⟨hfinite, hscaled⟩
    rw [hscaled, if_pos, Int.mul_ediv_cancel _ F.cast_one_ne_zero]
    rw [Bool.and_eq_true, beq_iff_eq]
    exact ⟨hfinite, Int.mul_emod_left _ _⟩

/-- The integer of a range that the text of a number denotes: its digits, filled up with
zeros, if none of them stands after the point. -/
def writtenInt? (range : IntegerRange) (x : BinaryFloat F) : Option Int :=
  match F.shortest x.code with
  | (coefficient, .ofNat k) =>
    let i := signedInt x.negative (coefficient * 10 ^ k)
    if range.contains i then some i else none
  | (_, .negSucc _) => none

theorem read_plainText {range : IntegerRange} (hleast : range.least < 0)
    (hgreatest : 0 ≤ range.greatest) {x : BinaryFloat F} (hx : x.isFinite) {i : Int} :
    range.read x.plainText.toList = .ok i ↔ x.writtenInt? range = some i := by
  rw [IntegerRange.read_eq_ok_iff hleast hgreatest, splitSign_plainText hx, writtenInt?]
  obtain ⟨coefficient, exponent⟩ := F.shortest x.code
  cases exponent with
  | ofNat k =>
    have hdigits : ∀ c ∈ Nat.toDigits 10 coefficient ++ List.replicate k '0', c.isDigit := by
      intro c hc
      rcases List.mem_append.mp hc with hc | hc
      · exact Nat.isDigit_of_mem_toDigits (by decide) (by decide) hc
      · obtain rfl := List.eq_of_mem_replicate hc
        rfl
    have hne : Nat.toDigits 10 coefficient ++ List.replicate k '0' ≠ [] := by
      simp [Nat.toDigits_ne_nil]
    simp only [Digits.positional, Nat.ofDigitChars_append, Nat.ofDigitChars_ten_toDigits,
      Nat.ofDigitChars_replicate_zero, Nat.mul_comm (10 ^ k)]
    constructor
    · rintro ⟨-, -, rfl, hcontains⟩
      rw [if_pos hcontains]
    · intro h
      split at h
      · next hcontains =>
        cases h
        exact ⟨hne, hdigits, rfl, hcontains⟩
      · cases h
  | negSucc k =>
    -- The point is no digit.
    have hpoint : '.' ∈ Digits.positional (Nat.toDigits 10 coefficient) (.negSucc k) := by
      rw [Digits.positional]
      split
      · exact List.mem_append_right _ (List.mem_cons_self ..)
      · exact List.mem_cons_of_mem _ (List.mem_cons_self ..)
    constructor
    · rintro ⟨-, hdigits, -⟩
      exact absurd (hdigits '.' hpoint) (by decide)
    · rintro ⟨⟩

theorem contains_of_writtenInt? {range : IntegerRange} (x : BinaryFloat F) {i : Int}
    (h : x.writtenInt? range = some i) : range.contains i := by
  unfold writtenInt? at h
  split at h
  · simp only at h
    split at h
    · next hcontains =>
      cases h
      exact hcontains
    · cases h
  · cases h

/-- A number is nearest to the integer that its text denotes, and has its sign. -/
theorem nearest_of_writtenInt? (hF : 2 ≤ F.exponentBits) {range : IntegerRange}
    {x : BinaryFloat F} (hx : x.isFinite) {i : Int} (h : x.writtenInt? range = some i) :
    F.nearest i.natAbs 1 = x.code ∧ i = signedInt x.negative i.natAbs := by
  have hshortest := F.ofDecimal_shortest hF (code_lt_infinity hx)
  rw [F.ofDecimal_eq_nearestDecimal hF] at hshortest
  unfold writtenInt? at h
  split at h
  · next coefficient k heq =>
    rw [heq, F.nearestDecimal_ofNat, Nat.pow_eq] at hshortest
    simp only at h
    split at h
    · cases h
      rw [natAbs_signedInt]
      exact ⟨hshortest, rfl⟩
    · cases h
  · cases h

/-- If any number equals the integer that the text of a number denotes, that number does. -/
theorem scaled_eq_of_writtenInt? (hF : 2 ≤ F.exponentBits) {range : IntegerRange}
    {x z : BinaryFloat F} (hx : x.isFinite) (hz : z.isFinite) {i : Int}
    (h : x.writtenInt? range = some i) (hi : z.scaled = i * (F.one : Int)) :
    x.scaled = i * (F.one : Int) := by
  have hunits : i.natAbs * F.one = F.units z.code * 1 := by
    rw [Nat.mul_one, units_eq_natAbs_mul hi]
  obtain ⟨hnearest, hsign⟩ := nearest_of_writtenInt? hF hx h
  -- Both codes are nearest to the integer: one is read from its digits, one is its own.
  have hsame : x.code = z.code := by
    rw [← hnearest]
    exact F.nearest_eq_of_units (by decide) (code_lt_infinity hz).le hunits
  rw [scaled_eq_signedInt, hsame, ← Nat.mul_one (F.units z.code), ← hunits, signedInt_mul,
    ← hsign]

end BinaryFloat

/-! ### Numbers -/

namespace Number

theorem int64_contains_toInt (i : Int64) : IntegerRange.int64.contains i.toInt := by
  have hleast := Int64.le_toInt i
  have hgreatest := Int64.toInt_lt i
  exact IntegerRange.contains_iff.mpr ⟨hleast, Int.lt_add_one_iff.mp hgreatest⟩

theorem toInt_ofInt {i : Int} (h : IntegerRange.int64.contains i) : (Int64.ofInt i).toInt = i := by
  obtain ⟨hleast, hgreatest⟩ := IntegerRange.contains_iff.mp h
  exact Int64.toInt_ofInt_of_le hleast (Int.lt_add_one_iff.mpr hgreatest)

theorem rank_float (x : Double) : (float x).rank = x.scaled := rfl

/-- A floating-point number keeps its place when it becomes an integer. -/
theorem rank_ofDouble (x : Double) : (ofDouble x).rank = x.scaled := by
  unfold ofDouble
  cases hint : x.toInt? with
  | none => rfl
  | some i =>
    have hscaled : i * (FloatFormat.double.one : Int) = x.scaled :=
      (BinaryFloat.toInt?_eq_some_iff.mp hint).2.symm
    by_cases hcontains : IntegerRange.int64.contains i
    · simp only [if_pos hcontains, rank, toInt_ofInt hcontains, hscaled]
    · simp only [if_neg hcontains, rank]

theorem isFinite_of_text? {x : Double} (h : ∃ text, (float x).text? = some text) :
    x.isFinite := by
  obtain ⟨text, h⟩ := h
  simp only [text?] at h
  split at h
  · next hx => exact hx
  · cases h

/-- The number that the text of a number denotes. -/
def readBack : Number → Number
  | .integer i => .integer i
  | .float x =>
    match x.writtenInt? .int64 with
    | some i => .integer (.ofInt i)
    | none => ofDouble x

/-- **What the text of a number is read as.** -/
theorem ofText?_text? {n : Number} {text : String} (h : n.text? = some text) :
    ofText? text = some n.readBack := by
  cases n with
  | integer i =>
    obtain rfl : String.ofList (integerText i.toInt) = text := Option.some.inj h
    have hread := IntegerRange.read_integerText (by decide) (by decide) (int64_contains_toInt i)
    rw [ofText?, String.toList_ofList, hread, readBack]
    simp only [Int64.ofInt_toInt]
  | float x =>
    obtain ⟨hx, htext⟩ : x.isFinite ∧ x.plainText = text := by simpa [text?] using h
    -- The text is read as an integer first, and that succeeds for written integers only.
    have hread : ∀ i, IntegerRange.int64.read x.plainText.toList = .ok i ↔
        x.writtenInt? .int64 = some i :=
      fun _ => BinaryFloat.read_plainText (by decide) (by decide) hx
    rw [← htext, ofText?, readBack]
    cases hwritten : x.writtenInt? .int64 with
    | some i => rw [(hread i).mpr hwritten]
    | none =>
      cases hint : IntegerRange.int64.read x.plainText.toList with
      | ok i =>
        rw [(hread i).mp hint] at hwritten
        cases hwritten
      | error e => simp only [BinaryFloat.ofText_plainText (by decide) hx, hx, if_true]

/-- The text of the number does not denote another integer of 64 bits. -/
def Exact : Number → Prop
  | .integer _ => True
  | .float x => ∀ i ∈ x.writtenInt? .int64, i * (FloatFormat.double.one : Int) = x.scaled

theorem rank_readBack_of_writtenInt? {x : Double} {i : Int} (h : x.writtenInt? .int64 = some i) :
    (readBack (.float x)).rank = i * (FloatFormat.double.one : Int) := by
  rw [readBack, h]
  simp only [rank, toInt_ofInt (x.contains_of_writtenInt? h)]

instance : DecidablePred Exact
  | .integer _ => .isTrue trivial
  | .float x => inferInstanceAs
    (Decidable (∀ i ∈ x.writtenInt? .int64, i * (FloatFormat.double.one : Int) = x.scaled))

theorem exact_of_writtenInt?_eq_none {x : Double} (h : x.writtenInt? .int64 = none) :
    (float x).Exact := by
  intro i hi
  rw [h] at hi
  cases hi

theorem exact_iff_of_writtenInt? {x : Double} {i : Int} (h : x.writtenInt? .int64 = some i) :
    (float x).Exact ↔ i * (FloatFormat.double.one : Int) = x.scaled := by
  constructor
  · intro hexact
    exact hexact i h
  · intro heq j hj
    rw [h] at hj
    cases hj
    exact heq

/-- **An exact number, and no other, reads back as an equal one.** -/
theorem rank_readBack (n : Number) : n.readBack.rank = n.rank ↔ n.Exact := by
  cases n with
  | integer i => exact iff_of_true rfl trivial
  | float x =>
    cases hwritten : x.writtenInt? .int64 with
    | none =>
      have hback : readBack (.float x) = ofDouble x := by rw [readBack, hwritten]
      rw [hback]
      exact iff_of_true (rank_ofDouble x) (exact_of_writtenInt?_eq_none hwritten)
    | some i =>
      rw [rank_readBack_of_writtenInt? hwritten, exact_iff_of_writtenInt? hwritten, rank_float]

/-- Below the 54th binary digit a number is not written as another integer. -/
theorem exact_of_lt {x : Double} (hx : x.isFinite)
    (h : x.scaled.natAbs < 2 ^ 53 * FloatFormat.double.one) : (float x).Exact := by
  intro i hi
  obtain ⟨hnearest, hsign⟩ := BinaryFloat.nearest_of_writtenInt? (by decide) hx hi
  have hcode := BinaryFloat.code_lt_infinity hx
  rw [x.scaled_eq_signedInt] at h ⊢
  rw [natAbs_signedInt] at h
  -- A shorter integer is a double itself; a longer one is not rounded to so small a number.
  by_cases hlt : i.natAbs < 2 ^ 53
  · obtain ⟨code, hle, hunits⟩ := FloatFormat.double.exists_units_eq (by decide) (by decide) hlt
    have hsame : x.code = code := by
      rw [← hnearest]
      exact FloatFormat.double.nearest_eq_of_units (by decide) hle (by rw [hunits, Nat.mul_one])
    rw [hsame, hunits, signedInt_mul, ← hsign]
  · have hge := FloatFormat.double.le_units_of_nearest hcode hnearest (Nat.le_of_not_lt hlt)
    rw [show FloatFormat.double.fractionBits + 1 = 53 from rfl] at hge
    exact absurd h (Nat.not_lt.mpr hge)

end Number

end ItemStore
