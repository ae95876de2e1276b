import ItemStore.Proofs.Ordering
import ItemStore.Proofs.Storage

/-!
# Sets of integers

Data has integers of 64 bits with a sign and without.  Serialized they are numerals, and a field
that is stored as a set has these read as numbers: a numeral of 64 bits with a sign as its
integer, and a longer one as the nearest double, which is written by its fewest digits.  So what
is stored is the set of what the integers are kept as.  Two of them may be kept as the same
number, and one may be kept as a number that is beyond 64 bits.

No integer is lost or changed if, and only if, each is kept as itself.  One direction is that what
an integer is kept as is always kept as itself: if the numbers that are stored are the integers
that were given, each of these is what some integer is kept as.

## Main definitions

* `Data.integer?` — the integer of data of one of the two types.
* `Number.ofInteger` — the number that the text of an integer is read as.

## Main results

* `Number.ofText?_intText` — what the text of an integer is read as.
* `Number.written_ofInteger_of_written` — what an integer is kept as is kept as itself.
* `Encoding.decode_encode_integers` — what a set of integers is stored and read back as.
-/

namespace ItemStore

/-- The text of an integer denotes it. -/
theorem textValue?_intText (i : Int) : textValue? (Data.intText i) = some (i : ℚ) := by
  -- Some range has the integer.
  let range : IntegerRange := ⟨-(i.natAbs + 1), i.natAbs⟩
  have hleast : range.least < 0 := by
    show -((i.natAbs : Int) + 1) < 0
    omega
  have hgreatest : 0 ≤ range.greatest := Int.natCast_nonneg _
  have hcontains : range.contains i := by
    rw [IntegerRange.contains_iff]
    show -((i.natAbs : Int) + 1) ≤ i ∧ i ≤ i.natAbs
    omega
  apply textValue?_of_read hleast hgreatest
  rw [Data.intText, String.toList_ofList]
  exact IntegerRange.read_integerText hleast hgreatest hcontains

theorem Data.natText_eq_intText (n : Nat) : natText n = intText n := by
  rw [intText, integerText, if_neg (by omega)]
  rfl

namespace BinaryFloat

/-- The double nearest to an integer is that nearest to it as a decimal. -/
theorem ofDecimal_wholeDecimal (i : Int) :
    (ofDecimal (Number.wholeDecimal i) : Double) = ofInt i := by
  have hcode : FloatFormat.double.ofDecimal i.natAbs 0 = FloatFormat.double.nearest i.natAbs 1 := by
    rw [FloatFormat.double.ofDecimal_eq_nearestDecimal (by decide)]
    exact FloatFormat.double.nearestDecimal_ofNat i.natAbs 0 |>.trans (by simp)
  rw [ofDecimal, ofInt]
  exact congrArg (ofCode _) hcode

end BinaryFloat

namespace Number

/-- The number that the text of an integer is read as. -/
def ofInteger (i : Int) : Number :=
  if IntegerRange.int64.contains i then .integer (.ofInt i) else .float (.ofInt i)

/-- The integers of 64 bits, with or without a sign. -/
def IsWord (i : Int) : Prop := -(2 ^ 63) ≤ i ∧ i < 2 ^ 64

/-- Words are not rounded to infinity. -/
theorem IsWord.ofDecimal_lt {i : Int} (h : IsWord i) :
    FloatFormat.double.ofDecimal (wholeDecimal i).coefficient (wholeDecimal i).exponent <
      FloatFormat.double.infinity := by
  apply FloatFormat.double.ofDecimal_lt_infinity (by decide)
  have hle : i.natAbs ≤ 2 ^ 64 := by
    unfold IsWord at h
    omega
  calc ((wholeDecimal i).coefficient : ℚ) * 10 ^ (wholeDecimal i).exponent
      = (i.natAbs : ℚ) := by
        show (i.natAbs : ℚ) * 10 ^ (0 : Int) = i.natAbs
        rw [zpow_zero, mul_one]
    _ ≤ ((2 ^ 64 : Nat) : ℚ) := Nat.cast_le.mpr hle
    _ < 2 ^ (FloatFormat.double.maxExponent - 1) := by
        have hlt : 2 ^ 64 < 2 ^ (FloatFormat.double.maxExponent - 1) :=
          Nat.pow_lt_pow_right (by decide) (by decide)
        exact_mod_cast hlt

/-- What is too long for an integer of 64 bits with a sign is rounded to a double that is so too. -/
theorem ofDouble_ofInt {i : Int} (hword : IsWord i) (h : integerBound ≤ i) :
    ofDouble (.ofInt i) = .float (.ofInt i) := by
  rcases ofDouble_cases (.ofInt i) with ⟨j, hj, hscaled, -⟩ | hfloat
  · exfalso
    obtain ⟨hfinite, hbound⟩ := representable_integerBound.ofDecimal_lt
    have hvalue : (wholeDecimal integerBound).value ≤ (wholeDecimal i).value := by
      rw [value_wholeDecimal, value_wholeDecimal]
      exact Int.cast_le.mpr h
    have hround := BinaryFloat.scaled_ofDecimal_mono (by decide) hfinite hword.ofDecimal_lt hvalue
    rw [BinaryFloat.ofDecimal_wholeDecimal i, hbound, hscaled] at hround
    have hle : integerBound ≤ j := by
      by_contra hlt
      exact absurd hround (not_le.mpr (mul_one_lt_iff.mpr (not_le.mp hlt)))
    have hgreatest : j ≤ 9223372036854775807 := (IntegerRange.contains_iff.mp hj).2
    unfold integerBound at hle
    omega
  · exact hfloat

/-- The text of an integer that is too long is not the numeral of another one. -/
theorem read_intText_ne {i : Int} (h : ¬ IntegerRange.int64.contains i) (j : Int) :
    IntegerRange.int64.read (Data.intText i).toList ≠ .ok j := by
  intro hj
  have hvalue := textValue?_of_read (by decide) (by decide) hj
  rw [textValue?_intText, Option.some.injEq, Int.cast_inj] at hvalue
  rw [hvalue] at h
  exact h ((IntegerRange.read_eq_ok_iff (by decide) (by decide)).mp hj).2.2.2

/-- **What the text of an integer is read as.** -/
theorem ofText?_intText {i : Int} (hword : IsWord i) :
    ofText? (Data.intText i) = some (ofInteger i) := by
  rw [ofText?_eq_some_iff, ofInteger]
  by_cases hi : IntegerRange.int64.contains i
  · rw [if_pos hi]
    refine .numeral ?_
    rw [Data.intText, String.toList_ofList]
    exact IntegerRange.read_integerText (by decide) (by decide) hi
  · have hlong : integerBound ≤ i := by
      have hout : ¬ (-9223372036854775808 ≤ i ∧ i ≤ 9223372036854775807) := fun h =>
        hi (IntegerRange.contains_iff.mpr h)
      unfold IsWord at hword
      unfold integerBound
      omega
    obtain ⟨d, hd, hvalue⟩ := textValue?_eq_some_iff.mp (textValue?_intText i)
    rw [← value_wholeDecimal] at hvalue
    have hread : ofDouble (.ofDecimal d) = .float (.ofInt i) := by
      rw [ofDouble_ofDecimal_congr hvalue, BinaryFloat.ofDecimal_wholeDecimal,
        ofDouble_ofInt hword hlong]
    have hfinite : BinaryFloat.isFinite (.ofDecimal d : Double) := by
      apply BinaryFloat.isFinite_ofDecimal
      rw [FloatFormat.double.ofDecimal_eq_of_value (by decide) hvalue]
      exact hword.ofDecimal_lt
    rw [if_neg hi, ← hread]
    exact .decimal (read_intText_ne hi) hd hfinite

theorem written_ofInteger_of_contains {i : Int} (h : IntegerRange.int64.contains i) :
    (ofInteger i).written = i := by
  rw [ofInteger, if_pos h, written, toInt_ofInt h]

/-- What an integer is kept as is kept as itself. -/
theorem written_ofInteger_of_written {i j : Int} (hi : IsWord i) (hj : IsWord j)
    (h : (ofInteger j).written = i) : (ofInteger i).written = i := by
  by_cases hcontains : IntegerRange.int64.contains j
  · rw [written_ofInteger_of_contains hcontains, Int.cast_inj] at h
    rw [← h]
    exact written_ofInteger_of_contains hcontains
  · rw [← h]
    apply written_of_textValue? (ofText?_intText hj) (read_intText_ne hcontains)
      (ofText?_intText hi)
    rw [textValue?_intText, h]

end Number

/-! ### Data of the integer types -/

namespace Data

/-- The integer of data of one of the integer types of 64 bits. -/
def integer? : Data → Option Int
  | .int64 i => some i.toInt
  | .uint64 n => some n.toNat
  | _ => none

theorem isWord_of_integer? {d : Data} {i : Int} (h : d.integer? = some i) : Number.IsWord i := by
  unfold Number.IsWord
  cases d with
  | int64 j =>
    cases h
    have hleast := j.le_toInt
    have hgreatest := j.toInt_lt
    omega
  | uint64 n =>
    cases h
    have hlt := n.toNat_lt
    omega
  | _ => cases h

theorem serialize_of_integer? {d : Data} {i : Int} (h : d.integer? = some i) :
    d.serialize = .ok (.number (intText i)) := by
  cases d with
  | int64 j =>
    cases h
    rfl
  | uint64 n =>
    cases h
    rw [serialize, natText_eq_intText]
  | _ => cases h

/-- Integers are serialized as their numerals. -/
theorem serializeItems_of_integers {items : List Data} {is : List Int}
    (h : items.map integer? = is.map some) :
    serializeItems items = .ok (is.map fun i => .number (intText i)) := by
  induction items generalizing is with
  | nil =>
    cases is with
    | nil => rfl
    | cons i is => cases h
  | cons d items ih =>
    cases is with
    | nil => cases h
    | cons i is =>
      rw [List.map_cons, List.map_cons, List.cons.injEq] at h
      rw [serializeItems, serialize_of_integer? h.1, ih h.2]
      rfl

theorem isWord_of_integers {items : List Data} {is : List Int}
    (h : items.map integer? = is.map some) : ∀ i ∈ is, Number.IsWord i := by
  intro i hi
  have hmem : some i ∈ items.map integer? := h ▸ List.mem_map.mpr ⟨i, hi, rfl⟩
  obtain ⟨d, -, hd⟩ := List.mem_map.mp hmem
  exact isWord_of_integer? hd

end Data

namespace Encoding

/-- The numerals of integers are stored as the set of what the integers are kept as. -/
theorem encode_numerals {is : List Int} (hne : is ≠ []) (hword : ∀ i ∈ is, Number.IsWord i) :
    ∃ texts, set.encode (.list (is.map fun i => .number (Data.intText i))) =
        .ok (some (.numberSet texts)) ∧
      ∀ q, q ∈ texts.map textValue? ↔ ∃ i ∈ is, some (Number.ofInteger i).written = q := by
  have hread : ∀ i ∈ is, Number.ofText? (Data.intText i) = some (.ofInteger i) := fun i hi =>
    Number.ofText?_intText (hword i hi)
  have hdecode : Value.decodeItems (is.map fun i => .number (Data.intText i)) =
      .ok ((is.map Number.ofInteger).map .number) := by
    rw [List.map_map]
    apply Value.decodeItems_map
    intro i hi
    rw [Value.decode, Value.decodeNumber_eq_ok.mpr (hread i hi)]
    rfl
  have hnumbers : is.map Number.ofInteger ≠ [] := by simpa using hne
  have hnumeral : ∀ n ∈ is.map Number.ofInteger, ∃ t, Number.ofText? t = some n := by
    intro n hn
    obtain ⟨i, hi, rfl⟩ := List.mem_map.mp hn
    exact ⟨_, hread i hi⟩
  have htext : ∀ n ∈ (SortedSet.ofList (is.map Number.ofInteger)).elements,
      ∃ text, n.text? = some text := by
    intro n hn
    obtain ⟨t, ht⟩ := hnumeral n (SortedSet.mem_of_mem_ofList hn)
    exact Number.exists_text_of_ofText? ht
  obtain ⟨texts, htexts, hvalues⟩ := Value.exists_mapM_encodeNumber htext
  refine ⟨texts, ?_, ?_⟩
  · refine encode_set (by simpa using hne) (map_eq_ok.mpr ⟨_, hdecode, rfl⟩)
      (Value.toSet_numbers hnumbers) ?_
    exact bind_eq_ok.mpr ⟨_, Value.encodeElements_ofList hnumbers,
      bind_eq_ok.mpr ⟨texts, htexts, rfl⟩⟩
  · intro q
    rw [hvalues, Number.mem_written_ofList hnumeral, List.map_map]
    exact List.mem_map

/-- **A set of integers that is stored and read back.**

A sequence of integers, with a sign or without, is serialized as a list of numerals, which is
stored as a set of numbers and read back as a list of numbers.  These denote what the integers are
kept as.  They denote the integers themselves, with none changed, merged with another or lost, if,
and only if, each integer is kept as itself. -/
theorem decode_encode_integers {items : List Data} {is : List Int} (hne : items ≠ [])
    (hitems : items.map Data.integer? = is.map some) :
    ∃ w texts, (Data.sequence items).serialize = .ok w ∧
      set.encode w = .ok (some (.numberSet texts)) ∧
      set.decode (.numberSet texts) = .list (texts.map .number) ∧
      (∀ q, q ∈ texts.map textValue? ↔ ∃ i ∈ is, some (Number.ofInteger i).written = q) ∧
      ((∀ q, q ∈ texts.map textValue? ↔ ∃ i ∈ is, some (i : ℚ) = q) ↔
        ∀ i ∈ is, (Number.ofInteger i).written = i) := by
  have hword := Data.isWord_of_integers hitems
  have his : is ≠ [] := by
    rintro rfl
    exact hne (List.map_eq_nil_iff.mp hitems)
  obtain ⟨texts, hencode, hkept⟩ := encode_numerals his hword
  refine ⟨_, texts, map_eq_ok.mpr ⟨_, Data.serializeItems_of_integers hitems, rfl⟩, hencode, rfl,
    hkept, ?_⟩
  constructor
  · intro hgiven i hi
    -- Some integer is kept as this one.
    obtain ⟨j, hj, heq⟩ := (hkept (some (i : ℚ))).mp ((hgiven _).mpr ⟨i, hi, rfl⟩)
    exact Number.written_ofInteger_of_written (hword i hi) (hword j hj) (Option.some.inj heq)
  · intro hself q
    rw [hkept]
    apply exists_congr
    intro i
    apply and_congr_right
    intro hi
    rw [hself i hi]

/-- A negative integer that is given twice, the largest of 64 bits with a sign, and one beyond it
that no double is but that is the text of the nearest. -/
theorem decode_encode_integers_mixed :
    let is : List Int := [-5, 9223372036854775807, 9223372036854776000, -5]
    ∃ w texts, (Data.sequence [.int64 (-5), .uint64 9223372036854775807,
        .uint64 9223372036854776000, .int64 (-5)]).serialize = .ok w ∧
      set.encode w = .ok (some (.numberSet texts)) ∧
      set.decode (.numberSet texts) = .list (texts.map .number) ∧
      ∀ q, q ∈ texts.map textValue? ↔ ∃ i ∈ is, some (i : ℚ) = q := by
  intro is
  let items : List Data := [.int64 (-5), .uint64 9223372036854775807,
    .uint64 9223372036854776000, .int64 (-5)]
  have hne : items ≠ [] := List.cons_ne_nil _ _
  have hitems : items.map Data.integer? = is.map some := rfl
  obtain ⟨w, texts, hserialize, hencode, hdecode, -, hiff⟩ := decode_encode_integers hne hitems
  refine ⟨w, texts, hserialize, hencode, hdecode, hiff.mpr ?_⟩
  have hlong : Number.ofInteger 9223372036854776000 =
      .float (.ofCode false Number.longCode) := by decide +kernel
  intro i hi
  simp only [is, List.mem_cons, List.not_mem_nil, or_false] at hi
  rcases hi with rfl | rfl | rfl | rfl
  · exact Number.written_ofInteger_of_contains (by decide)
  · exact Number.written_ofInteger_of_contains (by decide)
  · rw [hlong, Number.written_longCode]
    norm_num
  · exact Number.written_ofInteger_of_contains (by decide)

/-- The two largest integers of 64 bits without a sign are kept as one number, which is larger
than both. -/
theorem decode_encode_integers_ne :
    ∃ w, (Data.sequence [.uint64 18446744073709551614, .uint64 18446744073709551615]).serialize =
        .ok w ∧
      set.encode w = .ok (some (.numberSet ["18446744073709552000"])) ∧
      set.decode (.numberSet ["18446744073709552000"]) =
        .list [.number "18446744073709552000"] := by
  refine ⟨.list [.number "18446744073709551614", .number "18446744073709551615"], ?_, ?_, rfl⟩
  · have htext : natText (18446744073709551614 : UInt64).toNat = "18446744073709551614" := by
      decide +kernel
    have htext' : natText (18446744073709551615 : UInt64).toNat = "18446744073709551615" := by
      decide +kernel
    simp only [Data.serialize, Data.serializeItems, htext, htext']
    rfl
  · -- Both are read as the double `2 ^ 64`.
    have hread : Number.ofText? "18446744073709551614" =
        some (.float (.ofCode false 0x43f0000000000000)) := by decide +kernel
    have hread' : Number.ofText? "18446744073709551615" =
        some (.float (.ofCode false 0x43f0000000000000)) := by decide +kernel
    have htext : Number.text? (.float (.ofCode false 0x43f0000000000000)) =
        some "18446744073709552000" := by decide +kernel
    let n : Number := .float (.ofCode false 0x43f0000000000000)
    have helements : (SortedSet.ofList [n, n]).elements = [n] := by decide +kernel
    have hdecode : Value.decode (.list [.number "18446744073709551614",
        .number "18446744073709551615"]) = .ok (.list ([n, n].map .number)) := by
      simp only [Value.decode, Value.decodeItems, Value.decodeNumber, hread, hread']
      rfl
    refine encode_set (List.cons_ne_nil _ _) hdecode
      (Value.toSet_numbers (List.cons_ne_nil _ _)) ?_
    refine bind_eq_ok.mpr ⟨_, Value.encodeElements_ofList (List.cons_ne_nil _ _), ?_⟩
    rw [helements]
    simp only [List.mapM_cons, List.mapM_nil, Value.encodeNumber, n, htext]
    rfl

end Encoding

end ItemStore
