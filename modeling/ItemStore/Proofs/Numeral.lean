import Mathlib.Data.List.TakeWhile
import Mathlib.Tactic.Ring
import ItemStore.Numeral.Float

/-!
# Reading numerals back

An integer numeral is read as the number of its digits if that number is in the range and
is refused otherwise.  Digits that are laid out with zeros as far as the point are read as
a decimal of the same digits.

## Main definitions

* `signedInt` — a natural number with a sign.

## Main results

* `IntegerRange.read_eq_ok_iff` — which texts denote which integers.
* `IntegerRange.read_integerText` — the text of an integer denotes it.
* `Decimal.magnitudeOfText?_positional` — positional digits are read as their decimal.
-/

namespace ItemStore

/-- A natural number with a sign. -/
def signedInt (negative : Bool) (n : Nat) : Int := if negative then -(n : Int) else n

/-! ### Integers -/

namespace IntegerRange

theorem contains_iff {range : IntegerRange} {i : Int} :
    range.contains i ↔ range.least ≤ i ∧ i ≤ range.greatest := by
  simp [contains]

/-- Digits that are read on top of a number only make it larger. -/
theorem le_ofDigitChars (cs : List Char) (acc : Nat) : acc ≤ Nat.ofDigitChars 10 cs acc := by
  induction cs generalizing acc with
  | nil => simp
  | cons c cs ih =>
    rw [Nat.ofDigitChars_cons]
    have h := ih (10 * acc + (c.toNat - '0'.toNat))
    omega

variable {range : IntegerRange}

/-- Digits are read upwards as their number, unless it leaves the range. -/
theorem readUp_eq_ok_iff {acc : Nat} (hacc : (acc : Int) ≤ range.greatest) {cs : List Char}
    {i : Int} :
    range.readUp acc cs = .ok i ↔
      (∀ c ∈ cs, c.isDigit) ∧ i = Nat.ofDigitChars 10 cs acc ∧ i ≤ range.greatest := by
  induction cs generalizing acc with
  | nil =>
    simp only [readUp, Except.ok.injEq, Nat.ofDigitChars_nil]
    constructor
    · rintro rfl
      exact ⟨by simp, rfl, hacc⟩
    · rintro ⟨-, rfl, -⟩
      rfl
  | cons c cs ih =>
    rw [readUp, Nat.ofDigitChars_cons]
    by_cases hdigit : c.isDigit
    · have hcast : 10 * (acc : Int) + ((c.toNat - '0'.toNat : Nat) : Int) =
          ((10 * acc + (c.toNat - '0'.toNat) : Nat) : Int) := by push_cast; rfl
      simp only [hdigit, if_true, hcast]
      by_cases hnext : ((10 * acc + (c.toNat - '0'.toNat) : Nat) : Int) ≤ range.greatest
      · rw [if_pos hnext, ih hnext]
        simp [hdigit]
      · rw [if_neg hnext]
        -- The number has left the range, and further digits do not bring it back.
        have hle := le_ofDigitChars cs (10 * acc + (c.toNat - '0'.toNat))
        constructor
        · intro h
          cases h
        · rintro ⟨-, rfl, hi⟩
          omega
    · simp [hdigit]

/-- The range of the negated integers. -/
def mirror (range : IntegerRange) : IntegerRange := ⟨-range.greatest, -range.least⟩

/-- Reading downwards is reading upwards in the negated range. -/
theorem readDown_eq_ok_iff {acc i : Int} {cs : List Char} :
    range.readDown (-acc) cs = .ok (-i) ↔ range.mirror.readUp acc cs = .ok i := by
  induction cs generalizing acc with
  | nil => simp [readDown, readUp]
  | cons c cs ih =>
    rw [readDown, readUp]
    by_cases hdigit : c.isDigit
    · have hneg : 10 * -acc - ((c.toNat - '0'.toNat : Nat) : Int) =
          -(10 * acc + ((c.toNat - '0'.toNat : Nat) : Int)) := by ring
      have hbound : range.mirror.greatest = -range.least := rfl
      simp only [hdigit, if_true, hneg]
      by_cases hnext : 10 * acc + ((c.toNat - '0'.toNat : Nat) : Int) ≤ range.mirror.greatest
      · rw [if_pos hnext, if_pos (by omega), ih]
      · rw [if_neg hnext, if_neg (by omega)]
        simp
    · simp [hdigit]

end IntegerRange

/-- A text that starts with a digit has no sign. -/
theorem splitSign_of_isDigit {c : Char} (hc : c.isDigit) (cs : List Char) :
    splitSign (c :: cs) = (false, c :: cs) := by
  unfold splitSign
  split
  · next heq =>
    cases heq
    cases hc
  · next heq =>
    cases heq
    cases hc
  · rfl

namespace IntegerRange

variable {range : IntegerRange}

/-- **Which texts denote which integers.**  A text denotes an integer of a range around zero
if it is an optional sign and at least one digit, and the number of the digits with that
sign is in the range. -/
theorem read_eq_ok_iff (hleast : range.least < 0) (hgreatest : 0 ≤ range.greatest)
    {cs : List Char} {i : Int} :
    range.read cs = .ok i ↔
      (splitSign cs).2 ≠ [] ∧ (∀ c ∈ (splitSign cs).2, c.isDigit) ∧
        i = signedInt (splitSign cs).1 (Nat.ofDigitChars 10 (splitSign cs).2 0) ∧
        range.contains i := by
  have hup : ∀ ds : List Char, ds ≠ [] → (range.readUp 0 ds = .ok i ↔ ds ≠ [] ∧
      (∀ c ∈ ds, c.isDigit) ∧ i = signedInt false (Nat.ofDigitChars 10 ds 0) ∧
        range.contains i) := by
    intro ds hds
    rw [show (0 : Int) = ((0 : Nat) : Int) from rfl, readUp_eq_ok_iff hgreatest]
    simp only [signedInt, contains_iff]
    constructor
    · rintro ⟨hdigits, rfl, hle⟩
      exact ⟨hds, hdigits, rfl, by omega, hle⟩
    · rintro ⟨-, hdigits, rfl, -, hle⟩
      exact ⟨hdigits, rfl, hle⟩
  have hdown : ∀ ds : List Char, ds ≠ [] → (range.readDown 0 ds = .ok i ↔ ds ≠ [] ∧
      (∀ c ∈ ds, c.isDigit) ∧ i = signedInt true (Nat.ofDigitChars 10 ds 0) ∧
        range.contains i) := by
    intro ds hds
    have hmirror : ((0 : Nat) : Int) ≤ range.mirror.greatest := by
      show (0 : Int) ≤ -range.least
      omega
    rw [show (0 : Int) = -((0 : Nat) : Int) from rfl, show i = - -i by omega, readDown_eq_ok_iff,
      readUp_eq_ok_iff hmirror]
    simp only [signedInt, contains_iff, if_true, mirror]
    constructor
    · rintro ⟨hdigits, hi, hle⟩
      exact ⟨hds, hdigits, by omega, by omega, by omega⟩
    · rintro ⟨-, hdigits, hi, hle, -⟩
      exact ⟨hdigits, by omega, by omega⟩
  -- A sign alone is refused; with digits after it, it says which way they are read.
  unfold read
  split
  · simp [splitSign]
  · simp [splitSign]
  · simp [splitSign]
  · next ds hds =>
    exact hup ds (by rintro rfl; exact hds rfl)
  · next ds hds =>
    rw [if_pos hleast]
    exact hdown ds (by rintro rfl; exact hds rfl)
  · next hnil _ _ hplus hminus =>
    have hsplit : splitSign cs = (false, cs) := by
      unfold splitSign
      split
      · exact absurd rfl (hminus _)
      · exact absurd rfl (hplus _)
      · rfl
    rw [hsplit]
    exact hup cs hnil

/-- The text of an integer of the range denotes it. -/
theorem read_integerText (hleast : range.least < 0) (hgreatest : 0 ≤ range.greatest) {i : Int}
    (hi : range.contains i) : range.read (integerText i) = .ok i := by
  have hne : Nat.toDigits 10 i.natAbs ≠ [] := Nat.toDigits_ne_nil
  have hdigits : ∀ c ∈ Nat.toDigits 10 i.natAbs, c.isDigit := fun c hc =>
    Nat.isDigit_of_mem_toDigits (by decide) (by decide) hc
  rw [read_eq_ok_iff hleast hgreatest, integerText]
  split
  · next hneg =>
    refine ⟨hne, hdigits, ?_, hi⟩
    simp only [splitSign, Nat.ofDigitChars_ten_toDigits, signedInt, if_true]
    omega
  · next hneg =>
    have hsplit : splitSign (Nat.toDigits 10 i.natAbs) = (false, Nat.toDigits 10 i.natAbs) := by
      cases hcs : Nat.toDigits 10 i.natAbs with
      | nil => exact absurd hcs hne
      | cons c cs => exact splitSign_of_isDigit (hdigits c (hcs ▸ List.mem_cons_self ..)) cs
    rw [hsplit]
    refine ⟨hne, hdigits, ?_, hi⟩
    simp only [Nat.ofDigitChars_ten_toDigits, signedInt, Bool.false_eq_true, if_false]
    omega

end IntegerRange

/-! ### Decimals -/

namespace Decimal

/-- Digits alone are read as their number. -/
theorem magnitudeOfText?_digits {ds : List Char} (hne : ds ≠ []) (hds : ∀ c ∈ ds, c.isDigit) :
    magnitudeOfText? ds = some (Nat.ofDigitChars 10 ds 0, 0) := by
  have htake : ds.takeWhile Char.isDigit = ds := List.takeWhile_eq_self_iff.mpr hds
  have hdrop : ds.dropWhile Char.isDigit = [] := List.dropWhile_eq_nil_iff.mpr hds
  simp [magnitudeOfText?, htake, hdrop, splitFraction, exponentPart?, hne]

/-- Digits with a point among them are read as the number of all digits, the last of them
counting as many places as there are after the point. -/
theorem magnitudeOfText?_point {ws fs : List Char} (hne : ws ++ fs ≠ [])
    (hws : ∀ c ∈ ws, c.isDigit) (hfs : ∀ c ∈ fs, c.isDigit) :
    magnitudeOfText? (ws ++ '.' :: fs) =
      some (Nat.ofDigitChars 10 (ws ++ fs) 0, -(fs.length : Int)) := by
  have hpoint : ('.' : Char).isDigit = false := rfl
  have htake : (ws ++ '.' :: fs).takeWhile Char.isDigit = ws := by
    rw [List.takeWhile_append_of_pos hws, List.takeWhile_cons_of_neg (by simp [hpoint]),
      List.append_nil]
  have hdrop : (ws ++ '.' :: fs).dropWhile Char.isDigit = '.' :: fs := by
    rw [List.dropWhile_append_of_pos hws, List.dropWhile_cons_of_neg (by simp [hpoint])]
  have htake' : fs.takeWhile Char.isDigit = fs := List.takeWhile_eq_self_iff.mpr hfs
  have hdrop' : fs.dropWhile Char.isDigit = [] := List.dropWhile_eq_nil_iff.mpr hfs
  have hempty : (ws ++ fs).isEmpty = false := by simpa using hne
  simp only [magnitudeOfText?, htake, hdrop, splitFraction, htake', hdrop', hempty,
    exponentPart?, Option.map_some]
  simp

/-- The decimal as which positional digits are read: zeros before the point belong to the
coefficient. -/
def laidOut (coefficient : Nat) : Int → Nat × Int
  | .ofNat k => (coefficient * 10 ^ k, 0)
  | .negSucc k => (coefficient, .negSucc k)

/-- Positional digits are read as their decimal. -/
theorem magnitudeOfText?_positional (coefficient : Nat) (exponent : Int) :
    magnitudeOfText? (Digits.positional (Nat.toDigits 10 coefficient) exponent) =
      some (laidOut coefficient exponent) := by
  have hne : Nat.toDigits 10 coefficient ≠ [] := Nat.toDigits_ne_nil
  have hdigits : ∀ c ∈ Nat.toDigits 10 coefficient, c.isDigit := fun c hc =>
    Nat.isDigit_of_mem_toDigits (by decide) (by decide) hc
  have hzeros : ∀ n, ∀ c ∈ List.replicate n '0', c.isDigit := by
    intro n c hc
    obtain rfl := List.eq_of_mem_replicate hc
    rfl
  cases exponent with
  | ofNat k =>
    rw [Digits.positional, magnitudeOfText?_digits (by simp [hne]), Nat.ofDigitChars_append,
      Nat.ofDigitChars_ten_toDigits, Nat.ofDigitChars_replicate_zero, laidOut, Nat.mul_comm]
    intro c hc
    rcases List.mem_append.mp hc with hc | hc
    · exact hdigits c hc
    · exact hzeros k c hc
  | negSucc k =>
    rw [Digits.positional]
    -- The point stands among the digits, or zeros are put between it and them.
    by_cases hplaces : k + 1 < (Nat.toDigits 10 coefficient).length
    · rw [if_pos hplaces, magnitudeOfText?_point, List.take_append_drop,
        Nat.ofDigitChars_ten_toDigits, List.length_drop, laidOut]
      · congr 2
        omega
      · rwa [List.take_append_drop]
      · exact fun c hc => hdigits c (List.mem_of_mem_take hc)
      · exact fun c hc => hdigits c (List.mem_of_mem_drop hc)
    · rw [if_neg hplaces]
      generalize hfill : List.replicate (k + 1 - (Nat.toDigits 10 coefficient).length) '0' ++
        Nat.toDigits 10 coefficient = fs
      have hfs : ∀ c ∈ fs, c.isDigit := by
        intro c hc
        rw [← hfill] at hc
        rcases List.mem_append.mp hc with hc | hc
        · exact hzeros _ c hc
        · exact hdigits c hc
      have hlength : fs.length = k + 1 := by
        rw [← hfill, List.length_append, List.length_replicate]
        omega
      have hvalue : Nat.ofDigitChars 10 (['0'] ++ fs) 0 = coefficient := by
        rw [← hfill, List.singleton_append, Nat.ofDigitChars_cons, Nat.ofDigitChars_append,
          Nat.ofDigitChars_replicate_zero]
        simp
      have hzero : ∀ c ∈ ['0'], c.isDigit := by
        intro c hc
        obtain rfl := List.mem_singleton.mp hc
        rfl
      have hread := magnitudeOfText?_point (by simp) hzero hfs
      rw [hvalue, hlength] at hread
      exact hread

end Decimal

end ItemStore
