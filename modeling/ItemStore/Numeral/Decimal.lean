import ItemStore.Numeral.Integer

/-!
# Decimal numerals

A decimal is a sign, a coefficient and a power of ten.  As text it is an optional
sign, digits with an optional point among them, and an optional exponent.  The digits
may be missing on one side of the point, not on both.

## Main definitions

* `Decimal` — sign, coefficient and exponent.
* `Decimal.ofText?` — the decimal that a text denotes.
* `Digits.positional`, `Digits.scientific` — the two ways to lay out digits.
-/

namespace ItemStore

/-- The number `± coefficient · 10 ^ exponent`. -/
structure Decimal where
  negative : Bool
  /-- The digits, read as one number. -/
  coefficient : Nat
  /-- The power of ten that the coefficient counts. -/
  exponent : Int
  deriving DecidableEq

/-- Take an optional sign off the front: whether it is a minus, and the rest. -/
def splitSign : List Char → Bool × List Char
  | '-' :: cs => (true, cs)
  | '+' :: cs => (false, cs)
  | cs => (false, cs)

namespace Decimal

/-- The integer that an optional sign and at least one digit denote. -/
def exponentOfText? (cs : List Char) : Option Int :=
  let (negative, digits) := splitSign cs
  if digits.isEmpty || !digits.all Char.isDigit then none
  else
    let magnitude : Nat := Nat.ofDigitChars 10 digits 0
    some (if negative then -magnitude else magnitude)

/-- What follows the digits: nothing, or an exponent after its mark. -/
def exponentPart? : List Char → Option Int
  | [] => some 0
  | c :: cs => if c = 'e' ∨ c = 'E' then exponentOfText? cs else none

/-- The digits after the point, if there is a point, and the text after them. -/
def splitFraction : List Char → List Char × List Char
  | '.' :: cs => (cs.takeWhile Char.isDigit, cs.dropWhile Char.isDigit)
  | cs => ([], cs)

/-- The decimal without its sign. -/
def magnitudeOfText? (cs : List Char) : Option (Nat × Int) :=
  let whole := cs.takeWhile Char.isDigit
  let (fraction, rest) := splitFraction (cs.dropWhile Char.isDigit)
  if (whole ++ fraction).isEmpty then none
  else
    (exponentPart? rest).map fun exponent =>
      (Nat.ofDigitChars 10 (whole ++ fraction) 0, exponent - fraction.length)

/-- The decimal that a text denotes. -/
def ofText? (cs : List Char) : Option Decimal :=
  let (negative, unsigned) := splitSign cs
  (magnitudeOfText? unsigned).map fun (coefficient, exponent) =>
    ⟨negative, coefficient, exponent⟩

end Decimal

namespace Digits

/-- Digits that count `10 ^ exponent`, with zeros written out as far as the point and
no exponent. -/
def positional (digits : List Char) : Int → List Char
  | .ofNat e => digits ++ List.replicate e '0'
  | .negSucc e =>
    let places := e + 1
    if places < digits.length then
      digits.take (digits.length - places) ++ '.' :: digits.drop (digits.length - places)
    else
      '0' :: '.' :: (List.replicate (places - digits.length) '0' ++ digits)

/-- The power of ten that the first of some digits counts. -/
def leadingExponent (digits : List Char) (exponent : Int) : Int :=
  exponent + digits.length - 1

/-- Digits that count `10 ^ exponent`, with a point after the first and an exponent. -/
def scientific (digits : List Char) (exponent : Int) : List Char :=
  let mark := 'e' :: integerText (leadingExponent digits exponent)
  match digits with
  | [] => mark
  | [d] => d :: mark
  | d :: rest => d :: '.' :: (rest ++ mark)

end Digits

end ItemStore
