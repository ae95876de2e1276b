/-!
# Integer numerals

An integer is written as an optional minus sign and decimal digits.  It is read for a
range of integers: reading goes digit by digit and stops at the first character that
is no digit or that takes the number out of the range, whichever comes first.  A plus
sign is accepted everywhere, a minus sign only where the range has negative numbers.

## Main definitions

* `IntegerRange` — an interval of integers; `int64`, `uint64`, `byte`.
* `IntegerFault` — why a text is no integer of a range.
* `IntegerRange.read` — the integer that a text denotes.
* `integerText` — the text of an integer.
-/

namespace ItemStore

/-- The decimal digits of an integer, after a minus sign if it is negative. -/
def integerText (i : Int) : List Char :=
  if i < 0 then '-' :: Nat.toDigits 10 i.natAbs else Nat.toDigits 10 i.natAbs

/-- An interval of integers. -/
structure IntegerRange where
  least : Int
  greatest : Int
  deriving DecidableEq

/-- Why a text does not denote an integer of a range. -/
inductive IntegerFault
  | empty
  /-- A character is not a digit, or there is a sign alone. -/
  | invalidDigit
  | tooLarge
  | tooSmall
  deriving DecidableEq

namespace IntegerRange

/-- Integers of 64 bits with a sign. -/
def int64 : IntegerRange := ⟨-9223372036854775808, 9223372036854775807⟩

/-- Integers of 64 bits without a sign. -/
def uint64 : IntegerRange := ⟨0, 18446744073709551615⟩

/-- Integers of 8 bits without a sign. -/
def byte : IntegerRange := ⟨0, 255⟩

/-- Membership, as a test. -/
def contains (range : IntegerRange) (i : Int) : Bool :=
  decide (range.least ≤ i) && decide (i ≤ range.greatest)

/-- Read the digits of a number that is not negative, on top of `acc`. -/
def readUp (range : IntegerRange) (acc : Int) : List Char → Except IntegerFault Int
  | [] => .ok acc
  | c :: cs =>
    if c.isDigit then
      let next := 10 * acc + (c.toNat - '0'.toNat : Nat)
      if next ≤ range.greatest then readUp range next cs else .error .tooLarge
    else .error .invalidDigit

/-- Read the digits of a number that is not positive, on top of `acc`. -/
def readDown (range : IntegerRange) (acc : Int) : List Char → Except IntegerFault Int
  | [] => .ok acc
  | c :: cs =>
    if c.isDigit then
      let next := 10 * acc - (c.toNat - '0'.toNat : Nat)
      if range.least ≤ next then readDown range next cs else .error .tooSmall
    else .error .invalidDigit

/-- The integer of the range that a text denotes. -/
def read (range : IntegerRange) : List Char → Except IntegerFault Int
  | [] => .error .empty
  | ['+'] => .error .invalidDigit
  | ['-'] => .error .invalidDigit
  | '+' :: cs => readUp range 0 cs
  | '-' :: cs => if range.least < 0 then readDown range 0 cs else .error .invalidDigit
  | cs => readUp range 0 cs

end IntegerRange

end ItemStore
