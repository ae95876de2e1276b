import ItemStore.Numeral.Binary

/-!
# Floating-point numbers

A floating-point number is a sign and a code of its format.  Its text is the shortest
decimal that reads back; the two layouts differ in where they turn to an exponent.

## Main definitions

* `BinaryFloat` — a floating-point number of a format; `Double` and `Single`.
* `BinaryFloat.scaled` — position on the extended line.
* `BinaryFloat.partialCompare?`, `BinaryFloat.totalCompare` — the order by value, and that of
  all bit patterns.
* `BinaryFloat.plainText` — the text without an exponent.
* `BinaryFloat.inspect` — the text inside a message.
* `BinaryFloat.ofText?` — the number that a text denotes.
-/

namespace ItemStore

/-- A floating-point number of a format: a sign and the code of a magnitude. -/
structure BinaryFloat (F : FloatFormat) where
  negative : Bool
  code : Nat
  code_lt : code < F.codes
  deriving DecidableEq

/-- Numbers of 64 bits. -/
abbrev Double := BinaryFloat .double

/-- Numbers of 32 bits. -/
abbrev Single := BinaryFloat .single

namespace BinaryFloat

variable {F : FloatFormat}

/-- A sign and a code, the code taken modulo the number of codes. -/
def ofCode (negative : Bool) (code : Nat) : BinaryFloat F :=
  ⟨negative, code % F.codes, Nat.mod_lt _ (Nat.two_pow_pos _)⟩

/-- The number of a bit pattern. -/
def ofBits (bits : Nat) : BinaryFloat F := ofCode (decide (bits / F.codes % 2 = 1)) bits

/-- The bit pattern of a number. -/
def bits (x : BinaryFloat F) : Nat := (if x.negative then F.codes else 0) + x.code

/-- Neither infinite nor without a value. -/
def isFinite (x : BinaryFloat F) : Bool := decide (x.code < F.infinity)

/-- Not a number. -/
def isNaN (x : BinaryFloat F) : Bool := decide (F.infinity < x.code)

/-- The number as a multiple of the least positive magnitude.  The infinities lie
outside all finite numbers, and what is not a number lies outside the infinities, on
the side of its sign. -/
def scaled (x : BinaryFloat F) : Int :=
  if x.negative then -(F.units x.code : Int) else F.units x.code

/-- The number without its fraction.  An infinity is an integer beyond all finite numbers. -/
def truncated (x : BinaryFloat F) : Int := x.scaled.tdiv (F.one : Int)

/-- The fraction, with the sign of the number and as a multiple of the least positive
magnitude. -/
def fraction (x : BinaryFloat F) : Int := x.scaled.tmod (F.one : Int)

/-- The order by value, which what is not a number has no part in. -/
def partialCompare? (x y : BinaryFloat F) : Option Ordering :=
  if x.isNaN || y.isNaN then none else some (compare x.scaled y.scaled)

/-- The place of a number among all bit patterns. -/
def totalKey (x : BinaryFloat F) : Int := if x.negative then -1 - (x.code : Int) else x.code

/-- The order of all bit patterns: by sign, and then by magnitude. -/
def totalCompare (x y : BinaryFloat F) : Ordering := compare x.totalKey y.totalKey

/-- The number nearest to a decimal. -/
def ofDecimal (d : Decimal) : BinaryFloat F :=
  ofCode d.negative (F.ofDecimal d.coefficient d.exponent)

/-- The number nearest to an integer. -/
def ofInt (i : Int) : BinaryFloat F := ofCode (decide (i < 0)) (F.nearest i.natAbs 1)

/-- The integer that a number equals, if it is one. -/
def toInt? (x : BinaryFloat F) : Option Int :=
  if x.isFinite && x.scaled % (F.one : Int) == 0 then some (x.scaled / (F.one : Int))
  else none

/-! ### Text -/

/-- A minus sign in front of the text of a negative number. -/
def signed (x : BinaryFloat F) (text : List Char) : List Char :=
  if x.negative then '-' :: text else text

/-- The digits of the shortest decimal that reads back, and the power of ten that the
last of them counts. -/
def digits (x : BinaryFloat F) : List Char × Int :=
  let (coefficient, exponent) := F.shortest x.code
  (Nat.toDigits 10 coefficient, exponent)

/-- The text of what is not finite, if it is not. -/
def exceptionalText? (x : BinaryFloat F) : Option (List Char) :=
  if x.isNaN then some "NaN".toList
  else if x.isFinite then none
  else some (x.signed "inf".toList)

/-- The text without an exponent. -/
def plainText (x : BinaryFloat F) : String :=
  let (digits, exponent) := x.digits
  String.ofList (x.exceptionalText?.getD (x.signed (Digits.positional digits exponent)))

/-- The text inside a message: from `10 ^ 16` on and below `10 ^ -4` with an exponent,
and otherwise with a point even for a whole number. -/
def inspect (x : BinaryFloat F) : String :=
  let (digits, exponent) := x.digits
  let leading := Digits.leadingExponent digits exponent
  let finiteText :=
    if x.code ≠ 0 ∧ (16 ≤ leading ∨ leading < -4) then Digits.scientific digits exponent
    else if 0 ≤ exponent then Digits.positional digits exponent ++ ".0".toList
    else Digits.positional digits exponent
  String.ofList (x.exceptionalText?.getD (x.signed finiteText))

/-- Why a text does not denote a floating-point number. -/
inductive Fault
  | empty
  /-- The text is no decimal and no name of an exceptional number. -/
  | invalid
  deriving DecidableEq

/-- The code that a name stands for, in letters of either case. -/
def codeOfName? (F : FloatFormat) (cs : List Char) : Option Nat :=
  match String.ofList (cs.map Char.toLower) with
  | "inf" | "infinity" => some F.infinity
  | "nan" => some (F.infinity + F.binade / 2)
  | _ => none

/-- The number that a text denotes: that nearest to its decimal, or the exceptional
number that it names. -/
def ofText (cs : List Char) : Except Fault (BinaryFloat F) :=
  match Decimal.ofText? cs with
  | some d => .ok (ofDecimal d)
  | none =>
    match codeOfName? F (splitSign cs).2 with
    | some code => .ok (ofCode (splitSign cs).1 code)
    | none => .error (if cs.isEmpty then .empty else .invalid)

end BinaryFloat

end ItemStore
