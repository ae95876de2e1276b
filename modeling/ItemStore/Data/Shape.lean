import ItemStore.Data

/-!
# Typed reading

A shape is the type of a field of a model.  Reading a wire value as a shape gives data
of that type, or says which kind of wire value was expected.

## Main definitions

* `Shape` — types of fields.
* `Shape.read` — the data of a shape in a wire value.
-/

namespace ItemStore

/-- The type of a field. -/
inductive Shape
  | bool
  /-- Integers of a range. -/
  | integer (range : IntegerRange)
  | double
  | text
  /-- Values that may be absent. -/
  | optional (shape : Shape)
  | list (shape : Shape)
  /-- Sets of integers of 64 bits. -/
  | integerSet
  | textSet
  deriving DecidableEq

namespace Shape

/-- The integer of a wire value. -/
def readInteger (range : IntegerRange) : Wire → Except DataError Int
  | .number numeral =>
    match range.read numeral.toList with
    | .ok i => .ok i
    | .error fault => .error (.integerText numeral fault)
  | _ => .error (.expected .num)

/-- An integer as data, with a sign where the range has negative numbers. -/
def integerData (range : IntegerRange) (i : Int) : Data :=
  if range.least < 0 then .int64 (.ofInt i) else .uint64 (.ofNat i.toNat)

/-- The floating-point number of a wire value. -/
def readDouble : Wire → Except DataError Double
  | .number numeral =>
    match BinaryFloat.ofText numeral.toList with
    | .ok x => .ok x
    | .error fault => .error (.floatText numeral fault)
  | _ => .error (.expected .num)

/-- The text of a wire value. -/
def readText : Wire → Except DataError String
  | .string s => .ok s
  | _ => .error (.expected .string)

/-- The elements of a list or set. -/
def elements : Wire → Except DataError (List Wire)
  | .list items => .ok items
  | .stringSet ss => .ok (ss.map .string)
  | .numberSet numerals => .ok (numerals.map .number)
  | .binarySet bs => .ok (bs.map .bytes)
  | _ => .error (.expected .seq)

/-- The elements of what is read as a sequence of some shape.  Neither a text nor a byte
string of a set is ever taken for a byte. -/
def elementsFor (shape : Shape) : Wire → Except DataError (List Wire)
  | .stringSet (s :: ss) =>
    if shape = .integer .byte then .error (.textForByte s) else elements (.stringSet (s :: ss))
  | .binarySet (b :: bs) =>
    if shape = .integer .byte then .error .bytesForByte else elements (.binarySet (b :: bs))
  | w => elements w

/-- The data of a shape in a wire value. -/
def read : Shape → Wire → Except DataError Data
  | .bool, w =>
    match w with
    | .bool b => .ok (.bool b)
    | _ => .error (.expected .bool)
  | .integer range, w => (readInteger range w).map (integerData range)
  | .double, w => (readDouble w).map .double
  | .text, w => (readText w).map .text
  | .optional shape, w =>
    match w with
    | .null true => .ok .absent
    | w => (read shape w).map .present
  | .list shape, w => do
    let items ← elementsFor shape w
    return .sequence (← items.mapM (read shape))
  | .integerSet, w => do
    let items ← (← elements w).mapM (readInteger .int64)
    return .sequence ((SortedSet.ofList items).elements.map fun i => .int64 (.ofInt i))
  | .textSet, w => do
    let items ← (← elements w).mapM readText
    return .sequence ((SortedSet.ofList items).elements.map .text)

end Shape

end ItemStore
