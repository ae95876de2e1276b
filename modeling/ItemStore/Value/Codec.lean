import ItemStore.Error

/-!
# Values on the wire

Encoding takes a value to the wire.  Numbers become text, which those that are not
finite have none of, and tuples become lists; a set without elements cannot be sent.
Decoding takes a wire value back: number texts are read, and the elements of a set are
put in order.

## Main definitions

* `Value.encode` — from a value to the wire.
* `Value.decode` — from the wire to a value.
-/

namespace ItemStore

namespace Value

/-- The text of a number, which has one if it is finite. -/
def encodeNumber (n : Number) : Except Error String :=
  match n.text? with
  | some text => .ok text
  | none => .error (.nonFinite n.toDouble)

/-- The number of a text. -/
def decodeNumber (text : String) : Except Error Number :=
  match Number.ofText? text with
  | some n => .ok n
  | none => .error (.notANumber text)

/-- The elements of a set, which has at least one. -/
def encodeElements {α : Type} [Ord α] (s : SortedSet α) : Except Error (List α) :=
  if s.isEmpty then .error .emptySet else .ok s.elements

mutual

/-- The wire form of a value. -/
def encode : Value → Except Error Wire
  | .null => .ok (.null true)
  | .bool b => .ok (.bool b)
  | .number n => (encodeNumber n).map .number
  | .string s => .ok (.string s)
  | .bytes b => .ok (.bytes b)
  | .list items => (encodeItems items).map .list
  | .tuple items => (encodeItems items).map .list
  | .stringSet s => (encodeElements s).map .stringSet
  | .numberSet s => do
    let elements ← encodeElements s
    return .numberSet (← elements.mapM encodeNumber)
  | .binarySet s => (encodeElements s).map .binarySet
  | .map entries => (encodeEntries entries).map .map

/-- The wire forms of items, or the error of the first without one. -/
def encodeItems : List Value → Except Error (List Wire)
  | [] => .ok []
  | v :: vs => do
    let w ← encode v
    return w :: (← encodeItems vs)

/-- The wire forms of entries, or the error of the first without one. -/
def encodeEntries : List (String × Value) → Except Error (List (String × Wire))
  | [] => .ok []
  | (k, v) :: entries => do
    let w ← encode v
    return (k, w) :: (← encodeEntries entries)

end

mutual

/-- The value of a wire form. -/
def decode : Wire → Except Error Value
  | .null _ => .ok .null
  | .bool b => .ok (.bool b)
  | .number text => (decodeNumber text).map .number
  | .string s => .ok (.string s)
  | .bytes b => .ok (.bytes b)
  | .list items => (decodeItems items).map .list
  | .stringSet ss => .ok (.stringSet (.ofList ss))
  | .numberSet texts => do
    let numbers ← texts.mapM decodeNumber
    return .numberSet (.ofList numbers)
  | .binarySet bs => .ok (.binarySet (.ofList bs))
  | .map entries => (decodeEntries entries).map .map
  | .unknown => .error .unknownWire

/-- The values of wire forms, or the error of the first without one. -/
def decodeItems : List Wire → Except Error (List Value)
  | [] => .ok []
  | w :: ws => do
    let v ← decode w
    return v :: (← decodeItems ws)

/-- The values of entries, or the error of the first without one. -/
def decodeEntries : List (String × Wire) → Except Error (List (String × Value))
  | [] => .ok []
  | (k, w) :: entries => do
    let v ← decode w
    return (k, v) :: (← decodeEntries entries)

end

end Value

end ItemStore
