import ItemStore.Dict
import ItemStore.Number
import ItemStore.Text.Quoted

/-!
# Values

A value is what a program compares an attribute with or writes to it.  Tuples are
sequences of fixed length: they are written as lists and are not equal to them.

## Main definitions

* `Value` — native values.
* `Value.same` — equality of values: numbers by their value, maps in any order.
* `Value.asRead` — a value with its tuples turned into lists.
* `Value.inspect` — the text of a value inside a message.
-/

namespace ItemStore

/-- A native value of an attribute. -/
inductive Value
  | null
  | bool (b : Bool)
  | number (n : Number)
  | string (s : String)
  | bytes (b : Bytes)
  | list (items : List Value)
  /-- A sequence of fixed length. -/
  | tuple (items : List Value)
  | stringSet (s : SortedSet String)
  | numberSet (s : SortedSet Number)
  | binarySet (s : SortedSet Bytes)
  /-- A map from texts, in order of insertion. -/
  | map (entries : List (String × Value))

instance : Inhabited Value := ⟨.null⟩

namespace Value

/-! ### Equality -/

mutual

/-- Equality of values: numbers by their value, maps in any order. -/
def same : Value → Value → Bool
  | .null, .null => true
  | .bool a, .bool b => a == b
  | .number a, .number b => compare a b == .eq
  | .string a, .string b => a == b
  | .bytes a, .bytes b => a == b
  | .list a, .list b => sameItems a b
  | .tuple a, .tuple b => sameItems a b
  | .stringSet a, .stringSet b => a.same b
  | .numberSet a, .numberSet b => a.same b
  | .binarySet a, .binarySet b => a.same b
  | .map a, .map b => a.length == b.length && sameEntries a b
  | _, _ => false

/-- Equality of sequences, item by item. -/
def sameItems : List Value → List Value → Bool
  | [], [] => true
  | v :: vs, w :: ws => same v w && sameItems vs ws
  | _, _ => false

/-- Every entry of the first map has an equal one in the second. -/
def sameEntries : List (String × Value) → List (String × Value) → Bool
  | [], _ => true
  | (k, v) :: entries, other =>
    (match Dict.get? other k with
      | some w => same v w
      | none => false) && sameEntries entries other

end

/-! ### Tuples as lists -/

mutual

/-- The value with every tuple turned into the list of the same items. -/
def asRead : Value → Value
  | .list items => .list (asReadItems items)
  | .tuple items => .list (asReadItems items)
  | .map entries => .map (asReadEntries entries)
  | v => v

/-- `asRead` on every item. -/
def asReadItems : List Value → List Value
  | [] => []
  | v :: vs => asRead v :: asReadItems vs

/-- `asRead` on the value of every entry. -/
def asReadEntries : List (String × Value) → List (String × Value)
  | [] => []
  | (k, v) :: entries => (k, asRead v) :: asReadEntries entries

end

/-! ### Well-formed values -/

mutual

/-- No map in the value has two entries for one key. -/
def WellFormed : Value → Prop
  | .list items => WellFormedItems items
  | .tuple items => WellFormedItems items
  | .map entries => Dict.Distinct entries ∧ WellFormedEntries entries
  | _ => True

/-- Every item is well formed. -/
def WellFormedItems : List Value → Prop
  | [] => True
  | v :: vs => WellFormed v ∧ WellFormedItems vs

/-- The value of every entry is well formed. -/
def WellFormedEntries : List (String × Value) → Prop
  | [] => True
  | (_, v) :: entries => WellFormed v ∧ WellFormedEntries entries

end

/-! ### Text inside a message -/

/-- The bytes of a byte string, as decimal numbers. -/
def inspectBytes (b : Bytes) : String := bracketed (b.map fun x => natText x.toNat)

mutual

/-- The text of a value inside a message. -/
def inspect : Value → String
  | .null => "Null"
  | .bool b => applied "Bool" (if b then "true" else "false")
  | .number n => applied "Number" n.inspect
  | .string s => applied "String" (quoted s)
  | .bytes b => applied "Bytes" (inspectBytes b)
  | .list items => applied "List" (bracketed (inspectItems items))
  | .tuple items => applied "Tuple" (bracketed (inspectItems items))
  | .stringSet s => applied "StringSet" (braced (s.elements.map quoted))
  | .numberSet s => applied "NumberSet" (braced (s.elements.map Number.inspect))
  | .binarySet s => applied "BinarySet" (braced (s.elements.map inspectBytes))
  | .map entries => applied "Map" (braced (inspectEntries entries))

/-- The texts of items. -/
def inspectItems : List Value → List String
  | [] => []
  | v :: vs => inspect v :: inspectItems vs

/-- The texts of entries. -/
def inspectEntries : List (String × Value) → List String
  | [] => []
  | (k, v) :: entries => (quoted k ++ ": " ++ inspect v) :: inspectEntries entries

end

end Value

end ItemStore
