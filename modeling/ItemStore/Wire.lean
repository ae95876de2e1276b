import ItemStore.Dict
import ItemStore.Text.Quoted

/-!
# Wire values

A wire value is an attribute value in the form in which the store sends and receives
it.  Numbers are texts, and the sets of a wire value are lists in the order in which
they were sent.  A value of a type that is not known here arrives as `unknown`.

## Main definitions

* `Wire` — attribute values on the wire.
* `Item` — a stored item: wire values by attribute name.
* `Wire.same`, `Item.same` — equality, maps and items in any order.
* `Wire.inspect` — the text of a wire value inside a message.
-/

namespace ItemStore

/-- An attribute value on the wire. -/
inductive Wire
  | string (s : String)
  /-- A number, as text. -/
  | number (text : String)
  | bytes (b : Bytes)
  | bool (b : Bool)
  /-- The null; the flag is sent along and has no meaning of its own. -/
  | null (flag : Bool)
  | stringSet (ss : List String)
  /-- A set of numbers, as texts. -/
  | numberSet (texts : List String)
  | binarySet (bs : List Bytes)
  | list (items : List Wire)
  | map (entries : List (String × Wire))
  /-- A value of a type that is not known here. -/
  | unknown

instance : Inhabited Wire := ⟨.null true⟩

/-- A stored item: wire values by attribute name. -/
abbrev Item := Dict String Wire

namespace Wire

mutual

/-- Equality of wire values, maps in any order. -/
def same : Wire → Wire → Bool
  | .string a, .string b => a == b
  | .number a, .number b => a == b
  | .bytes a, .bytes b => a == b
  | .bool a, .bool b => a == b
  | .null a, .null b => a == b
  | .stringSet a, .stringSet b => a == b
  | .numberSet a, .numberSet b => a == b
  | .binarySet a, .binarySet b => a == b
  | .list a, .list b => sameItems a b
  | .map a, .map b => a.length == b.length && sameEntries a b
  | .unknown, .unknown => true
  | _, _ => false

/-- Equality of lists, item by item. -/
def sameItems : List Wire → List Wire → Bool
  | [], [] => true
  | v :: vs, w :: ws => same v w && sameItems vs ws
  | _, _ => false

/-- Every entry of the first map has an equal one in the second. -/
def sameEntries : List (String × Wire) → List (String × Wire) → Bool
  | [], _ => true
  | (k, v) :: entries, other =>
    (match Dict.get? other k with
      | some w => same v w
      | none => false) && sameEntries entries other

end

/-- The text of a byte string inside a message. -/
def inspectBlob (b : Bytes) : String := "Blob \x7b inner: " ++ hexText b ++ " \x7d"

mutual

/-- The text of a wire value inside a message. -/
def inspect : Wire → String
  | .string s => applied "S" (quoted s)
  | .number text => applied "N" (quoted text)
  | .bytes b => applied "B" (inspectBlob b)
  | .bool b => applied "Bool" (if b then "true" else "false")
  | .null flag => applied "Null" (if flag then "true" else "false")
  | .stringSet ss => applied "Ss" (bracketed (ss.map quoted))
  | .numberSet texts => applied "Ns" (bracketed (texts.map quoted))
  | .binarySet bs => applied "Bs" (bracketed (bs.map inspectBlob))
  | .list items => applied "L" (bracketed (inspectItems items))
  | .map entries => applied "M" (braced (inspectEntries entries))
  | .unknown => "Unknown"

/-- The texts of items. -/
def inspectItems : List Wire → List String
  | [] => []
  | v :: vs => inspect v :: inspectItems vs

/-- The texts of entries. -/
def inspectEntries : List (String × Wire) → List String
  | [] => []
  | (k, v) :: entries => (quoted k ++ ": " ++ inspect v) :: inspectEntries entries

end

end Wire

/-- Equality of items, attributes in any order. -/
def Item.same (a b : Item) : Bool := a.length == b.length && Wire.sameEntries a b

end ItemStore
