import ItemStore.Schema.Storage

/-!
# Serialized data

A program's data has more types than the wire: integers of several widths, two widths
of floating-point numbers, characters, absent values, maps with keys of any type.
Serialization takes it to the wire, where numbers become text and what is absent
becomes null.  Reading without a type finds the types from the wire value.

## Main definitions

* `Data` — data of a program.
* `Data.serialize` — from data to the wire.
* `Data.ofWire` — from the wire to data.
* `Schema.storeData`, `Schema.readData` — data as a stored item, and back.
-/

namespace ItemStore

/-- Data of a program. -/
inductive Data
  | bool (b : Bool)
  /-- An integer of up to 64 bits with a sign. -/
  | int64 (i : Int64)
  /-- An integer of 64 bits without a sign. -/
  | uint64 (n : UInt64)
  | int128 (i : Int)
  | double (x : Double)
  | single (x : Single)
  | char (c : Char)
  | text (s : String)
  | bytes (b : Bytes)
  /-- An optional value that is not there. -/
  | absent
  /-- An optional value that is there. -/
  | present (d : Data)
  /-- The value of the type with one value. -/
  | unit
  | sequence (items : List Data)
  | mapping (entries : List (Data × Data))

instance : Inhabited Data := ⟨.unit⟩

namespace Data

/-- The text of an integer. -/
def intText (i : Int) : String := String.ofList (integerText i)

/-- The text that a key of a map becomes. -/
def keyText : Data → Except DataError String
  | .text s => .ok s
  | .int64 i => .ok (intText i.toInt)
  | .uint64 n => .ok (natText n.toNat)
  | .int128 i => .ok (intText i)
  | .bool b => .ok (if b then "true" else "false")
  | .char c => .ok (String.singleton c)
  | _ => .error .keyNotText

mutual

/-- The wire form of data. -/
def serialize : Data → Except DataError Wire
  | .bool b => .ok (.bool b)
  | .int64 i => .ok (.number (intText i.toInt))
  | .uint64 n => .ok (.number (natText n.toNat))
  | .int128 _ => .error .wideInteger
  | .double x => .ok (.number x.plainText)
  | .single x => .ok (.number x.plainText)
  | .char c => .ok (.string (String.singleton c))
  | .text s => .ok (.string s)
  | .bytes b => .ok (.bytes b)
  | .absent => .ok (.null true)
  | .present d => serialize d
  | .unit => .ok (.null true)
  | .sequence items => (serializeItems items).map .list
  | .mapping entries => (serializeEntries entries).map fun l => .map (Dict.ofList l)

/-- The wire forms of items, or the error of the first without one. -/
def serializeItems : List Data → Except DataError (List Wire)
  | [] => .ok []
  | d :: ds => do
    let w ← serialize d
    return w :: (← serializeItems ds)

/-- The wire forms of entries, or the error of the first without one. -/
def serializeEntries : List (Data × Data) → Except DataError (List (String × Wire))
  | [] => .ok []
  | (k, d) :: entries => do
    let key ← keyText k
    let w ← serialize d
    return (key, w) :: (← serializeEntries entries)

end

/-- The fields of data that is a map. -/
def fields (d : Data) : Except DataError Item := do
  match ← d.serialize with
  | .map entries => .ok entries
  | _ => .error .notMapLike

/-- The number of a text: an integer if it is one of 64 bits, with a sign if possible. -/
def ofNumberText (numeral : String) : Except DataError Data :=
  match IntegerRange.int64.read numeral.toList with
  | .ok i => .ok (.int64 (.ofInt i))
  | .error _ =>
    match IntegerRange.uint64.read numeral.toList with
    | .ok i => .ok (.uint64 (.ofNat i.toNat))
    | .error _ =>
      match BinaryFloat.ofText numeral.toList with
      | .ok x => .ok (.double x)
      | .error fault => .error (.floatText numeral fault)

mutual

/-- The data of a wire value, its type taken from the value. -/
def ofWire : Wire → Except DataError Data
  | .null flag => if flag then .ok .unit else .error (.expected .unit)
  | .bool b => .ok (.bool b)
  | .number numeral => ofNumberText numeral
  | .string s => .ok (.text s)
  | .bytes b => .ok (.bytes b)
  | .list items => (ofItems items).map .sequence
  | .stringSet ss => .ok (.sequence (ss.map .text))
  | .numberSet numerals => (numerals.mapM ofNumberText).map .sequence
  | .binarySet bs => .ok (.sequence (bs.map .bytes))
  | .map entries => (ofEntries entries).map .mapping
  | .unknown => .error (.expected .unit)

/-- The data of items. -/
def ofItems : List Wire → Except DataError (List Data)
  | [] => .ok []
  | w :: ws => do
    let d ← ofWire w
    return d :: (← ofItems ws)

/-- The data of entries. -/
def ofEntries : List (String × Wire) → Except DataError (List (Data × Data))
  | [] => .ok []
  | (k, w) :: entries => do
    let d ← ofWire w
    return (.text k, d) :: (← ofEntries entries)

end

/-- The value of data, as it would be read back from the wire. -/
def toValue (d : Data) : Except Error Value := do
  Value.decode (← d.serialize.mapError .data)

end Data

namespace Schema

/-- The stored item of data. -/
def storeData (s : Schema) (d : Data) : Except Error Item := do
  s.storeFields (← d.fields.mapError .data)

/-- The data of a stored item. -/
def readData (s : Schema) (item : Item) : Except Error Data :=
  (Data.ofWire (.map (s.readFields item))).mapError .data

end Schema

end ItemStore
