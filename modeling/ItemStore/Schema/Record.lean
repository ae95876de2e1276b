import ItemStore.Slot
import ItemStore.Schema

/-!
# Records

A record holds, for every field of a schema, a value or the mark that the field is not
set.  It needs no model type: values go to the attributes as the schema says.

## Main definitions

* `Record` — a schema and a value for each of its fields.
* `Record.empty`, `Record.ofFields`, `Record.set`, `Record.unset` — making and changing.
* `Record.ofItem`, `Record.toItem` — reading and storing.
* `Record.same` — equality of records.
-/

namespace ItemStore

/-- A value for each field of a schema, where the field is set. -/
structure Record where
  schema : Schema
  /-- The fields, in order of declaration. -/
  values : Dict String (Slot Value)

namespace Record

/-- The record in which no field is set. -/
def empty (s : Schema) : Record := ⟨s, s.fields.map fun f => (f.name, .unset)⟩

/-- The value of a field, if the field is declared. -/
def get? (r : Record) (field : String) : Option (Slot Value) := r.values.get? field

/-- Write to a declared field. -/
def write (r : Record) (field : String) (value : Slot Value) : Except Error Record :=
  if r.values.contains field then .ok { r with values := r.values.insert field value }
  else .error (.undeclaredField field r.schema.table)

/-- Set a field. -/
def set (r : Record) (field : String) (value : Value) : Except Error Record :=
  r.write field (.set value)

/-- Make a field not set. -/
def unset (r : Record) (field : String) : Except Error Record := r.write field .unset

/-- Set fields one after the other. -/
def setAll (r : Record) : List (String × Value) → Except Error Record
  | [] => .ok r
  | (field, value) :: fields => do
    let r ← r.set field value
    setAll r fields

/-- The record of some fields, the others not set. -/
def ofFields (s : Schema) (fields : List (String × Value)) : Except Error Record :=
  (empty s).setAll fields

/-- The values of an item's attributes, for some fields. -/
def readValues (item : Item) : List Field →
    Except Error (Dict String (Slot Value))
  | [] => .ok []
  | f :: fields => do
    let value ← match item.get? f.attributeName with
      | some w => (Value.decode w).map .set
      | none => .ok .unset
    return (f.name, value) :: (← readValues item fields)

/-- The record of an item. -/
def ofItem (s : Schema) (item : Item) : Except Error Record := do
  return ⟨s, ← readValues item s.fields⟩

/-- The stored form of a field's value, if it is stored. -/
def storedValue (f : Field) : Slot Value → Except Error (Option Wire)
  | .unset => .ok none
  | .set v => do f.encoding.encode (← v.encode)

/-- The attributes of some fields. -/
def storeValues (values : Dict String (Slot Value)) : List Field →
    Except Error Item
  | [] => .ok []
  | f :: fields => do
    let stored ← storedValue f ((values.get? f.name).getD .unset)
    let rest ← storeValues values fields
    return match stored with
      | some w => (f.attributeName, w) :: rest
      | none => rest

/-- The item of a record. -/
def toItem (r : Record) : Except Error Item := storeValues r.values r.schema.fields

/-- Equality of records. -/
def same (a b : Record) : Bool :=
  decide (a.schema = b.schema) && a.values.length == b.values.length &&
    a.values.all fun e =>
      match b.values.get? e.1 with
      | some v => e.2.sameBy Value.same v
      | none => false

end Record

end ItemStore
