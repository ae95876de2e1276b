import ItemStore.Schema

/-!
# Stored items and fields

A schema renames and encodes the serialized fields of a model into the attributes of an
item, and takes an item back to fields.  A field that is not declared cannot be stored;
an attribute that is not declared is not read.

## Main definitions

* `Schema.storeFields` — the item of serialized fields.
* `Schema.readFields` — the serialized fields of an item.
-/

namespace ItemStore

namespace Schema

/-- The attributes of serialized fields. -/
def storeFields (s : Schema) : Item → Except Error Item
  | [] => .ok []
  | (name, w) :: fields => do
    let f ← s.field name
    let stored ← f.encoding.encode w
    let rest ← storeFields s fields
    return match stored with
      | some w => (f.attributeName, w) :: rest
      | none => rest

/-- The serialized fields of an item, without what is not declared. -/
def readFields (s : Schema) (item : Item) : Item :=
  item.filterMap fun (name, w) =>
    (s.storedField? name).map fun f => (f.name, f.encoding.decode w)

end Schema

end ItemStore
