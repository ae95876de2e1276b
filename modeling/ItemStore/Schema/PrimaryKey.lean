import ItemStore.Schema

/-!
# Primary keys

A primary key is given as the value of the partition key, as the values of the
partition and the sort key, or with all names spelled out.  The two shorthands take
their names from the schema, which must not read through an index.

## Main definitions

* `PrimaryKey` — the three ways to give a key.
* `PrimaryKey.resolve` — the attributes of a key.
-/

namespace ItemStore

/-- The primary key of an item. -/
inductive PrimaryKey
  | partition (value : Value)
  /-- The values of the partition and the sort key. -/
  | composite (partition sort : Value)
  /-- The values by attribute name. -/
  | explicit (entries : Dict String Value)

namespace PrimaryKey

/-- The values of a shorthand under the names of the schema's keys. -/
def nameShorthand (s : Schema) (values : List Value) : Except Error (Dict String Value) :=
  match s.index with
  | some index => .error (.shorthandOnIndex s.table index)
  | none =>
    if s.keyNames.length = values.length then .ok (s.keyNames.zip values)
    else .error (.shorthandMismatch values.length s.table s.keyNames)

/-- Whether names are those of the schema's keys.  A schema that declares none takes
any. -/
def namesFit (s : Schema) (entries : Dict String Value) : Bool :=
  s.keyNames.isEmpty ||
    (entries.length == s.keyNames.length && s.keyNames.all fun name => entries.contains name)

/-- The values of a key by attribute name. -/
def entries (s : Schema) : PrimaryKey → Except Error (Dict String Value)
  | .partition value => nameShorthand s [value]
  | .composite first second => nameShorthand s [first, second]
  | .explicit given =>
    if s.index.isSome || namesFit s given then .ok given
    else .error (.keyMismatch s.keyNames s.table given.keys)

/-- The attributes of a key. -/
def resolve (s : Schema) (key : PrimaryKey) : Except Error Item := do
  Value.encodeEntries (← key.entries s)

end PrimaryKey

end ItemStore
