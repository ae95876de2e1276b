import ItemStore.Expression.Reference
import ItemStore.Schema.Encoding

/-!
# Schemas

A schema says which fields a model has and under which attribute names they are
stored, which of them form the primary key, and how their sequences are stored.  It is
built from declarations, which are checked in the order in which they were made.

## Main definitions

* `Declaration`, `SchemaDraft` — what is declared.
* `Field`, `Schema` — what is built.
* `SchemaDraft.build` — checking the declarations.
* `Schema.keyAttribute`, `Schema.plainAttribute` — the attribute of a field.
-/

namespace ItemStore

/-- The declaration of a field. -/
structure Declaration where
  field : String
  /-- The attribute, as declared. -/
  reference : Reference
  isKey : Bool
  deriving DecidableEq, Repr

/-- What is declared of a schema. -/
structure SchemaDraft where
  table : String
  /-- The index that the table is read through. -/
  index : Option String
  declarations : List Declaration
  /-- The encodings that were given to fields, in order. -/
  encodings : List (String × Encoding)
  deriving Inhabited

namespace SchemaDraft

/-- A schema of a table, without fields. -/
def new (table : String) : SchemaDraft := ⟨table, none, [], []⟩

/-- Read the table through an index. -/
def throughIndex (draft : SchemaDraft) (index : String) : SchemaDraft :=
  { draft with index := some index }

/-- Declare a field. -/
def declare (draft : SchemaDraft) (field : String) (reference : Reference) (isKey : Bool) :
    SchemaDraft :=
  { draft with declarations := draft.declarations ++ [⟨field, reference, isKey⟩] }

/-- Declare a field that is part of the key. -/
def declareKey (draft : SchemaDraft) (field : String) (reference : Reference) : SchemaDraft :=
  draft.declare field reference true

/-- Declare a field that is not part of the key. -/
def declarePlain (draft : SchemaDraft) (field : String) (reference : Reference) :
    SchemaDraft :=
  draft.declare field reference false

/-- Give a field an encoding. -/
def encode (draft : SchemaDraft) (field : String) (encoding : Encoding) : SchemaDraft :=
  { draft with encodings := draft.encodings ++ [(field, encoding)] }

end SchemaDraft

/-- A field of a schema. -/
structure Field where
  /-- The name under which the field is stored. -/
  attributeName : String
  name : String
  /-- The attribute, bound to the field. -/
  reference : Reference
  isKey : Bool
  /-- How the field's sequences are stored. -/
  encoding : Encoding
  deriving DecidableEq, Repr, Inhabited

/-- The fields of a model and how they are stored. -/
structure Schema where
  table : String
  /-- The index that the table is read through. -/
  index : Option String
  /-- The fields, in order of declaration. -/
  fields : List Field
  deriving DecidableEq, Repr, Inhabited

/-! ### Building -/

namespace SchemaDraft

/-- The definition of a field, given those before it. -/
def define (table : String) (defined : List Field) (d : Declaration) :
    Except Error Field :=
  let reference := d.reference.bindTo d.field
  let attributeName := reference.name?.getD ""
  if d.field = "" then .error (.emptyFieldName table)
  else if d.reference.path ≠ [] then .error (.nestedDeclaration d.field d.reference)
  else if defined.any fun f => f.name = d.field then .error (.repeatedField d.field)
  else if attributeName = "" then .error (.emptyAttributeName d.field)
  else if defined.any fun f => f.attributeName = attributeName then
    .error (.sharedAttributeName attributeName)
  else .ok ⟨attributeName, d.field, reference, d.isKey, .native⟩

/-- The definitions of the declared fields, after those before them. -/
def defineAll (table : String) (defined : List Field) :
    List Declaration → Except Error (List Field)
  | [] => .ok defined
  | d :: rest => do
    let f ← define table defined d
    defineAll table (defined ++ [f]) rest

/-- Give a field an encoding. -/
def encodeField (defined : List Field) (field : String) (encoding : Encoding) :
    Except Error (List Field) :=
  match defined.find? fun f => f.name = field with
  | none => .error (.encodingUndeclared field)
  | some f =>
    if f.isKey && encoding.isSet then .error (.keyStoredAsSet field)
    else
      .ok (defined.map fun f => if f.name = field then { f with encoding := encoding } else f)

/-- Give fields their encodings, the last one given to a field counting. -/
def encodeAll (defined : List Field) :
    List (String × Encoding) → Except Error (List Field)
  | [] => .ok defined
  | (field, encoding) :: rest => do
    let defined ← encodeField defined field encoding
    encodeAll defined rest

/-- The schema of what was declared. -/
def build (draft : SchemaDraft) : Except Error Schema :=
  if draft.table = "" then .error .emptyTableName
  else do
    let defined ← defineAll draft.table [] draft.declarations
    let fields ← encodeAll defined draft.encodings
    let keys := fields.countP Field.isKey
    if 2 < keys then .error (.tooManyKeys draft.table keys)
    else .ok ⟨draft.table, draft.index, fields⟩

end SchemaDraft

/-! ### Looking up -/

namespace Schema

/-- The definition of a field, if it is declared. -/
def field? (s : Schema) (field : String) : Option Field :=
  s.fields.find? fun f => f.name = field

/-- The definition of the field that is stored under a name, if there is one. -/
def storedField? (s : Schema) (attributeName : String) : Option Field :=
  s.fields.find? fun f => f.attributeName = attributeName

/-- The definition of a field. -/
def field (s : Schema) (field : String) : Except Error Field :=
  match s.field? field with
  | some f => .ok f
  | none => .error (.undeclaredField field s.table)

/-- The attribute names of the key, in order of declaration. -/
def keyNames (s : Schema) : List String :=
  (s.fields.filter Field.isKey).map Field.attributeName

/-- The fields by the names under which they are stored. -/
def layout (s : Schema) : List (String × String) :=
  s.fields.map fun f => (f.attributeName, f.name)

/-- The key attribute of a field. -/
def keyAttribute (s : Schema) (field : String) : Except Error Attribute := do
  let f ← s.field field
  if f.isKey then .ok ⟨.key, f.reference⟩ else .error (.notAKey field)

/-- The attribute of a field that is not part of the key. -/
def plainAttribute (s : Schema) (field : String) : Except Error Attribute := do
  let f ← s.field field
  if f.isKey then .error (.isAKey field) else .ok ⟨.plain, f.reference⟩

end Schema

end ItemStore
