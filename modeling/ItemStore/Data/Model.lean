import ItemStore.Data.Shape
import ItemStore.Slot
import ItemStore.Schema.Registry

/-!
# Typed models

A model is a record type of a program, given by its fields and their shapes, together
with the declaration of its schema.  A field whose attribute is missing is refused, left
unset, or filled with a default.  A field that is not set is left out when the model is
stored, or written as null.

## Main definitions

* `ModelField`, `Model` — models and their fields.
* `Model.serialize` — a model's fields as data.
* `Model.read`, `Model.store`, `Model.load` — reading and storing.
-/

namespace ItemStore

/-- What a missing attribute means for a field. -/
inductive MissingField
  | refused
  | unset
  /-- The field has a default. -/
  | filled (default : Data)

/-- A field of a model. -/
structure ModelField where
  name : String
  shape : Shape
  /-- What a missing attribute means. -/
  missing : MissingField
  /-- Whether the field is left out when it is not set. -/
  skipped : Bool

/-- A record type of a program and the declaration of its schema. -/
structure Model where
  name : String
  /-- The declaration of its schema. -/
  draft : SchemaDraft
  fields : List ModelField

/-- The fields of a model that are set. -/
abbrev ModelData := Dict String Data

namespace Model

/-- A field that is not set, as data. -/
def unsetEntry (f : ModelField) : List (Data × Data) :=
  match f.missing with
  | .filled default => [(.text f.name, default)]
  | _ => if f.skipped then [] else [(.text f.name, .absent)]

/-- A field, as data. -/
def serializeField (d : ModelData) (f : ModelField) : List (Data × Data) :=
  match d.get? f.name with
  | some value => [(.text f.name, value)]
  | none => unsetEntry f

/-- The fields of a model, as data. -/
def serialize (m : Model) (d : ModelData) : Data :=
  .mapping (m.fields.flatMap (serializeField d))

/-- The fields whose attributes are there. -/
def readPresent (item : Item) : List ModelField → Except DataError ModelData
  | [] => .ok []
  | f :: fs =>
    match item.get? f.name with
    | none => readPresent item fs
    | some w => do
      let d ← f.shape.read w
      return (f.name, d) :: (← readPresent item fs)

/-- The fields, those whose attributes are missing filled in. -/
def fillMissing (present : ModelData) : List ModelField → Except DataError ModelData
  | [] => .ok []
  | f :: fs =>
    match present.get? f.name, f.missing with
    | some d, _ => do return (f.name, d) :: (← fillMissing present fs)
    | none, .refused => .error (.missingField f.name)
    | none, .unset => fillMissing present fs
    | none, .filled default => do return (f.name, default) :: (← fillMissing present fs)

/-- The model of serialized fields.  An attribute of a wrong type is reported before a
missing one. -/
def read (m : Model) (item : Item) : Except DataError ModelData := do
  fillMissing (← readPresent item m.fields) m.fields

/-- The stored item of a model. -/
def store (m : Model) (s : Schema) (d : ModelData) : Except Error Item :=
  s.storeData (m.serialize d)

/-- The model of a stored item. -/
def load (m : Model) (s : Schema) (item : Item) : Except Error ModelData :=
  (m.read (s.readFields item)).mapError .data

/-- The model's schema, from the registry or built for it. -/
def schema (m : Model) (r : Registry) : Except Error Schema × Registry :=
  r.lookup m.name m.draft

end Model

end ItemStore
