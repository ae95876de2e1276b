import ItemStore.Text.Quoted

/-!
# Attribute references

A reference names an attribute and may go on into its fields and list elements.  The
attribute's name is the one the reference was declared with or, failing that, the name
of the field that a schema bound it to; a reference with neither is unbound.

## Main definitions

* `PathStep`, `Reference` — references and their steps.
* `Reference.name?` — the attribute's effective name.
* `Reference.display` — the reference as it is shown.
* `Attribute` — a reference to a key or to another attribute.
-/

namespace ItemStore

/-- A step from a value into a part of it. -/
inductive PathStep
  | field (name : String)
  | index (position : Nat)
  deriving DecidableEq, Repr

/-- The step as it is shown. -/
def PathStep.display : PathStep → String
  | .field name => "." ++ name
  | .index position => "[" ++ natText position ++ "]"

/-- A reference to an attribute or to a part of one. -/
structure Reference where
  /-- The attribute's name, where it is declared. -/
  declaredName : Option String
  /-- The field that a schema bound the reference to. -/
  boundField : Option String
  /-- The steps into the attribute. -/
  path : List PathStep
  deriving DecidableEq, Repr, Inhabited

namespace Reference

/-- A reference without a name of its own. -/
def unnamed : Reference := ⟨none, none, []⟩

/-- A reference to an attribute by name. -/
def named (name : String) : Reference := ⟨some name, none, []⟩

/-- The reference, bound to a field of a schema. -/
def bindTo (r : Reference) (field : String) : Reference :=
  { r with boundField := some field }

/-- The attribute's effective name. -/
def name? (r : Reference) : Option String := r.declaredName <|> r.boundField

/-- A further step. -/
def step (r : Reference) (s : PathStep) : Reference :=
  { r with path := r.path ++ [s] }

/-- The reference as it is shown. -/
def display (r : Reference) : String :=
  r.name?.getD "<unbound>" ++ String.join (r.path.map PathStep.display)

@[simp] theorem name?_named (name : String) : (named name).name? = some name := rfl

@[simp] theorem name?_unnamed : unnamed.name? = none := rfl

@[simp] theorem name?_step (r : Reference) (s : PathStep) :
    (r.step s).name? = r.name? := rfl

/-- Binding names every reference; a declared name stays. -/
theorem name?_bindTo (r : Reference) (field : String) :
    (r.bindTo field).name? = some (r.declaredName.getD field) := by
  cases h : r.declaredName <;> simp [name?, bindTo, h]

end Reference

/-- Whether an attribute is part of the primary key. -/
inductive AttributeKind
  | key
  | plain
  deriving DecidableEq, Repr

/-- A reference to a key attribute or to another one. -/
structure Attribute where
  /-- Whether it is part of the key. -/
  kind : AttributeKind
  reference : Reference
  deriving DecidableEq, Repr

/-- A further step; the kind stays. -/
def Attribute.step (a : Attribute) (s : PathStep) : Attribute :=
  { a with reference := a.reference.step s }

end ItemStore
