import ItemStore.Expression.Operand
import ItemStore.Schema

/-!
# Projections

A projection names the attributes that a read returns.  The projection of a schema
names its attributes in order of declaration.

## Main definitions

* `Projection` — references; `Projection.compile` their expression.
* `Projection.ofSchema` — the attributes of a schema.
-/

namespace ItemStore

/-- The attributes that a read returns. -/
structure Projection where
  references : List Reference
  deriving DecidableEq, Repr, Inhabited

namespace Projection

/-- The attributes of a schema. -/
def ofSchema (s : Schema) : Projection := ⟨s.fields.map Field.reference⟩

/-- Whether nothing is named. -/
def isEmpty (p : Projection) : Bool := p.references.isEmpty

/-- The expression of a projection. -/
def compile (p : Projection) : Compile Fragment := do
  return .join .comma (← p.references.mapM Reference.compile)

end Projection

end ItemStore
