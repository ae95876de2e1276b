import ItemStore.Expression.Fragment
import ItemStore.Value.Codec

/-!
# Operands

An operand is what conditions compare and updates assign: a path, a literal, the size
of an attribute, a sum or difference, or one of the functions of updates.  Sums and
differences are written without parentheses.

## Main definitions

* `Reference.compile` — a path, with a placeholder for every name in it.
* `Operand` — operands, and `Operand.compile`.
-/

namespace ItemStore

namespace Reference

/-- The steps of a path, with a placeholder for every field. -/
def compileSteps : List PathStep → Compile Fragment
  | [] => return .empty
  | .field name :: steps => do
    let f ← Compile.name name
    let rest ← compileSteps steps
    return .symbol .dot ++ f ++ rest
  | .index position :: steps => do
    let rest ← compileSteps steps
    return .symbol (.index position) ++ rest

/-- A path; a reference without a name has none. -/
def compile (r : Reference) : Compile Fragment :=
  match r.name? with
  | none => throw .unboundReference
  | some name => do
    let f ← Compile.name name
    let rest ← compileSteps r.path
    return f ++ rest

end Reference

/-- An operand of a condition or an update. -/
inductive Operand
  /-- An attribute or a part of one. -/
  | path (reference : Reference)
  | literal (value : Value)
  | size (reference : Reference)
  | arithmetic (left : Operand) (operator : Arithmetic) (right : Operand)
  /-- The attribute, or a default where it is missing. -/
  | ifNotExists (reference : Reference) (default : Operand)
  /-- Two lists in a row. -/
  | listAppend (left right : Operand)

namespace Operand

/-- The expression of an operand. -/
def compile : Operand → Compile Fragment
  | .path reference => reference.compile
  | .literal value => Compile.value value.encode
  | .size reference => do
    let f ← reference.compile
    return .call .size [f]
  | .arithmetic left operator right => do
    let l ← left.compile
    let r ← right.compile
    return l ++ .symbol (.arithmetic operator) ++ r
  | .ifNotExists reference default => do
    let f ← reference.compile
    let d ← default.compile
    return .call .ifNotExists [f, d]
  | .listAppend left right => do
    let l ← left.compile
    let r ← right.compile
    return .call .listAppend [l, r]

/-- The sum of two operands. -/
def plus (left right : Operand) : Operand := .arithmetic left .plus right

/-- The difference of two operands. -/
def minus (left right : Operand) : Operand := .arithmetic left .minus right

end Operand

end ItemStore
