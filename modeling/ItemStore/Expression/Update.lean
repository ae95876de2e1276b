import ItemStore.Expression.Operand
import ItemStore.Value.Coercion

/-!
# Updates

An update is a tree of actions on attributes.  Its expression groups the actions by
clause; within a clause they stand in the order of the tree.  Placeholders are drawn
in the order of the tree, whatever the clauses.

## Main definitions

* `UpdateAction` — one action; `Update` — a tree of them.
* `Update.actions` — the actions, from left to right.
* `Update.collect` — the expressions of the actions; `Update.compile` that of the update.
-/

namespace ItemStore

/-- One action of an update. -/
inductive UpdateAction
  /-- Give an attribute a value. -/
  | set (reference : Reference) (operand : Operand)
  /-- Take an attribute away. -/
  | remove (reference : Reference)
  /-- Add to a number or a set. -/
  | add (reference : Reference) (value : Value)
  /-- Take elements out of a set. -/
  | delete (reference : Reference) (value : Value)

namespace UpdateAction

/-- The clause of an action. -/
def clause : UpdateAction → Clause
  | .set .. => .set
  | .remove .. => .remove
  | .add .. => .add
  | .delete .. => .delete

/-- The expression of an action with a value that is taken as a set. -/
def compileSetAction (reference : Reference) (value : Value) : Compile Fragment := do
  let f ← reference.compile
  match value.toSet with
  | .error e => throw e
  | .ok elements => do
    let v ← Compile.value elements.encode
    return f ++ .symbol .space ++ v

/-- The expression of an action, without the word of its clause. -/
def compile : UpdateAction → Compile Fragment
  | .set reference operand => do
    let f ← reference.compile
    let x ← operand.compile
    return f ++ .symbol (.comparator .equal) ++ x
  | .remove reference => reference.compile
  | .add reference value => compileSetAction reference value
  | .delete reference value => compileSetAction reference value

end UpdateAction

/-- A tree of actions. -/
inductive Update
  | action (a : UpdateAction)
  | both (left right : Update)

namespace Update

/-- The actions of an update, from left to right. -/
def actions : Update → List UpdateAction
  | .action a => [a]
  | .both left right => left.actions ++ right.actions

/-- The expression of a clause, if an action belongs to it. -/
def clauseOf (compiled : List (Clause × Fragment)) (clause : Clause) : Option Fragment :=
  match compiled.filter fun entry => entry.1 = clause with
  | [] => none
  | entries =>
    some (.symbol (.clause clause) ++ .symbol .space ++ .join .comma (entries.map Prod.snd))

/-- The expressions of actions, grouped by clause. -/
def grouped (compiled : List (Clause × Fragment)) : Fragment :=
  .join .space (Clause.all.filterMap (clauseOf compiled))

/-- The expressions of the actions of an update and their clauses, after those that were collected
before. -/
def collect (collected : List (Clause × Fragment)) : Update → Compile (List (Clause × Fragment))
  | .action a => do return collected ++ [(a.clause, ← a.compile)]
  | .both left right => do right.collect (← left.collect collected)

/-- The expression of an update. -/
def compile (u : Update) : Compile Fragment := do return grouped (← u.collect [])

end Update

namespace Attribute

/-- Give the attribute a value. -/
def set (a : Attribute) (operand : Operand) : Update := .action (.set a.reference operand)

/-- Take the attribute away. -/
def remove (a : Attribute) : Update := .action (.remove a.reference)

/-- Add to the attribute. -/
def add (a : Attribute) (value : Value) : Update := .action (.add a.reference value)

/-- Take elements out of the attribute. -/
def delete (a : Attribute) (value : Value) : Update := .action (.delete a.reference value)

/-- The attribute, or a default where it is missing. -/
def ifNotExists (a : Attribute) (default : Operand) : Operand :=
  .ifNotExists a.reference default

/-- The sum of the attribute and an operand. -/
def plus (a : Attribute) (other : Operand) : Operand :=
  .arithmetic (.path a.reference) .plus other

/-- The difference of the attribute and an operand. -/
def minus (a : Attribute) (other : Operand) : Operand :=
  .arithmetic (.path a.reference) .minus other

end Attribute

end ItemStore
