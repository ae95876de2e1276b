import ItemStore.Expression.Condition

/-!
# Queries

A query has a key half, which selects by key attributes, and a filter half, which
filters what was selected.  Joining two queries joins each half on its own; a half that
is absent on one side is that of the other.  A predicate on an attribute goes to the
key half if the attribute is a key and a key can be searched by it.

## Main definitions

* `Query` — the two halves; `Query.and`, `Query.or`.
* `Query.keyCondition`, `Query.filterCondition`, `Query.condition` — what the parts of
  a request take from a query.
* `Attribute.compare` and its neighbours — the predicates on an attribute.
-/

namespace ItemStore

/-- A condition, split into what selects by key and what filters. -/
structure Query where
  /-- The condition on key attributes. -/
  key : Option Condition
  /-- The condition on what was selected. -/
  filter : Option Condition
  deriving Inhabited

/-- Join two conditions, an absent one leaving the other as it is. -/
def Connective.combine (connective : Connective) :
    Option Condition → Option Condition → Option Condition
  | some left, some right => some (.joined connective left right)
  | some left, none => some left
  | none, right => right

@[simp] theorem Connective.combine_none_left (connective : Connective) (c : Option Condition) :
    connective.combine none c = c := rfl

@[simp] theorem Connective.combine_none_right (connective : Connective) (c : Option Condition) :
    connective.combine c none = c := by
  cases c <;> rfl

/-- The expressions of the two halves of a query. -/
structure CompiledQuery where
  /-- The expression of the key half. -/
  key : Option Fragment
  /-- The expression of the filter half. -/
  filter : Option Fragment
  deriving Inhabited

/-- The placeholders of both halves, as they are written. -/
def CompiledQuery.placeholders (q : CompiledQuery) : List String :=
  (q.key.toList ++ q.filter.toList).flatMap Fragment.placeholders

namespace Query

/-- The query without a condition. -/
def empty : Query := ⟨none, none⟩

/-- A query by key. -/
def ofKey (c : Condition) : Query := ⟨some c, none⟩

/-- A query that filters. -/
def ofFilter (c : Condition) : Query := ⟨none, some c⟩

/-- Whether there is no condition. -/
def isEmpty (q : Query) : Bool := q.key.isNone && q.filter.isNone

/-- Join two queries half by half. -/
def joined (connective : Connective) (q r : Query) : Query :=
  ⟨connective.combine q.key r.key, connective.combine q.filter r.filter⟩

/-- Both queries, half by half. -/
def and (q r : Query) : Query := joined .and q r

/-- Either query, half by half. -/
def or (q r : Query) : Query := joined .or q r

/-- The expressions of both halves, the key half first. -/
def compile (q : Query) : Compile CompiledQuery := do
  let key ← q.key.mapM Condition.compile
  let filter ← q.filter.mapM Condition.compile
  return ⟨key, filter⟩

/-- The key half, which has to be there. -/
def keyCondition (q : Query) : Except Error Condition :=
  match q.key with
  | some c => .ok c
  | none => .error .noKeyCondition

/-- Both halves as one condition. -/
def condition (q : Query) : Except Error Condition :=
  match Connective.and.combine q.key q.filter with
  | some c => .ok c
  | none => .error .emptyQuery

/-- Both halves as one condition; the filter half has to be there. -/
def filterCondition (q : Query) : Except Error Condition :=
  match q.filter with
  | some _ => q.condition
  | none => .error .noFilterCondition

end Query

/-- The query of a condition that a key can be searched by. -/
def AttributeKind.query : AttributeKind → Condition → Query
  | .key => Query.ofKey
  | .plain => Query.ofFilter

namespace Attribute

/-- The attribute as an operand. -/
def operand (a : Attribute) : Operand := .path a.reference

/-- The size of the attribute as an operand. -/
def size (a : Attribute) : Operand := .size a.reference

/-! ### Predicates -/

/-- Compare the attribute with an operand.  Keys cannot be searched by inequality. -/
def compare (a : Attribute) (comparator : Comparator) (operand : Operand) : Query :=
  let condition := Condition.compare a.operand comparator operand
  if comparator = .notEqual then .ofFilter condition else a.kind.query condition

/-- The attribute lies between two operands. -/
def between (a : Attribute) (low high : Operand) : Query :=
  a.kind.query (.between a.operand low high)

/-- The attribute starts with an operand. -/
def beginsWith (a : Attribute) (lead : Operand) : Query :=
  a.kind.query (.beginsWith a.reference lead)

/-- The attribute has an operand as an element or a part. -/
def contains (a : Attribute) (operand : Operand) : Query :=
  .ofFilter (.contains a.reference operand)

/-- The attribute is there. -/
def isPresent (a : Attribute) : Query := .ofFilter (.exists a.reference)

/-- The attribute is not there. -/
def isMissing (a : Attribute) : Query := .ofFilter (.notExists a.reference)

/-- The attribute has a type. -/
def hasType (a : Attribute) (type : AttributeType) : Query :=
  .ofFilter (.hasType a.reference type)

/-- The attribute is one of some candidates. -/
def among (a : Attribute) (candidates : List Operand) : Query :=
  .ofFilter (.among a.operand candidates)

/-- Compare the size of the attribute with an operand. -/
def compareSize (a : Attribute) (comparator : Comparator) (operand : Operand) : Query :=
  .ofFilter (.compare a.size comparator operand)

/-- The size of the attribute lies between two operands. -/
def sizeBetween (a : Attribute) (low high : Operand) : Query :=
  .ofFilter (.between a.size low high)

end Attribute

end ItemStore
