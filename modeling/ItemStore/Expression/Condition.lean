import ItemStore.Expression.Operand

/-!
# Conditions

A condition is a comparison, a range or membership test, a test of an attribute, or
two conditions joined by a connective.  Joined conditions stand between parentheses
inside another one, and only there.

## Main definitions

* `AttributeType` — the types of attributes and their codes.
* `Condition` — conditions, and `Condition.compile`.
* `Condition.eval` — the truth of a condition, given that of its parts.
-/

namespace ItemStore

/-- The type of an attribute. -/
inductive AttributeType
  | string
  | stringSet
  | number
  | numberSet
  | binary
  | binarySet
  | boolean
  | null
  | list
  | map
  deriving DecidableEq, Repr

namespace AttributeType

/-- The code of a type. -/
def code : AttributeType → String
  | .string => "S"
  | .stringSet => "SS"
  | .number => "N"
  | .numberSet => "NS"
  | .binary => "B"
  | .binarySet => "BS"
  | .boolean => "BOOL"
  | .null => "NULL"
  | .list => "L"
  | .map => "M"

/-- Every type. -/
def all : List AttributeType :=
  [.string, .stringSet, .number, .numberSet, .binary, .binarySet, .boolean, .null, .list, .map]

/-- The type of a code. -/
def ofCode? (text : String) : Option AttributeType := all.find? fun t => t.code == text

/-- A code reads back as its type. -/
theorem ofCode?_code (t : AttributeType) : ofCode? t.code = some t := by
  cases t <;> decide

end AttributeType

/-- A condition on an item. -/
inductive Condition
  | compare (left : Operand) (comparator : Comparator) (right : Operand)
  /-- The operand lies between two others, ends included. -/
  | between (operand low high : Operand)
  /-- The attribute starts with the operand. -/
  | beginsWith (reference : Reference) (lead : Operand)
  /-- The attribute has the operand as an element or a part. -/
  | contains (reference : Reference) (operand : Operand)
  | exists (reference : Reference)
  | notExists (reference : Reference)
  | hasType (reference : Reference) (type : AttributeType)
  /-- The operand is one of some candidates. -/
  | among (operand : Operand) (candidates : List Operand)
  | joined (connective : Connective) (left right : Condition)

namespace Condition

/-- Whether a condition is two joined ones. -/
def isJoined : Condition → Bool
  | .joined .. => true
  | _ => false

/-- The expression of a condition inside another one. -/
def nested (c : Condition) (f : Fragment) : Fragment :=
  if c.isJoined then f.parenthesised else f

/-- The expression of a condition. -/
def compile : Condition → Compile Fragment
  | .compare left comparator right => do
    let l ← left.compile
    let r ← right.compile
    return l ++ .symbol (.comparator comparator) ++ r
  | .between operand low high => do
    let x ← operand.compile
    let l ← low.compile
    let h ← high.compile
    return x ++ .symbol .between ++ l ++ .symbol (.connective .and) ++ h
  | .beginsWith reference lead => do
    let f ← reference.compile
    let p ← lead.compile
    return .call .beginsWith [f, p]
  | .contains reference operand => do
    let f ← reference.compile
    let x ← operand.compile
    return .call .contains [f, x]
  | .exists reference => do
    let f ← reference.compile
    return .call .attributeExists [f]
  | .notExists reference => do
    let f ← reference.compile
    return .call .attributeNotExists [f]
  | .hasType reference type => do
    let f ← reference.compile
    let code ← Compile.value (.ok (.string type.code))
    return .call .attributeType [f, code]
  | .among operand candidates =>
    if candidates.isEmpty then throw .noCandidates
    else do
      let x ← operand.compile
      let items ← candidates.mapM Operand.compile
      return x ++ .symbol .among ++ (Fragment.join .comma items).parenthesised
  | .joined connective left right => do
    let l ← left.compile
    let r ← right.compile
    return left.nested l ++ .symbol (.connective connective) ++ right.nested r

/-- Both conditions. -/
def and (left right : Condition) : Condition := .joined .and left right

/-- At least one of two conditions. -/
def or (left right : Condition) : Condition := .joined .or left right

/-- The truth of a condition, given the truth of the conditions that are not joined. -/
def eval (truth : Condition → Bool) : Condition → Bool
  | .joined connective left right => connective.eval (eval truth left) (eval truth right)
  | c => truth c

end Condition

end ItemStore
