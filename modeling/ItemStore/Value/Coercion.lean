import ItemStore.Error

/-!
# Coercion into sets

A list or tuple whose items are all texts, all numbers or all byte strings can be
turned into the set of its items.  The first item decides on the type, and the first
item of another type is the one that is refused.

## Main definitions

* `Value.collect` — the items of one type, or the first item of another.
* `Value.toSet` — a list or tuple as a set.
-/

namespace ItemStore

namespace Value

/-- A text. -/
def asString? : Value → Option String
  | .string s => some s
  | _ => none

/-- A number. -/
def asNumber? : Value → Option Number
  | .number n => some n
  | _ => none

/-- A byte string. -/
def asBytes? : Value → Option Bytes
  | .bytes b => some b
  | _ => none

/-- The items, each read as one type; the first that is not of it is refused. -/
def collect {α : Type} (read? : Value → Option α) : List Value → Except Error (List α)
  | [] => .ok []
  | v :: vs =>
    match read? v with
    | none => .error (.mixedSet v)
    | some a =>
      match collect read? vs with
      | .error e => .error e
      | .ok as => .ok (a :: as)

/-- The set of a sequence's items. -/
def setOfItems : List Value → Except Error Value
  | [] => .error .emptySet
  | items@(first :: _) =>
    match first with
    | .string _ => (collect asString? items).map fun l => .stringSet (.ofList l)
    | .number _ => (collect asNumber? items).map fun l => .numberSet (.ofList l)
    | .bytes _ => (collect asBytes? items).map fun l => .binarySet (.ofList l)
    | other => .error (.notAnElement other)

/-- A list or tuple as the set of its items; any other value as it is. -/
def toSet : Value → Except Error Value
  | .list items => setOfItems items
  | .tuple items => setOfItems items
  | v => .ok v

end Value

end ItemStore
