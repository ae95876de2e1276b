import ItemStore.Error
import ItemStore.Expression.Symbol

/-!
# Fragments of expressions

A fragment is a piece of an expression, with the names and the values that its
placeholders stand for.  Placeholders are drawn from a counter, so no two that are
drawn from one counter are the same, and fragments can be put together by putting
together what they bind.  A compilation that fails keeps the numbers it has drawn.

## Main definitions

* `Fragment` — symbols, names and values.
* `Compile` — a compilation: it draws numbers and may fail.
* `Fragment.join` — fragments in a row, with a symbol between them.
-/

namespace ItemStore

/-- A piece of an expression and what its placeholders stand for. -/
structure Fragment where
  symbols : List Symbol
  /-- The names that placeholders stand for, by number. -/
  names : Dict Nat String
  /-- The values that placeholders stand for, by number. -/
  values : Dict Nat Wire
  deriving Inhabited

namespace Fragment

/-- The fragment without symbols. -/
def empty : Fragment := ⟨[], [], []⟩

/-- A symbol that is no placeholder. -/
def symbol (s : Symbol) : Fragment := ⟨[s], [], []⟩

/-- The placeholder of a name. -/
def name (number : Nat) (name : String) : Fragment := ⟨[.name number], [(number, name)], []⟩

/-- The placeholder of a value. -/
def value (number : Nat) (value : Wire) : Fragment := ⟨[.value number], [], [(number, value)]⟩

/-- Two fragments in a row. -/
def append (f g : Fragment) : Fragment :=
  ⟨f.symbols ++ g.symbols, f.names.union g.names, f.values.union g.values⟩

instance : Append Fragment := ⟨append⟩

/-- Fragments in a row, with a symbol between them. -/
def join (separator : Symbol) : List Fragment → Fragment
  | [] => empty
  | [f] => f
  | f :: fs => f ++ symbol separator ++ join separator fs

/-- A fragment between parentheses. -/
def parenthesised (f : Fragment) : Fragment := symbol .opening ++ f ++ symbol .closing

/-- A function applied to arguments. -/
def call (function : FunctionName) (arguments : List Fragment) : Fragment :=
  symbol (.function function) ++ parenthesised (join .comma arguments)

/-- The names of some fragments. -/
def allNames (fragments : List Fragment) : Dict Nat String :=
  fragments.foldl (fun names f => names.union f.names) ([] : Dict Nat String)

/-- The values of some fragments. -/
def allValues (fragments : List Fragment) : Dict Nat Wire :=
  fragments.foldl (fun values f => values.union f.values) ([] : Dict Nat Wire)

/-- The expression as text. -/
def text (f : Fragment) : String := Symbol.render f.symbols

/-- Names by placeholder, as they are written. -/
def writtenNames (names : Dict Nat String) : Dict String String :=
  names.map fun e => (Symbol.nameToken e.1, e.2)

/-- Values by placeholder, as they are written. -/
def writtenValues (values : Dict Nat Wire) : Item :=
  values.map fun e => (Symbol.valueToken e.1, e.2)

/-- The placeholders that the fragment binds, as they are written. -/
def placeholders (f : Fragment) : List String :=
  f.names.keys.map Symbol.nameToken ++ f.values.keys.map Symbol.valueToken

@[simp] theorem symbols_append (f g : Fragment) : (f ++ g).symbols = f.symbols ++ g.symbols := rfl

@[simp] theorem names_append (f g : Fragment) : (f ++ g).names = f.names.union g.names := rfl

@[simp] theorem values_append (f g : Fragment) : (f ++ g).values = f.values.union g.values := rfl

end Fragment

/-- A compilation: it draws numbers from a counter and may fail. -/
abbrev Compile := ExceptT Error (StateM Nat)

namespace Compile

/-- Draw the next number. -/
def draw : Compile Nat := do
  let number ← get
  set (number + 1)
  return number

/-- Run a compilation from a counter: the result, and the counter afterwards. -/
def runFrom {α : Type} (c : Compile α) (counter : Nat) : Except Error α × Nat :=
  StateT.run (ExceptT.run c) counter

/-- The result of a compilation with a counter of its own. -/
def result {α : Type} (c : Compile α) : Except Error α := (runFrom c 0).1

/-- Draw a placeholder for a name. -/
def name (name : String) : Compile Fragment := do
  return .name (← draw) name

/-- Draw a placeholder for a value.  The number is drawn even if the value cannot be
sent. -/
def value (v : Except Error Wire) : Compile Fragment := do
  let number ← draw
  match v with
  | .ok wire => return .value number wire
  | .error e => throw e

end Compile

end ItemStore
