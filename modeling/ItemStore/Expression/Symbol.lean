import ItemStore.Text.Quoted

/-!
# Expression symbols

The text of an expression is a row of symbols.  Attribute names and values never stand
in it: a numbered placeholder stands for each, `#n3` for a name and `:v4` for a value.
Every other symbol is a fixed word or sign, apart from the positions of list elements.

## Main definitions

* `Comparator`, `Connective`, `Arithmetic`, `FunctionName`, `Clause` — words.
* `Symbol` — the symbols, and `Symbol.text` their spelling.
* `Symbol.render` — the text of a row of symbols.
-/

namespace ItemStore

/-- How two operands are compared. -/
inductive Comparator
  | equal
  | notEqual
  | less
  | lessOrEqual
  | greater
  | greaterOrEqual
  deriving DecidableEq, Repr

/-- The spelling of a comparator. -/
def Comparator.text : Comparator → String
  | .equal => "="
  | .notEqual => "<>"
  | .less => "<"
  | .lessOrEqual => "<="
  | .greater => ">"
  | .greaterOrEqual => ">="

/-- How two conditions are joined. -/
inductive Connective
  | and
  | or
  deriving DecidableEq, Repr

/-- The spelling of a connective. -/
def Connective.text : Connective → String
  | .and => "AND"
  | .or => "OR"

/-- The truth of a joined condition. -/
def Connective.eval : Connective → Bool → Bool → Bool
  | .and, a, b => a && b
  | .or, a, b => a || b

/-- The arithmetic of update expressions. -/
inductive Arithmetic
  | plus
  | minus
  deriving DecidableEq, Repr

/-- The spelling of an arithmetic operator. -/
def Arithmetic.text : Arithmetic → String
  | .plus => "+"
  | .minus => "-"

/-- The functions of expressions. -/
inductive FunctionName
  | size
  /-- The attribute, or a default where it is missing. -/
  | ifNotExists
  /-- Two lists in a row. -/
  | listAppend
  /-- The attribute starts with a text. -/
  | beginsWith
  /-- The attribute has an element or a part. -/
  | contains
  | attributeExists
  | attributeNotExists
  | attributeType
  deriving DecidableEq, Repr

/-- The spelling of a function. -/
def FunctionName.text : FunctionName → String
  | .size => "size"
  | .ifNotExists => "if_not_exists"
  | .listAppend => "list_append"
  | .beginsWith => "begins_with"
  | .contains => "contains"
  | .attributeExists => "attribute_exists"
  | .attributeNotExists => "attribute_not_exists"
  | .attributeType => "attribute_type"

/-- The clauses of an update, in the order in which they are written. -/
inductive Clause
  /-- Give attributes a value. -/
  | set
  /-- Add to numbers and sets. -/
  | add
  /-- Take elements out of sets. -/
  | delete
  /-- Take attributes away. -/
  | remove
  deriving DecidableEq, Repr

namespace Clause

/-- The spelling of a clause. -/
def text : Clause → String
  | .set => "SET"
  | .add => "ADD"
  | .delete => "DELETE"
  | .remove => "REMOVE"

/-- Every clause, in the order in which they are written. -/
def all : List Clause := [.set, .add, .delete, .remove]

end Clause

/-- A symbol of an expression. -/
inductive Symbol
  /-- The placeholder of a name. -/
  | name (number : Nat)
  /-- The placeholder of a value. -/
  | value (number : Nat)
  /-- The step into a field. -/
  | dot
  /-- The step to a list element. -/
  | index (position : Nat)
  /-- The sign between arguments, candidates, actions and projected paths. -/
  | comma
  | opening
  | closing
  | space
  /-- A comparator; the one for equality also assigns. -/
  | comparator (c : Comparator)
  /-- A connective; the one for conjunction also stands between the ends of a range. -/
  | connective (c : Connective)
  /-- An arithmetic operator. -/
  | arithmetic (o : Arithmetic)
  /-- The word before the lower end of a range. -/
  | between
  /-- The word before a list of candidates. -/
  | among
  | function (f : FunctionName)
  /-- The word that opens a clause. -/
  | clause (c : Clause)
  deriving DecidableEq, Repr

namespace Symbol

/-- The placeholder of a name, as it is written. -/
def nameToken (number : Nat) : String := "#n" ++ natText number

/-- The placeholder of a value, as it is written. -/
def valueToken (number : Nat) : String := ":v" ++ natText number

/-- A word with a blank on either side. -/
def spaced (word : String) : String := " " ++ word ++ " "

/-- The spelling of a symbol. -/
def text : Symbol → String
  | .name number => nameToken number
  | .value number => valueToken number
  | .dot => "."
  | .index position => "[" ++ natText position ++ "]"
  | .comma => ", "
  | .opening => "("
  | .closing => ")"
  | .space => " "
  | .comparator c => spaced c.text
  | .connective c => spaced c.text
  | .arithmetic o => spaced o.text
  | .between => spaced "BETWEEN"
  | .among => spaced "IN"
  | .function f => f.text
  | .clause c => c.text

/-- The number of a placeholder. -/
def token? : Symbol → Option Nat
  | .name number => some number
  | .value number => some number
  | _ => none

/-- The number of the placeholder of a name. -/
def name? : Symbol → Option Nat
  | .name number => some number
  | _ => none

/-- The number of the placeholder of a value. -/
def value? : Symbol → Option Nat
  | .value number => some number
  | _ => none

/-- The text of a row of symbols. -/
def render (symbols : List Symbol) : String := String.join (symbols.map text)

end Symbol

end ItemStore
