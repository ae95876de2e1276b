import ItemStore.Value
import ItemStore.Wire
import ItemStore.Expression.Reference

/-!
# Errors

An error says what is wrong with a schema, a value, a condition, a key or the data of
a program.  Its kind tells where to look, and its detail names what was found there.

## Main definitions

* `DataError` — data that cannot be stored, or an item that cannot be read as data.
* `Error` — every cause of failure before a request is sent or after it is answered.
* `Error.kind`, `Error.message` — what kind of mistake it is, and how it is told.
-/

namespace ItemStore

/-- The kind of wire value that reading expected. -/
inductive Expectation
  | num
  | string
  | bool
  | seq
  | unit
  deriving DecidableEq

/-- The name of an expectation. -/
def Expectation.name : Expectation → String
  | .num => "num"
  | .string => "string"
  | .bool => "bool"
  | .seq => "seq"
  | .unit => "unit"

/-- Data that cannot be stored, or an item that cannot be read as data. -/
inductive DataError
  /-- Integers of 128 bits are not stored. -/
  | wideInteger
  /-- A key of a map is no text. -/
  | keyNotText
  /-- What should become an item is no map. -/
  | notMapLike
  /-- A wire value is of another kind than expected. -/
  | expected (what : Expectation)
  /-- A number's text is no integer of the range. -/
  | integerText (text : String) (fault : IntegerFault)
  /-- A number's text is no floating-point number. -/
  | floatText (text : String) (fault : BinaryFloat.Fault)
  /-- A byte string of a set stands where a single byte is expected. -/
  | bytesForByte
  /-- A text of a set stands where a single byte is expected. -/
  | textForByte (text : String)
  /-- A field has no value and no default. -/
  | missingField (field : String)

/-- What is wrong with the text of an integer. -/
def IntegerFault.message : IntegerFault → String
  | .empty => "cannot parse integer from empty string"
  | .invalidDigit => "invalid digit found in string"
  | .tooLarge => "number too large to fit in target type"
  | .tooSmall => "number too small to fit in target type"

/-- What is wrong with the text of a floating-point number. -/
def BinaryFloat.Fault.message : BinaryFloat.Fault → String
  | .empty => "cannot parse float from empty string"
  | .invalid => "invalid float literal"

/-- How a data error is told. -/
def DataError.message : DataError → String
  | .wideInteger => "i128 is not supported"
  | .keyNotText => "Key must be a string"
  | .notMapLike => "Not a map-like object"
  | .expected what => "Expected " ++ what.name
  | .integerText text fault =>
    "Failed to parse '" ++ text ++ "' as an integer: " ++ fault.message
  | .floatText text fault => "Failed to parse '" ++ text ++ "' as a float: " ++ fault.message
  | .bytesForByte => "invalid type: byte array, expected u8"
  | .textForByte text => "invalid type: string " ++ quoted text ++ ", expected u8"
  | .missingField field => "missing field `" ++ field ++ "`"

/-- Causes of failure. -/
inductive Error
  | emptyTableName
  | emptyFieldName (table : String)
  /-- A field is declared for a part of an attribute. -/
  | nestedDeclaration (field : String) (reference : Reference)
  /-- A field is declared a second time. -/
  | repeatedField (field : String)
  /-- A field's attribute has an empty name. -/
  | emptyAttributeName (field : String)
  /-- Two fields have one attribute. -/
  | sharedAttributeName (name : String)
  /-- An encoding is given for a field that is not declared. -/
  | encodingUndeclared (field : String)
  /-- A key would be stored as a set. -/
  | keyStoredAsSet (field : String)
  /-- More keys than a partition key and a sort key. -/
  | tooManyKeys (table : String) (count : Nat)
  | undeclaredField (field table : String)
  /-- A key is asked for under the field of another attribute. -/
  | notAKey (field : String)
  /-- Another attribute is asked for under the field of a key. -/
  | isAKey (field : String)
  /-- A reference has no name. -/
  | unboundReference
  /-- A number is infinite or no number. -/
  | nonFinite (value : Double)
  | notANumber (text : String)
  | emptySet
  /-- An element has another type than the first. -/
  | mixedSet (element : Value)
  /-- A value of this type is no element of a set. -/
  | notAnElement (value : Value)
  /-- A wire value is of a type that is not known. -/
  | unknownWire
  /-- A wire value is no byte. -/
  | notAByte (value : Wire)
  /-- A wire value is no byte string. -/
  | notAByteSequence (value : Wire)
  | noCandidates
  /-- A query does not constrain a key. -/
  | noKeyCondition
  /-- A filter does not constrain an attribute outside the key. -/
  | noFilterCondition
  | emptyQuery
  /-- A key shorthand is used on a table that is read through an index. -/
  | shorthandOnIndex (table index : String)
  /-- A key shorthand has the wrong number of values. -/
  | shorthandMismatch (given : Nat) (table : String) (declared : List String)
  /-- An explicit key has the wrong names. -/
  | keyMismatch (declared : List String) (table : String) (given : List String)
  /-- Data and items do not fit. -/
  | data (error : DataError)

/-- What kind of mistake an error points at. -/
inductive Error.Kind
  /-- A schema, or a use of it. -/
  | definition
  /-- A value that cannot be stored, or is not known. -/
  | unsupportedValue
  /-- A condition where it cannot be used. -/
  | invalidCondition
  /-- A primary key that does not fit the schema. -/
  | invalidKey
  /-- Data that cannot be stored or read. -/
  | serialization
  deriving DecidableEq

/-- The words in front of a message of some kind. -/
def Error.Kind.lead : Error.Kind → String
  | .definition => "definition error: "
  | .unsupportedValue => "unsupported value: "
  | .invalidCondition => "invalid condition: "
  | .invalidKey => "invalid key: "
  | .serialization => ""

namespace Error

/-- The kind of an error. -/
def kind : Error → Kind
  | .emptyTableName | .emptyFieldName .. | .nestedDeclaration .. | .repeatedField ..
  | .emptyAttributeName .. | .sharedAttributeName .. | .encodingUndeclared ..
  | .keyStoredAsSet .. | .tooManyKeys .. | .undeclaredField .. | .notAKey .. | .isAKey ..
  | .unboundReference => .definition
  | .nonFinite .. | .notANumber .. | .emptySet | .mixedSet .. | .notAnElement ..
  | .unknownWire | .notAByte .. | .notAByteSequence .. => .unsupportedValue
  | .noCandidates | .noKeyCondition | .noFilterCondition | .emptyQuery => .invalidCondition
  | .shorthandOnIndex .. | .shorthandMismatch .. | .keyMismatch .. => .invalidKey
  | .data .. => .serialization

/-- What an error says, without the words of its kind. -/
def detail : Error → String
  | .emptyTableName => "table name is empty"
  | .emptyFieldName table => "empty field name on table " ++ table
  | .nestedDeclaration field reference =>
    "field " ++ field ++ " is declared with a nested path " ++ reference.display
  | .repeatedField field => "field " ++ field ++ " is declared twice"
  | .emptyAttributeName field => "field " ++ field ++ " has an empty attribute name"
  | .sharedAttributeName name =>
    "attribute name " ++ name ++ " is used by more than one field"
  | .encodingUndeclared field => "encoding given for undeclared field " ++ field
  | .keyStoredAsSet field => "key field " ++ field ++ " cannot be stored as a set"
  | .tooManyKeys table count =>
    "table " ++ table ++ " declares " ++ natText count ++
      " keys, at most a partition and a sort key are allowed"
  | .undeclaredField field table =>
    "field " ++ field ++ " is not declared on table " ++ table
  | .notAKey field => "field " ++ field ++ " is not a key"
  | .isAKey field => "field " ++ field ++ " is a key"
  | .unboundReference => "attribute reference is not bound to a model field"
  | .nonFinite value => value.plainText ++ " has no decimal representation"
  | .notANumber text => quoted text ++ " is not a number"
  | .emptySet => "empty set"
  | .mixedSet element => "set elements must share one type, found " ++ element.inspect
  | .notAnElement value => value.inspect ++ " cannot be a set element"
  | .unknownWire => "unknown attribute value " ++ Wire.unknown.inspect
  | .notAByte value => value.inspect ++ " is not a byte"
  | .notAByteSequence value => value.inspect ++ " is not a byte sequence"
  | .noCandidates => "IN requires at least one candidate"
  | .noKeyCondition => "a key condition requires a comparison on a key attribute"
  | .noFilterCondition => "a filter requires a condition on a non-key attribute"
  | .emptyQuery => "the query is empty"
  | .shorthandOnIndex table index =>
    "table " ++ table ++ " is read through index " ++ quoted index ++
      ", its primary key must be explicit"
  | .shorthandMismatch given table declared =>
    natText given ++ " key value(s) given but table " ++ table ++ " declares the keys " ++
      bracketed (declared.map quoted)
  | .keyMismatch declared table given =>
    "expected the keys " ++ bracketed (declared.map quoted) ++ " of table " ++ table ++
      ", found " ++ bracketed (given.map quoted)
  | .data error => error.message

/-- How an error is told. -/
def message (e : Error) : String := e.kind.lead ++ e.detail

end Error

/-! ### Steps that may fail -/

section Steps

variable {ε α β : Type}

/-- Two steps succeed if both do. -/
theorem bind_eq_ok {x : Except ε α} {k : α → Except ε β} {b : β} :
    x >>= k = .ok b ↔ ∃ a, x = .ok a ∧ k a = .ok b := by
  cases x with
  | error e => simp [bind, Except.bind]
  | ok a => simp [bind, Except.bind]

theorem map_eq_ok {x : Except ε α} {g : α → β} {b : β} :
    x.map g = .ok b ↔ ∃ a, x = .ok a ∧ g a = b := by
  cases x with
  | error e => simp [Except.map]
  | ok a => simp [Except.map]

theorem pure_eq_ok {a b : α} : (pure a : Except ε α) = .ok b ↔ a = b := by
  simp [pure, Except.pure]

/-- A step in two parts fails in one of them. -/
theorem bind_eq_error {x : Except ε α} {k : α → Except ε β} {e : ε} :
    x >>= k = .error e ↔ x = .error e ∨ ∃ a, x = .ok a ∧ k a = .error e := by
  cases x with
  | error e' => simp [bind, Except.bind]
  | ok a => simp [bind, Except.bind]

theorem map_eq_error {x : Except ε α} {g : α → β} {e : ε} :
    x.map g = .error e ↔ x = .error e := by
  cases x with
  | error e' => simp [Except.map]
  | ok a => simp [Except.map]

end Steps

end ItemStore
