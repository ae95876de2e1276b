import ItemStore.Expression.Fragment

/-!
# Requests

A request carries the parameters of one operation on the store; those that were not
given are not sent.  The expressions of a request share one counter of placeholders and
one pair of dictionaries for what the placeholders stand for.

## Main definitions

* `Operation` — the operations.
* `Request` — the parameters of an operation.
* `Request.bind` — the names and values of a request's expressions.
-/

namespace ItemStore

/-- The operations on the store. -/
inductive Operation
  | getItem
  | query
  | scan
  | listTables
  | putItem
  | updateItem
  | deleteItem
  deriving DecidableEq, Repr

/-- The name of an operation. -/
def Operation.name : Operation → String
  | .getItem => "GetItem"
  | .query => "Query"
  | .scan => "Scan"
  | .listTables => "ListTables"
  | .putItem => "PutItem"
  | .updateItem => "UpdateItem"
  | .deleteItem => "DeleteItem"

/-- The parameters of an operation. -/
structure Request where
  operation : Operation
  table : Option String := none
  /-- The index that the table is read through. -/
  index : Option String := none
  key : Option Item := none
  item : Option Item := none
  /-- Whether the read sees every earlier write. -/
  consistentRead : Option Bool := none
  /-- The attributes to return. -/
  projection : Option (List Symbol) := none
  /-- The filter of what is read. -/
  filter : Option (List Symbol) := none
  keyCondition : Option (List Symbol) := none
  condition : Option (List Symbol) := none
  update : Option (List Symbol) := none
  /-- The names that placeholders stand for. -/
  names : Option (Dict Nat String) := none
  /-- The values that placeholders stand for. -/
  values : Option (Dict Nat Wire) := none
  /-- The size of a page. -/
  limit : Option Int := none
  /-- Whether a query goes up the sort key. -/
  scanForward : Option Bool := none
  /-- The part of the table that a scan reads. -/
  segment : Option Int := none
  totalSegments : Option Int := none
  /-- Which consumed capacity is reported. -/
  returnConsumedCapacity : Option String := none
  /-- Which metrics of item collections are reported. -/
  returnItemCollectionMetrics : Option String := none
  /-- Which attributes an update returns. -/
  returnValues : Option String := none
  /-- The key after which a page starts. -/
  startKey : Option Item := none
  /-- The table after which a page starts. -/
  startTable : Option String := none

namespace Request

/-- The request with the names and values of its expressions. -/
def bind (r : Request) (fragments : List Fragment) : Request :=
  { r with
    names := (Fragment.allNames fragments).nonEmpty?
    values := (Fragment.allValues fragments).nonEmpty? }

/-- The names of a request, as they are written. -/
def writtenNames? (r : Request) : Option (Dict String String) :=
  r.names.map Fragment.writtenNames

/-- The values of a request, as they are written. -/
def writtenValues? (r : Request) : Option Item := r.values.map Fragment.writtenValues

/-- The expressions of a request. -/
def expressions (r : Request) : List (List Symbol) :=
  [r.projection, r.filter, r.keyCondition, r.condition, r.update].filterMap id

end Request

end ItemStore
