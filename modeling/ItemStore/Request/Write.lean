import ItemStore.Expression.Query
import ItemStore.Expression.Update
import ItemStore.Request
import ItemStore.Schema.PrimaryKey

/-!
# Requests that write

A write may carry a condition that the stored item has to meet.  Both halves of the
query that states it count.  An update asks for the whole item as it is afterwards.

## Main definitions

* `WriteOptions` — the condition and what is reported.
* `PutItem`, `UpdateItem`, `DeleteItem` — what a caller asks for.
* `PutItem.request` and its namesakes — the request of each.
-/

namespace ItemStore

/-- The options of every write. -/
structure WriteOptions where
  condition : Option Query := none
  /-- Which consumed capacity is reported. -/
  returnConsumedCapacity : Option String := none
  /-- Which metrics of item collections are reported. -/
  returnItemCollectionMetrics : Option String := none
  deriving Inhabited

namespace WriteOptions

/-- The expression of the condition, if there is one. -/
def compile (o : WriteOptions) : Compile (Option Fragment) :=
  match o.condition with
  | none => return none
  | some q =>
    match q.condition with
    | .error e => throw e
    | .ok condition => do return some (← condition.compile)

/-- The request of a write, without its expressions. -/
def request (o : WriteOptions) (s : Schema) (operation : Operation) : Request :=
  { operation
    table := some s.table
    returnConsumedCapacity := o.returnConsumedCapacity
    returnItemCollectionMetrics := o.returnItemCollectionMetrics }

end WriteOptions

/-- Write an item, in place of the one with its key. -/
structure PutItem where
  item : Item
  options : WriteOptions

/-- The request that writes an item. -/
def PutItem.request (p : PutItem) (s : Schema) : Except Error Request := do
  let condition ← p.options.compile.result
  let request :=
    { p.options.request s .putItem with
      item := some p.item
      condition := condition.map Fragment.symbols }
  return request.bind condition.toList

/-- Change an item. -/
structure UpdateItem where
  key : PrimaryKey
  update : Update
  options : WriteOptions

namespace UpdateItem

/-- The expressions of an update: its actions and its condition. -/
def compile (u : UpdateItem) : Compile (Fragment × Option Fragment) := do
  let update ← u.update.compile
  let condition ← u.options.compile
  return (update, condition)

/-- The request that changes an item. -/
def request (u : UpdateItem) (s : Schema) : Except Error Request := do
  let key ← u.key.resolve s
  let (update, condition) ← u.compile.result
  let request :=
    { u.options.request s .updateItem with
      key := some key
      update := some update.symbols
      condition := condition.map Fragment.symbols
      returnValues := some "ALL_NEW" }
  return request.bind (condition.toList ++ [update])

end UpdateItem

/-- Delete an item. -/
structure DeleteItem where
  key : PrimaryKey
  options : WriteOptions

/-- The request that deletes an item. -/
def DeleteItem.request (d : DeleteItem) (s : Schema) : Except Error Request := do
  let key ← d.key.resolve s
  let condition ← d.options.compile.result
  let request :=
    { d.options.request s .deleteItem with
      key := some key
      condition := condition.map Fragment.symbols }
  return request.bind condition.toList

end ItemStore
