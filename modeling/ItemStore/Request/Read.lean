import ItemStore.Expression.Query
import ItemStore.Request
import ItemStore.Schema.PrimaryKey
import ItemStore.Schema.Projection

/-!
# Requests that read

A read returns the attributes that the schema declares and no others.  A query selects
by its key half; its filter half and an explicit filter are joined into one filter.

## Main definitions

* `GetItem`, `QueryPartition`, `ScanTable`, `ListTables` — what a caller asks for.
* `GetItem.request` and its namesakes — the request of each.
-/

namespace ItemStore

/-- The options of every read. -/
structure ReadOptions where
  /-- Whether the read sees every earlier write. -/
  consistentRead : Option Bool := none
  /-- Which consumed capacity is reported. -/
  returnConsumedCapacity : Option String := none
  deriving Inhabited

namespace Schema

/-- The expression of the schema's projection; none if it declares no attribute. -/
def compileProjection (s : Schema) : Compile (Option Fragment) :=
  let projection := Projection.ofSchema s
  if projection.isEmpty then return none
  else do return some (← projection.compile)

/-- The request of a read, without its expressions. -/
def readRequest (s : Schema) (operation : Operation) (options : ReadOptions) : Request :=
  { operation
    table := some s.table
    consistentRead := options.consistentRead
    returnConsumedCapacity := options.returnConsumedCapacity }

end Schema

/-- Read one item. -/
structure GetItem where
  key : PrimaryKey
  options : ReadOptions

/-- The request that reads an item. -/
def GetItem.request (g : GetItem) (s : Schema) : Except Error Request := do
  let key ← g.key.resolve s
  let projection ← s.compileProjection.result
  let request :=
    { s.readRequest .getItem g.options with
      key := some key
      projection := projection.map Fragment.symbols }
  return request.bind projection.toList

/-- Read the items of a partition. -/
structure QueryPartition where
  /-- The condition on the key, and on what it selects. -/
  query : Query
  /-- A further filter. -/
  filter : Option Query := none
  /-- The size of a page. -/
  pageSize : Option Int := none
  /-- Whether the items come in ascending order of the sort key. -/
  forward : Option Bool := none
  options : ReadOptions := {}

namespace QueryPartition

/-- The filter of a query: what is left of the query, and the further filter. -/
def filterCondition (q : QueryPartition) : Except Error (Option Condition) := do
  let explicit ← q.filter.mapM Query.filterCondition
  return Connective.and.combine q.query.filter explicit

/-- The expressions of a query: projection, filter and key condition. -/
def compile (s : Schema) (filter : Option Condition) (key : Condition) :
    Compile (Option Fragment × Option Fragment × Fragment) := do
  let projection ← s.compileProjection
  let filter ← filter.mapM Condition.compile
  let key ← key.compile
  return (projection, filter, key)

/-- The request that reads the items of a partition. -/
def request (q : QueryPartition) (s : Schema) : Except Error Request := do
  let keyCondition ← q.query.keyCondition
  let filterCondition ← q.filterCondition
  let (projection, filter, key) ← (compile s filterCondition keyCondition).result
  let request :=
    { s.readRequest .query q.options with
      index := s.index
      projection := projection.map Fragment.symbols
      filter := filter.map Fragment.symbols
      keyCondition := some key.symbols
      limit := q.pageSize
      scanForward := q.forward }
  return request.bind (projection.toList ++ filter.toList ++ [key])

end QueryPartition

/-- Read all items. -/
structure ScanTable where
  filter : Option Query := none
  /-- The size of a page. -/
  pageSize : Option Int := none
  /-- The part of the table to read. -/
  segment : Option Int := none
  totalSegments : Option Int := none
  options : ReadOptions := {}

namespace ScanTable

/-- The expressions of a scan: projection and filter. -/
def compile (s : Schema) (filter : Option Condition) :
    Compile (Option Fragment × Option Fragment) := do
  let projection ← s.compileProjection
  let filter ← filter.mapM Condition.compile
  return (projection, filter)

/-- The request that reads all items. -/
def request (q : ScanTable) (s : Schema) : Except Error Request := do
  let filterCondition ← q.filter.mapM Query.filterCondition
  let (projection, filter) ← (compile s filterCondition).result
  let request :=
    { s.readRequest .scan q.options with
      index := s.index
      projection := projection.map Fragment.symbols
      filter := filter.map Fragment.symbols
      limit := q.pageSize
      segment := q.segment
      totalSegments := q.totalSegments }
  return request.bind (projection.toList ++ filter.toList)

end ScanTable

/-- List the tables. -/
structure ListTables where
  /-- The size of a page. -/
  pageSize : Option Int := none

namespace ListTables

/-- The size of a page, unless another is asked for. -/
def defaultPageSize : Int := 100

/-- The request that lists the tables. -/
def request (q : ListTables) : Request :=
  { operation := .listTables, limit := some (q.pageSize.getD defaultPageSize) }

end ListTables

end ItemStore
