import ItemStore.Exchange
import ItemStore.Request.Read

/-!
# Reading from the store

The reads of items are given a function that reads an item as what the caller wants: a
record, or a model.

## Main definitions

* `GetItem.send` — one item, if there is one.
* `QueryPartition.send`, `ScanTable.send` — the items of all pages.
* `ListTables.send` — the names of all tables.
-/

namespace ItemStore

variable {α : Type}

/-- Read one item, if it is there. -/
def GetItem.send (g : GetItem) (s : Schema) (read : Item → Except Error α)
    (responses : List Response) : Exchange (Option α) :=
  .single (g.request s) (Exchange.readAnswer fun a => a.item.mapM read) responses

/-- The pages of a read of items. -/
def Paging.ofItems (request : Request) (read : Item → Except Error α) : Paging Item α where
  request start := { request with startKey := start }
  results a := (a.items.getD []).mapM read
  next a := a.lastKey.bind Dict.nonEmpty?
  samePlace := Item.same

/-- Read all pages of items, unless the request could not be built. -/
def Exchange.allItems (request : Except Error Request) (read : Item → Except Error α)
    (responses : List Response) : Exchange (List α) :=
  match request with
  | .error e => unsent e
  | .ok r => (Paging.ofItems r read).run none responses

/-- Read the items of a partition. -/
def QueryPartition.send (q : QueryPartition) (s : Schema) (read : Item → Except Error α)
    (responses : List Response) : Exchange (List α) :=
  .allItems (q.request s) read responses

/-- Read all items. -/
def ScanTable.send (q : ScanTable) (s : Schema) (read : Item → Except Error α)
    (responses : List Response) : Exchange (List α) :=
  .allItems (q.request s) read responses

namespace ListTables

/-- The pages of a list of tables. -/
def paging (q : ListTables) : Paging String String where
  request start := { q.request with startTable := start }
  results a := .ok (a.tables.getD [])
  next a := a.lastTable.filter (· ≠ "")
  samePlace := (· == ·)

/-- List the tables. -/
def send (q : ListTables) (responses : List Response) : Exchange (List String) :=
  q.paging.run none responses

end ListTables

end ItemStore
