import ItemStore.Exchange
import ItemStore.Request.Write
import ItemStore.Schema.Record
import ItemStore.Data.Model

/-!
# Writing to the store

A write whose condition does not hold is not applied; that is an outcome and no
failure.  Every other refusal is a failure.

## Main definitions

* `WriteOutcome` — applied, or not.
* `PutItem.send`, `UpdateItem.send`, `DeleteItem.send` — the three writes.
* `Write`, `Write.send` — a write of a model, of a record or under a given schema.
-/

namespace ItemStore

/-- The outcome of a write. -/
inductive WriteOutcome (α : Type)
  | applied (value : α)
  | notApplied

namespace WriteOutcome

variable {α : Type}

/-- Whether the write was applied. -/
def isApplied : WriteOutcome α → Bool
  | .applied _ => true
  | .notApplied => false

/-- What an applied write gives. -/
def applied? : WriteOutcome α → Option α
  | .applied a => some a
  | .notApplied => none

/-- The code with which the store refuses a write whose condition does not hold. -/
def conditionFailed : String := "ConditionalCheckFailedException"

/-- The outcome in a response. -/
def ofResponse (read : Answer → Except Error α) : Response → Except Failure (WriteOutcome α)
  | .refusal code =>
    if code = conditionFailed then .ok .notApplied else .error (.refused code)
  | response => (Exchange.readAnswer read response).map .applied

end WriteOutcome

/-- Write an item. -/
def PutItem.send (p : PutItem) (s : Schema) (responses : List Response) :
    Exchange (WriteOutcome Unit) :=
  .single (p.request s) (WriteOutcome.ofResponse fun _ => .ok ()) responses

/-- Write an item that may not have been built. -/
def PutItem.sendBuilt (item : Except Error Item) (options : WriteOptions) (s : Schema)
    (responses : List Response) : Exchange (WriteOutcome Unit) :=
  match item with
  | .error e => .unsent e
  | .ok item => PutItem.send ⟨item, options⟩ s responses

/-- Write a record. -/
def Record.put (r : Record) (options : WriteOptions) (responses : List Response) :
    Exchange (WriteOutcome Unit) :=
  PutItem.sendBuilt r.toItem options r.schema responses

/-- Write a model. -/
def Model.put (m : Model) (s : Schema) (d : ModelData) (options : WriteOptions)
    (responses : List Response) : Exchange (WriteOutcome Unit) :=
  PutItem.sendBuilt (m.store s d) options s responses

/-- Change an item, and read it as it is afterwards. -/
def UpdateItem.send {α : Type} (u : UpdateItem) (s : Schema) (read : Item → Except Error α)
    (responses : List Response) : Exchange (WriteOutcome α) :=
  .single (u.request s) (WriteOutcome.ofResponse fun a => read (a.attributes.getD [])) responses

/-- Delete an item. -/
def DeleteItem.send (d : DeleteItem) (s : Schema) (responses : List Response) :
    Exchange (WriteOutcome Unit) :=
  .single (d.request s) (WriteOutcome.ofResponse fun _ => .ok ()) responses

/-! ### What a caller writes -/

/-- A write that a caller asks for, and the type of what comes back of it.  The schema is that
of a model, that of a record, or one that is given. -/
inductive Write : Type → Type
  | putModel (m : Model) (d : ModelData) (options : WriteOptions) : Write Unit
  | putRecord (r : Record) (options : WriteOptions) : Write Unit
  | updateModel (m : Model) (u : UpdateItem) : Write ModelData
  | updateRecord (s : Schema) (u : UpdateItem) : Write Record
  | deleteModel (m : Model) (d : DeleteItem) : Write Unit
  | delete (s : Schema) (d : DeleteItem) : Write Unit

/-- Send something under the schema of a model, unless that cannot be built. -/
def Model.sendBuilt {α : Type} (m : Model) (registry : Registry) (send : Schema → Exchange α) :
    Exchange α :=
  match (m.schema registry).1 with
  | .error e => .unsent e
  | .ok s => send s

/-- Send a write. -/
def Write.send {α : Type} (w : Write α) (registry : Registry) (responses : List Response) :
    Exchange (WriteOutcome α) :=
  match w with
  | .putModel m d options => m.sendBuilt registry fun s => m.put s d options responses
  | .putRecord r options => r.put options responses
  | .updateModel m u => m.sendBuilt registry fun s => u.send s (m.load s) responses
  | .updateRecord s u => u.send s (Record.ofItem s) responses
  | .deleteModel m d => m.sendBuilt registry fun s => d.send s responses
  | .delete s d => d.send s responses

end ItemStore
