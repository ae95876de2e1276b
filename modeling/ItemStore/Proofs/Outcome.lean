import ItemStore.Exchange.Write
import ItemStore.Proofs.Binding
import ItemStore.Proofs.Renumbering

/-!
# What comes of a write

A write is put together from parts: the schema, the item or the key, the update and the
condition.  If one of them cannot be built, nothing is sent, and the first mistake is returned.
Otherwise one request is sent, which carries the parts, and the response settles the outcome: a
write is not applied only if the store has refused it because its condition does not hold.

Each part is looked at by itself.  Only the condition of an update is not compiled by itself, as
it goes on with the placeholders where the update has left off; but whether it can be compiled,
and with which error it cannot, does not depend on where the placeholders start.

## Main definitions

* `Write.Parts` — what a write is put together from, under its schema.
* `Write.mistakes` — the mistakes in the parts of a write.
* `Write.Parts.Carries` — a request carries the parts.
* `WriteOutcome.Settles` — what a response makes of a write.

## Main results

* `WriteOptions.shifted_compile` — a condition is compiled in the same way from every number.
* `Write.Parts.mistake_request`, `Write.Parts.carries_of_request` — the mistake in the request
  is the first one in the parts, and a request without a mistake carries them.
* `Write.send_eq` — every write sends the request of its parts.
* `Write.send_spec` — what comes of a write.
-/

namespace ItemStore

open Compile (Shifted shifted_pure)

/-- The condition of a write is compiled in the same way from every number. -/
theorem WriteOptions.shifted_compile (k : Nat) (o : WriteOptions) :
    Shifted k (Option.map (Fragment.shift k)) o.compile o.compile := by
  unfold WriteOptions.compile
  cases o.condition with
  | none => exact shifted_pure k _ none
  | some q =>
    cases hcondition : q.condition with
    | error e =>
      simp only [hcondition]
      intro n
      rfl
    | ok c =>
      simp only [hcondition]
      exact (Expression.shifted_compile k (.condition c)).map fun _ => rfl

namespace Write

/-! ### The parts of a write -/

/-- What a write is put together from, apart from its schema. -/
structure Parts where
  operation : Operation
  /-- The item that is written. -/
  item : Except Error (Option Item)
  /-- The key of the item that is changed or deleted. -/
  key : Except Error (Option Item)
  /-- The changes. -/
  update : Compile (Option Fragment)
  options : WriteOptions

variable {α : Type}

/-- The schema of a write. -/
def schema (registry : Registry) : Write α → Except Error Schema
  | .putModel m .. => (m.schema registry).1
  | .putRecord r _ => .ok r.schema
  | .updateModel m _ => (m.schema registry).1
  | .updateRecord s _ => .ok s
  | .deleteModel m _ => (m.schema registry).1
  | .delete s _ => .ok s

/-- An item that is written as a whole. -/
def putParts (item : Except Error Item) (options : WriteOptions) : Parts :=
  ⟨.putItem, item.map some, .ok none, pure none, options⟩

/-- An item that is changed. -/
def updateParts (s : Schema) (u : UpdateItem) : Parts :=
  ⟨.updateItem, .ok none, (u.key.resolve s).map some, do return some (← u.update.compile),
    u.options⟩

/-- An item that is deleted. -/
def deleteParts (s : Schema) (d : DeleteItem) : Parts :=
  ⟨.deleteItem, .ok none, (d.key.resolve s).map some, pure none, d.options⟩

/-- The other parts of a write, under its schema. -/
def parts (s : Schema) : Write α → Parts
  | .putModel m d options => putParts (m.store s d) options
  | .putRecord r options => putParts r.toItem options
  | .updateModel _ u => updateParts s u
  | .updateRecord _ u => updateParts s u
  | .deleteModel _ d => deleteParts s d
  | .delete _ d => deleteParts s d

/-- What an applied write gives: an update the item as it is afterwards, read as a model or as a
record, and other writes nothing. -/
def read (s : Schema) : Write α → Answer → Except Error α
  | .putModel .., _ => .ok ()
  | .putRecord .., _ => .ok ()
  | .updateModel m _, a => m.load s (a.attributes.getD [])
  | .updateRecord _ _, a => Record.ofItem s (a.attributes.getD [])
  | .deleteModel .., _ => .ok ()
  | .delete .., _ => .ok ()

/-- The mistake in a part, if it cannot be built. -/
def mistake {β : Type} : Except Error β → List Error
  | .ok _ => []
  | .error e => [e]

namespace Parts

/-- The mistakes in the parts of a write, each of which is built by itself. -/
def mistakes (p : Parts) : List Error :=
  mistake p.item ++ mistake p.key ++ mistake p.update.result ++ mistake p.options.compile.result

/-- The request with the parts of a write. -/
def carrying (p : Parts) (s : Schema) (item key : Option Item)
    (update condition : Option Fragment) : Request where
  operation := p.operation
  table := some s.table
  item := item
  key := key
  update := update.map Fragment.symbols
  condition := condition.map Fragment.symbols
  names := (Fragment.allNames (condition.toList ++ update.toList)).nonEmpty?
  values := (Fragment.allValues (condition.toList ++ update.toList)).nonEmpty?
  returnConsumedCapacity := p.options.returnConsumedCapacity
  returnItemCollectionMetrics := p.options.returnItemCollectionMetrics
  returnValues := if p.operation = .updateItem then some "ALL_NEW" else none

/-- The request carries the parts of a write.  The condition goes on with the placeholders where
the update has left off. -/
def Carries (p : Parts) (s : Schema) (r : Request) : Prop :=
  ∃ item key update n condition m, p.item = .ok item ∧ p.key = .ok key ∧
    Compile.runFrom p.update 0 = (.ok update, n) ∧
    Compile.runFrom p.options.compile n = (.ok condition, m) ∧
    r = p.carrying s item key update condition

/-- The expressions of a write. -/
def compile (p : Parts) : Compile (Option Fragment × Option Fragment) := do
  let update ← p.update
  let condition ← p.options.compile
  return (update, condition)

/-- The request of a write. -/
def request (p : Parts) (s : Schema) : Except Error Request := do
  let item ← p.item
  let key ← p.key
  let (update, condition) ← p.compile.result
  return p.carrying s item key update condition

/-- A request that could be built carries the parts. -/
theorem carries_of_request {p : Parts} {s : Schema} {r : Request} (h : p.request s = .ok r) :
    p.Carries s r := by
  obtain ⟨item, hitem, h⟩ := bind_eq_ok.mp h
  obtain ⟨key, hkey, h⟩ := bind_eq_ok.mp h
  obtain ⟨⟨update, condition⟩, hrun, h⟩ := bind_eq_ok.mp h
  obtain rfl := pure_eq_ok.mp h
  obtain ⟨m, hrun⟩ := Compile.result_eq_ok.mp hrun
  simp only [compile, Compile.runFrom_bind_eq_ok, Compile.runFrom_pure_eq_ok] at hrun
  obtain ⟨update', n, hupdate, condition', m, hcondition, heq, rfl⟩ := hrun
  cases heq
  exact ⟨item, key, update, n, condition, m, hitem, hkey, hupdate, hcondition, rfl⟩

end Parts

/-! ### The first mistake -/

section Mistakes

variable {β γ : Type}

theorem mistake_map (x : Except Error β) (f : β → γ) : mistake (x.map f) = mistake x := by
  cases x <;> rfl

theorem eq_error_of_mistake {x : Except Error β} {e : Error} (h : mistake x = [e]) :
    x = .error e := by
  cases x with
  | error e' =>
    cases h
    rfl
  | ok a => cases h

theorem exists_of_mistake {x : Except Error β} (h : mistake x = []) : ∃ a, x = .ok a := by
  cases x with
  | error e => cases h
  | ok a => exact ⟨a, rfl⟩

/-- Of two steps, the second one is made only without a mistake in the first one. -/
theorem mistake_bind {x : Except Error β} {g : β → Except Error γ} {es : List Error}
    (h : ∀ a, x = .ok a → mistake (g a) = es.take 1) :
    mistake (x >>= g) = (mistake x ++ es).take 1 := by
  cases x with
  | error e => rfl
  | ok a => exact h a rfl

/-- Where the placeholders start does not matter for a mistake in the condition. -/
theorem mistake_runFrom_compile (o : WriteOptions) (n : Nat) :
    mistake (Compile.runFrom o.compile n).1 = mistake o.compile.result := by
  rw [Compile.runFrom_of_shifted fun k => o.shifted_compile k]
  exact mistake_map _ _

end Mistakes

namespace Parts

/-- Nothing but the update and the condition is compiled. -/
theorem mistake_compile (p : Parts) :
    mistake p.compile.result =
      (mistake p.update.result ++ mistake p.options.compile.result).take 1 := by
  rw [Compile.result, Compile.result, compile, Compile.runFrom_bind]
  rcases Compile.runFrom p.update 0 with ⟨update, n⟩
  cases update with
  | error e => rfl
  | ok update =>
    rw [← mistake_runFrom_compile p.options n]
    simp only
    rw [Compile.runFrom_bind]
    rcases Compile.runFrom p.options.compile n with ⟨condition, m⟩
    cases condition <;> rfl

/-- **The mistake in the request** is the first one in the parts. -/
theorem mistake_request (p : Parts) (s : Schema) :
    mistake (p.request s) = p.mistakes.take 1 := by
  rw [mistakes, List.append_assoc, List.append_assoc]
  refine mistake_bind fun item _ => mistake_bind fun key _ => ?_
  rw [← mistake_compile]
  cases p.compile.result <;> rfl

end Parts

/-! ### Sending -/

/-- Without an update the condition is compiled by itself. -/
theorem result_compile_of_pure {p : Parts} (h : p.update = pure none) :
    p.compile.result = p.options.compile.result.map (none, ·) := by
  rw [Compile.result, Compile.result, Parts.compile, h, Compile.runFrom_bind, Compile.runFrom_pure]
  simp only
  rw [Compile.runFrom_bind]
  rcases Compile.runFrom p.options.compile 0 with ⟨condition, m⟩
  cases condition <;> rfl

theorem result_compile_updateParts (s : Schema) (u : UpdateItem) :
    (updateParts s u).compile.result = u.compile.result.map (Prod.map some id) := by
  rw [Compile.result, Compile.result, Parts.compile, UpdateItem.compile, updateParts, bind_assoc,
    Compile.runFrom_bind, Compile.runFrom_bind]
  rcases Compile.runFrom u.update.compile 0 with ⟨update, n⟩
  cases update with
  | error e => rfl
  | ok update =>
    simp only [pure_bind]
    rw [Compile.runFrom_bind, Compile.runFrom_bind]
    rcases Compile.runFrom u.options.compile n with ⟨condition, m⟩
    cases condition <;> rfl

theorem request_putParts (item : Item) (o : WriteOptions) (s : Schema) :
    (putParts (.ok item) o).request s = PutItem.request ⟨item, o⟩ s := by
  rw [Parts.request, result_compile_of_pure rfl, PutItem.request]
  simp only [putParts]
  cases o.compile.result with
  | error e => rfl
  | ok condition => cases condition <;> rfl

theorem request_updateParts (s : Schema) (u : UpdateItem) :
    (updateParts s u).request s = u.request s := by
  rw [Parts.request, result_compile_updateParts, UpdateItem.request]
  simp only [updateParts]
  cases u.key.resolve s with
  | error e => rfl
  | ok key => cases u.compile.result <;> rfl

theorem request_deleteParts (s : Schema) (d : DeleteItem) :
    (deleteParts s d).request s = d.request s := by
  rw [Parts.request, result_compile_of_pure rfl, DeleteItem.request]
  simp only [deleteParts]
  cases d.key.resolve s with
  | error e => rfl
  | ok key =>
    cases d.options.compile.result with
    | error e => rfl
    | ok condition => cases condition <;> rfl

/-- An item that is written as a whole is sent as the request of its parts. -/
theorem sendBuilt_eq (item : Except Error Item) (o : WriteOptions) (s : Schema)
    (responses : List Response) :
    PutItem.sendBuilt item o s responses =
      .single ((putParts item o).request s) (WriteOutcome.ofResponse fun _ => .ok ())
        responses := by
  cases item with
  | error e => rfl
  | ok item =>
    rw [request_putParts]
    rfl

/-- **Every write sends the request of its parts**, if there is a schema. -/
theorem send_eq (w : Write α) (registry : Registry) (responses : List Response) :
    w.send registry responses =
      match w.schema registry with
      | .error e => .unsent e
      | .ok s => .single ((w.parts s).request s) (WriteOutcome.ofResponse (w.read s))
          responses := by
  cases w with
  | putModel m d options =>
    rw [send, Model.sendBuilt, schema]
    cases (m.schema registry).1 with
    | error e => rfl
    | ok s => exact sendBuilt_eq (m.store s d) options s responses
  | putRecord r options => exact sendBuilt_eq r.toItem options r.schema responses
  | updateModel m u =>
    rw [send, Model.sendBuilt, schema]
    cases (m.schema registry).1 with
    | error e => rfl
    | ok s =>
      simp only [parts, request_updateParts]
      rfl
  | updateRecord s u =>
    simp only [schema, parts, request_updateParts]
    rfl
  | deleteModel m d =>
    rw [send, Model.sendBuilt, schema]
    cases (m.schema registry).1 with
    | error e => rfl
    | ok s =>
      simp only [parts, request_deleteParts]
      rfl
  | delete s d =>
    simp only [schema, parts, request_deleteParts]
    rfl

end Write

/-! ### What a response settles -/

namespace WriteOutcome

variable {α : Type}

/-- What a response makes of a write. -/
inductive Settles (read : Answer → Except Error α) : Response → Except Failure (WriteOutcome α) → Prop
  | applied {a : Answer} {v : α} : read a = .ok v → Settles read (.answer a) (.ok (.applied v))
  /-- The write was applied, but what came back cannot be read. -/
  | unreadable {a : Answer} {e : Error} :
    read a = .error e → Settles read (.answer a) (.error (.caller e))
  | notApplied : Settles read (.refusal conditionFailed) (.ok .notApplied)
  | refused {code : String} :
    code ≠ conditionFailed → Settles read (.refusal code) (.error (.refused code))
  | lost : Settles read .lost (.error .lost)

/-- Every response settles the write. -/
theorem settles_ofResponse (read : Answer → Except Error α) (response : Response) :
    Settles read response (ofResponse read response) := by
  cases response with
  | answer a =>
    change Settles read (.answer a) (((read a).mapError .caller).map .applied)
    cases hread : read a with
    | ok v => exact .applied hread
    | error e => exact .unreadable hread
  | refusal code =>
    rw [ofResponse]
    by_cases hcode : code = conditionFailed
    · rw [if_pos hcode, hcode]
      exact .notApplied
    · rw [if_neg hcode]
      exact .refused hcode
  | lost => exact .lost

/-- **When a write is not applied.** -/
theorem Settles.eq_notApplied_iff {read : Answer → Except Error α} {response : Response}
    {result : Except Failure (WriteOutcome α)} (h : Settles read response result) :
    result = .ok .notApplied ↔ response = .refusal conditionFailed := by
  cases h with
  | applied _ => simp
  | unreadable _ => simp
  | notApplied => simp
  | refused hcode => simpa using hcode
  | lost => simp

end WriteOutcome

/-! ### What comes of a write -/

namespace Write

variable {α : Type}

/-- The mistakes in a write, in the order of its parts.  Without a schema there are no others. -/
def mistakes (w : Write α) (registry : Registry) : List Error :=
  match w.schema registry with
  | .error e => [e]
  | .ok s => (w.parts s).mistakes

/-- **What comes of a write.**

If some part of it cannot be built, nothing is sent, and the first mistake is returned.
Otherwise one request is sent, which carries the parts; the response to it settles the write,
and it is not applied if, and only if, the store has refused it because its condition does not
hold. -/
theorem send_spec (w : Write α) (registry : Registry) (responses : List Response) :
    (∀ e rest, w.mistakes registry = e :: rest →
      w.send registry responses = ⟨[], .error (.caller e)⟩) ∧
    (w.mistakes registry = [] →
      ∃ s r, w.schema registry = .ok s ∧ (w.parts s).Carries s r ∧
        (w.send registry responses).requests = [r] ∧
        WriteOutcome.Settles (w.read s) (Exchange.firstResponse responses)
          (w.send registry responses).result ∧
        ((w.send registry responses).result = .ok .notApplied ↔
          Exchange.firstResponse responses = .refusal WriteOutcome.conditionFailed)) := by
  rw [send_eq, mistakes]
  cases hschema : w.schema registry with
  | error e =>
    refine ⟨fun e' rest h => ?_, fun h => ?_⟩
    · cases h
      rfl
    · cases h
  | ok s =>
    have hmistake := (w.parts s).mistake_request s
    simp only
    refine ⟨fun e rest h => ?_, fun h => ?_⟩
    · rw [h] at hmistake
      rw [eq_error_of_mistake hmistake]
      rfl
    · rw [h] at hmistake
      obtain ⟨r, hr⟩ := exists_of_mistake hmistake
      rw [hr]
      have hsettles := WriteOutcome.settles_ofResponse (w.read s) (Exchange.firstResponse responses)
      exact ⟨s, r, rfl, Parts.carries_of_request hr, rfl, hsettles, hsettles.eq_notApplied_iff⟩

/-- An update that the store refuses because its condition does not hold.  With a key that does
not fit and a condition that cannot be written, nothing is sent, and the key is reported. -/
theorem send_spec_update :
    let s : Schema := ⟨"table", none, []⟩
    let update : Update := .action (.set (.named "a") (.literal (.bool true)))
    let empty : Operand := .literal (.stringSet .empty)
    let w : Write Record := .updateRecord s
      ⟨.explicit [], update, { condition := some (.ofFilter (.exists (.named "b"))) }⟩
    let w' : Write Record := .updateRecord s
      ⟨.partition .null, update,
        { condition := some (.ofFilter (.compare (.path (.named "b")) .equal empty)) }⟩
    (∃ r, (w.send [] [.refusal "ConditionalCheckFailedException"]).requests = [r] ∧
        r.update.map Symbol.render = some "SET #n0 = :v1" ∧
        r.condition.map Symbol.render = some "attribute_exists(#n2)") ∧
      (w.send [] [.refusal "ConditionalCheckFailedException"]).result = .ok .notApplied ∧
      w'.mistakes [] = [.shorthandMismatch 1 "table" [], .emptySet] ∧
      w'.send [] [] = ⟨[], .error (.caller (.shorthandMismatch 1 "table" []))⟩ := by
  intro s update empty w w'
  have hnone : w.mistakes [] = [] := rfl
  have hboth : w'.mistakes [] = [.shorthandMismatch 1 "table" [], .emptySet] := rfl
  obtain ⟨s', r, hs, ⟨item, key, f, n, condition, m, hitem, hkey, hupdate, hcondition, hr⟩,
    hrequests, -, hiff⟩ := (send_spec w [] [.refusal "ConditionalCheckFailedException"]).2 hnone
  refine ⟨⟨r, hrequests, ?_⟩, hiff.mpr rfl, hboth, (send_spec w' [] []).1 _ _ hboth⟩
  cases hs
  cases hitem
  cases hkey
  cases hupdate
  cases hcondition
  rw [hr]
  decide

end Write

end ItemStore
