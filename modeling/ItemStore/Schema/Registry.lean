import ItemStore.Schema

/-!
# Schema registry

The schema of a model is built when it is first asked for and kept from then on.  A
caller that finds none builds one and offers it; if another caller was faster, the
schema that is kept is the other one.

## Main definitions

* `Registry` — the schemas that were built, by model.
* `Registry.find?`, `Registry.insertIfAbsent` — the two steps on the shared registry.
* `Registry.lookup` — the steps of one caller, without interruption.
-/

namespace ItemStore

/-- The schemas that were built, by the name of their model. -/
abbrev Registry := Dict String Schema

namespace Registry

/-- The schema that is kept for a model. -/
def find? (r : Registry) (model : String) : Option Schema := r.get? model

/-- Keep a schema unless there is one: the schema that is kept, and the registry. -/
def insertIfAbsent (r : Registry) (model : String) (s : Schema) : Schema × Registry :=
  match r.find? model with
  | some kept => (kept, r)
  | none => (s, r.insert model s)

/-- The schema of a model, built if there is none yet. -/
def lookup (r : Registry) (model : String) (draft : SchemaDraft) :
    Except Error Schema × Registry :=
  match r.find? model with
  | some kept => (.ok kept, r)
  | none =>
    match draft.build with
    | .error e => (.error e, r)
    | .ok s =>
      let (kept, r) := r.insertIfAbsent model s
      (.ok kept, r)

end Registry

end ItemStore
