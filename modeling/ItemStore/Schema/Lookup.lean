import ItemStore.Schema.Registry

/-!
# Lookups at the same time

A lookup takes the registry twice, and builds a schema in between.  It takes it to see whether
there is a schema, and again to keep the one that it has built.  Meanwhile the registry is there
for others, so a schema may be kept that was not there before, and what is declared of a model may
be something else each time that it is asked for.

## Main definitions

* `Lookup`, `Lookup.Stage` — a lookup, and how far it has come.
* `Lookup.Turn`, `Lookup.advance` — what a lookup does without interruption.
* `Lookups` — the lookups that share a registry.
* `Lookups.step`, `Lookups.run` — their turns, in any order.
-/

namespace ItemStore

/-- How far a lookup has come. -/
inductive Lookup.Stage
  /-- The model was asked for. -/
  | asked
  /-- There was no schema. -/
  | absent
  /-- A schema was built. -/
  | built (s : Schema)
  | returned (result : Except Error Schema)

/-- A lookup of the schema of a model. -/
structure Lookup where
  model : String
  stage : Lookup.Stage

/-- What a lookup does without interruption. -/
inductive Lookup.Turn
  /-- See whether there is a schema. -/
  | check
  /-- Build the schema of what is declared at this time. -/
  | build (draft : SchemaDraft)
  /-- Keep the schema unless there is one by now. -/
  | insert

namespace Lookup

/-- The registry and the lookup after a turn, if it is the lookup's turn to take. -/
def advance (l : Lookup) (r : Registry) (t : Turn) : Option (Registry × Lookup) :=
  match l.stage, t with
  | .asked, .check =>
    match r.find? l.model with
    | some kept => some (r, { l with stage := .returned (.ok kept) })
    | none => some (r, { l with stage := .absent })
  | .absent, .build draft =>
    match draft.build with
    | .error e => some (r, { l with stage := .returned (.error e) })
    | .ok s => some (r, { l with stage := .built s })
  | .built s, .insert =>
    let (kept, r) := r.insertIfAbsent l.model s
    some (r, { l with stage := .returned (.ok kept) })
  | _, _ => none

end Lookup

/-- A registry, and the lookups that share it in the order of their calls. -/
structure Lookups where
  registry : Registry
  lookups : List Lookup

/-- What happens to lookups. -/
inductive Lookups.Event
  | call (model : String)
  | turn (caller : Nat) (t : Lookup.Turn)

namespace Lookups

/-- No model was asked for yet. -/
def initial : Lookups := ⟨[], []⟩

/-- The lookups after an event, if it can happen. -/
def step (σ : Lookups) : Event → Option Lookups
  | .call model => some { σ with lookups := σ.lookups ++ [⟨model, .asked⟩] }
  | .turn caller t => do
    let l ← σ.lookups[caller]?
    let (registry, l) ← l.advance σ.registry t
    return ⟨registry, σ.lookups.set caller l⟩

/-- The lookups after some events, if these can happen in this order. -/
def run (σ : Lookups) (events : List Event) : Option Lookups := events.foldlM step σ

end Lookups

end ItemStore
