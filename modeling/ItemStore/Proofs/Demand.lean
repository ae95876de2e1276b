import ItemStore.Proofs.Coercion
import ItemStore.Proofs.Ordering
import ItemStore.Proofs.Renumbering
import ItemStore.Proofs.Resolution

/-!
# What a tree demands of its parts

A tree can be compiled only if its parts allow it: each reference has a name, each literal can be
sent, each membership test has a candidate, and each value that is taken as a set is one that can be
sent.  Read from the left, these are the demands of the tree.  A compilation meets them one by one:
it goes on past a demand that is met and ends at the first one that is not, with what is wrong
there.  So a run is known to succeed, and an error is known before anything is compiled.

The demands are put together as the tree is.  The candidates of a membership test are counted before
its operand is looked at, and the key half of a query comes before the half that filters.

## Main definitions

* `Value.Sendable` — all numbers are finite, and no set is empty, at any depth.
* `Demand`, `Demand.Met` — what is demanded, and when it is met; `Demand.error?` is what is wrong
  with a demand that is not met.
* `Operand.demands`, `Condition.demands` and their neighbours — the demands of trees.
* `Compile.Meets` — a compilation fails with what is wrong with the first demand that is not met.

## Main results

* `Value.exists_encode_iff` — the values that can be sent.
* `Compile.Meets.bind` — the demands of two steps.
* `Compilation.runFrom_cases` — what can be compiled, and what is wrong where it cannot.
-/

namespace ItemStore

open Compile (runFrom runFrom_bind runFrom_value)

/-! ### Values that can be sent -/

theorem Number.finite_iff_exists_text {n : Number} : n.Finite ↔ ∃ text, n.text? = some text := by
  constructor
  · exact Finite.exists_text
  · rintro ⟨text, h⟩
    cases n with
    | integer i => trivial
    | float x =>
      obtain ⟨hfinite, -⟩ := Option.ite_some_none_eq_some.mp h
      exact hfinite

namespace Value

theorem isEmpty_of_encodeElements {α : Type} [Ord α] {s : SortedSet α} {l : List α}
    (h : encodeElements s = .ok l) : s.isEmpty = false := by
  rw [← Bool.not_eq_true]
  intro hempty
  rw [encodeElements, if_pos hempty] at h
  cases h

theorem finite_of_encodeNumber {n : Number} {text : String} (h : encodeNumber n = .ok text) :
    n.Finite :=
  Number.finite_iff_exists_text.mpr ⟨text, encodeNumber_eq_ok.mp h⟩

/-- All numbers in the value are finite, and no set in it is empty. -/
def Sendable (v : Value) : Prop := (∀ n ∈ v.numbers, n.Finite) ∧ v.Filled

mutual

theorem sendable_of_encode : ∀ {v : Value} {w : Wire}, encode v = .ok w → v.Sendable
  | .null, _, _ | .bool _, _, _ | .string _, _, _ | .bytes _, _, _ => ⟨nofun, trivial⟩
  | .number n, w, h => by
    obtain ⟨text, htext, -⟩ := map_eq_ok.mp h
    exact ⟨List.forall_mem_singleton.mpr (finite_of_encodeNumber htext), trivial⟩
  | .stringSet s, w, h => by
    obtain ⟨l, hl, -⟩ := map_eq_ok.mp h
    exact ⟨nofun, isEmpty_of_encodeElements hl⟩
  | .binarySet s, w, h => by
    obtain ⟨l, hl, -⟩ := map_eq_ok.mp h
    exact ⟨nofun, isEmpty_of_encodeElements hl⟩
  | .numberSet s, w, h => by
    rw [encode] at h
    obtain ⟨l, hl, h⟩ := bind_eq_ok.mp h
    obtain ⟨texts, htexts, -⟩ := bind_eq_ok.mp h
    refine ⟨fun n hn => ?_, isEmpty_of_encodeElements hl⟩
    rw [encodeElements_eq_ok hl] at htexts
    obtain ⟨text, htext⟩ := exists_mapM_eq_ok.mp ⟨texts, htexts⟩ n hn
    exact finite_of_encodeNumber htext
  | .list items, w, h => by
    obtain ⟨ws, hws, -⟩ := map_eq_ok.mp h
    exact sendable_of_encodeItems hws
  | .tuple items, w, h => by
    obtain ⟨ws, hws, -⟩ := map_eq_ok.mp h
    exact sendable_of_encodeItems hws
  | .map entries, w, h => by
    obtain ⟨ws, hws, -⟩ := map_eq_ok.mp h
    exact sendable_of_encodeEntries hws

theorem sendable_of_encodeItems : ∀ {items : List Value} {ws : List Wire},
    encodeItems items = .ok ws → (∀ n ∈ numbersOfItems items, n.Finite) ∧ FilledItems items
  | [], _, _ => ⟨nofun, trivial⟩
  | v :: vs, ws, h => by
    rw [encodeItems] at h
    obtain ⟨w, hw, h⟩ := bind_eq_ok.mp h
    obtain ⟨ws, hws, -⟩ := bind_eq_ok.mp h
    obtain ⟨hfinite, hfilled⟩ := sendable_of_encode hw
    obtain ⟨hfinites, hfilleds⟩ := sendable_of_encodeItems hws
    exact ⟨List.forall_mem_append.mpr ⟨hfinite, hfinites⟩, hfilled, hfilleds⟩

theorem sendable_of_encodeEntries : ∀ {entries : List (String × Value)}
    {ws : List (String × Wire)}, encodeEntries entries = .ok ws →
    (∀ n ∈ numbersOfEntries entries, n.Finite) ∧ FilledEntries entries
  | [], _, _ => ⟨nofun, trivial⟩
  | (k, v) :: entries, ws, h => by
    rw [encodeEntries] at h
    obtain ⟨w, hw, h⟩ := bind_eq_ok.mp h
    obtain ⟨ws, hws, -⟩ := bind_eq_ok.mp h
    obtain ⟨hfinite, hfilled⟩ := sendable_of_encode hw
    obtain ⟨hfinites, hfilleds⟩ := sendable_of_encodeEntries hws
    exact ⟨List.forall_mem_append.mpr ⟨hfinite, hfinites⟩, hfilled, hfilleds⟩

end

/-- **The values that can be sent.** -/
theorem exists_encode_iff {v : Value} : (∃ w, encode v = .ok w) ↔ v.Sendable := by
  constructor
  · rintro ⟨w, h⟩
    exact sendable_of_encode h
  · rintro ⟨hfinite, hfilled⟩
    exact exists_encode_of_texts (fun n hn => (hfinite n hn).exists_text) hfilled

end Value

/-! ### Failures -/

/-- What a step fails with, if it fails. -/
def failure? {α : Type} : Except Error α → Option Error
  | .ok _ => none
  | .error e => some e

section Failure

variable {α β : Type} {step : Except Error α}

theorem failure?_eq_none_iff : failure? step = none ↔ ∃ a, step = .ok a := by
  cases step <;> simp [failure?]

theorem failure?_eq_some_iff {e : Error} : failure? step = some e ↔ step = .error e := by
  cases step <;> simp [failure?]

theorem failsAs_iff {kind : Error.Kind} :
    FailsAs kind step ↔ ∃ e, failure? step = some e ∧ e.kind = kind := by
  simp only [failure?_eq_some_iff, FailsAs]

theorem failure?_map {g : α → β} : failure? (step.map g) = failure? step := by
  cases step <;> rfl

end Failure

/-! ### Demands -/

/-- What a part of a tree demands. -/
inductive Demand
  /-- The reference has a name. -/
  | named (r : Reference)
  /-- The literal can be sent. -/
  | sent (v : Value)
  /-- There is a candidate. -/
  | candidates (os : List Operand)
  /-- The value can be taken as a set and sent. -/
  | elements (v : Value)

namespace Demand

/-- When a demand is met. -/
def Met : Demand → Prop
  | named r => ∃ name, r.name? = some name
  | sent v => v.Sendable
  | candidates os => os ≠ []
  | elements v => ∃ s, v.toSet = .ok s ∧ s.Sendable

/-- What kind of mistake it is not to meet a demand. -/
def kind : Demand → Error.Kind
  | named _ => .definition
  | sent _ => .unsupportedValue
  | candidates _ => .invalidCondition
  | elements _ => .unsupportedValue

/-- What is wrong with a demand that is not met. -/
def error? : Demand → Option Error
  | named r => if r.name?.isNone then some .unboundReference else none
  | sent v => failure? v.encode
  | candidates os => if os.isEmpty then some .noCandidates else none
  | elements v => failure? (v.toSet >>= Value.encode)

theorem error?_eq_none_iff {d : Demand} : d.error? = none ↔ d.Met := by
  cases d with
  | named r => cases h : r.name? <;> simp [error?, Met, h]
  | sent v => rw [error?, failure?_eq_none_iff, Value.exists_encode_iff, Met]
  | candidates os => cases os <;> simp [error?, Met]
  | elements v =>
    simp only [error?, failure?_eq_none_iff, bind_eq_ok, Met, ← Value.exists_encode_iff]
    exact ⟨fun ⟨w, s, hs, hw⟩ => ⟨s, hs, w, hw⟩, fun ⟨s, hs, w, hw⟩ => ⟨w, s, hs, hw⟩⟩

theorem kind_of_error? {d : Demand} {e : Error} (h : d.error? = some e) : e.kind = d.kind := by
  cases d with
  | named r =>
    obtain ⟨-, rfl⟩ := Option.ite_some_none_eq_some.mp h
    rfl
  | sent v => exact Value.kind_of_encode (failure?_eq_some_iff.mp h)
  | candidates os =>
    obtain ⟨-, rfl⟩ := Option.ite_some_none_eq_some.mp h
    rfl
  | elements v =>
    rcases bind_eq_error.mp (failure?_eq_some_iff.mp h) with hset | ⟨s, -, hencode⟩
    · exact Value.kind_of_toSet hset
    · exact Value.kind_of_encode hencode

end Demand

/-! ### Compilations that meet demands -/

namespace Compile

variable {α β ι : Type} {c : Compile α} {ds es : List Demand}

/-- From whatever number it starts, the compilation fails with what is wrong with the first demand
that is not met, and does not fail if all are met. -/
def Meets (c : Compile α) (ds : List Demand) : Prop :=
  ∀ n, failure? (runFrom c n).1 = ds.findSome? Demand.error?

theorem meets_pure (a : α) : Meets (pure a) [] := fun _ => rfl

theorem meets_name (name : String) : Meets (Compile.name name) [] := fun _ => rfl

theorem meets_value (v : Value) : Meets (Compile.value v.encode) [.sent v] := by
  intro n
  rw [runFrom_value, failure?_map, List.findSome?_cons, List.findSome?_nil, Demand.error?]
  cases failure? v.encode <;> rfl

/-- **The demands of two steps** are those of the first one and then those of the second. -/
theorem Meets.bind {k : α → Compile β} (hc : Meets c ds) (hk : ∀ a, Meets (k a) es) :
    Meets (c >>= k) (ds ++ es) := by
  intro n
  rw [List.findSome?_append, ← hc n, runFrom_bind]
  rcases runFrom c n with ⟨r, l⟩
  cases r with
  | error e => rfl
  | ok a => exact hk a l

theorem Meets.map (g : α → β) (hc : Meets c ds) : Meets (do return g (← c)) ds := by
  have hbind := hc.bind fun a => meets_pure (g a)
  rwa [List.append_nil] at hbind

/-- A demand that is looked at before the compilation. -/
theorem Meets.after {d : Demand} (hd : d.Met) (hc : Meets c ds) : Meets c (d :: ds) := by
  intro n
  rw [List.findSome?_cons, Demand.error?_eq_none_iff.mpr hd]
  exact hc n

theorem meets_throw {d : Demand} {e : Error} (h : d.error? = some e) :
    Meets (throw e : Compile α) (d :: ds) := by
  intro n
  rw [List.findSome?_cons, h]
  rfl

theorem meets_mapM {g : ι → Compile α} {demands : ι → List Demand} {l : List ι}
    (h : ∀ a ∈ l, Meets (g a) (demands a)) : Meets (l.mapM g) (l.flatMap demands) := by
  induction l with
  | nil => exact meets_pure []
  | cons a l ih =>
    obtain ⟨hhead, htail⟩ := List.forall_mem_cons.mp h
    rw [List.mapM_cons, List.flatMap_cons]
    exact hhead.bind fun b => (ih htail).map _

theorem meets_option_mapM {g : ι → Compile α} {demands : ι → List Demand} {o : Option ι}
    (h : ∀ a ∈ o, Meets (g a) (demands a)) : Meets (o.mapM g) (o.toList.flatMap demands) := by
  cases o with
  | none => exact meets_pure none
  | some a =>
    rw [Option.mapM_some, map_eq_pure_bind, Option.toList_some, List.flatMap_singleton]
    exact (h a rfl).map some

end Compile

open Compile

/-! ### The demands of trees -/

/-- What an operand demands. -/
def Operand.demands : Operand → List Demand
  | .path reference => [.named reference]
  | .literal value => [.sent value]
  | .size reference => [.named reference]
  | .arithmetic left _ right => left.demands ++ right.demands
  | .ifNotExists reference default => .named reference :: default.demands
  | .listAppend left right => left.demands ++ right.demands

/-- What a condition demands; the code of a type can always be sent. -/
def Condition.demands : Condition → List Demand
  | .compare left _ right => left.demands ++ right.demands
  | .between operand low high => operand.demands ++ low.demands ++ high.demands
  | .beginsWith reference lead => .named reference :: lead.demands
  | .contains reference operand => .named reference :: operand.demands
  | .exists reference => [.named reference]
  | .notExists reference => [.named reference]
  | .hasType reference _ => [.named reference]
  | .among operand candidates =>
    .candidates candidates :: (operand.demands ++ candidates.flatMap Operand.demands)
  | .joined _ left right => left.demands ++ right.demands

/-- What a projection demands. -/
def Projection.demands (p : Projection) : List Demand := p.references.map .named

/-- What an action demands. -/
def UpdateAction.demands : UpdateAction → List Demand
  | .set reference operand => .named reference :: operand.demands
  | .remove reference => [.named reference]
  | .add reference value => [.named reference, .elements value]
  | .delete reference value => [.named reference, .elements value]

/-- What an update demands. -/
def Update.demands : Update → List Demand
  | .action a => a.demands
  | .both left right => left.demands ++ right.demands

/-- What a query demands, the key half first. -/
def Query.demands (q : Query) : List Demand :=
  q.key.toList.flatMap Condition.demands ++ q.filter.toList.flatMap Condition.demands

/-- What a tree demands. -/
def Expression.demands : Expression → List Demand
  | operand o => o.demands
  | condition c => c.demands
  | projection p => p.demands

/-- What a compilation demands. -/
def Compilation.demands : Compilation → List Demand
  | expression e => e.demands
  | update u => u.demands
  | query q => q.demands

/-! ### Trees meet their demands -/

theorem Reference.meets_compileSteps (steps : List PathStep) : Meets (compileSteps steps) [] := by
  induction steps with
  | nil => exact meets_pure _
  | cons step steps ih =>
    cases step with
    | field name => exact (meets_name name).bind fun f => ih.map _
    | index position => exact ih.map _

theorem Reference.meets_compile (r : Reference) : Meets r.compile [.named r] := by
  unfold Reference.compile
  cases h : r.name? with
  | none => exact meets_throw (by simp [Demand.error?, h])
  | some name =>
    refine Meets.after ⟨name, h⟩ ?_
    exact (meets_name name).bind fun f => (meets_compileSteps r.path).map _

theorem Operand.meets_compile (o : Operand) : Meets o.compile o.demands := by
  induction o with
  | path r => exact r.meets_compile
  | literal v => exact meets_value v
  | size r => exact r.meets_compile.map _
  | arithmetic left o right ihl ihr => exact ihl.bind fun l => ihr.map _
  | ifNotExists r default ih => exact r.meets_compile.bind fun f => ih.map _
  | listAppend left right ihl ihr => exact ihl.bind fun l => ihr.map _

theorem Condition.meets_compile (c : Condition) : Meets c.compile c.demands := by
  induction c with
  | compare left c right => exact left.meets_compile.bind fun l => right.meets_compile.map _
  | between operand low high =>
    rw [demands, List.append_assoc]
    exact operand.meets_compile.bind fun x =>
      low.meets_compile.bind fun l => high.meets_compile.map _
  | beginsWith r lead => exact r.meets_compile.bind fun f => lead.meets_compile.map _
  | contains r operand => exact r.meets_compile.bind fun f => operand.meets_compile.map _
  | «exists» r => exact r.meets_compile.map _
  | notExists r => exact r.meets_compile.map _
  | hasType r type =>
    have hcode : Meets (Compile.value (.ok (.string type.code))) [] := fun _ => rfl
    exact r.meets_compile.bind fun f => hcode.map _
  | among operand candidates =>
    rw [Condition.compile, demands]
    split
    · next hnone => exact meets_throw (by rw [Demand.error?, if_pos hnone])
    · next hsome =>
      refine Meets.after (mt List.isEmpty_iff.mpr hsome) ?_
      exact operand.meets_compile.bind fun x =>
        (meets_mapM fun o _ => o.meets_compile).map _
  | joined c left right ihl ihr => exact ihl.bind fun l => ihr.map _

theorem Projection.meets_compile (p : Projection) : Meets p.compile p.demands := by
  have hreferences := meets_mapM (l := p.references) fun r _ => r.meets_compile
  rw [← List.map_eq_flatMap] at hreferences
  exact hreferences.map _

theorem UpdateAction.meets_compileSetAction (r : Reference) (v : Value) :
    Meets (compileSetAction r v) [.named r, .elements v] := by
  refine r.meets_compile.bind fun f => ?_
  cases hset : v.toSet with
  | error e => exact meets_throw (by rw [Demand.error?, hset]; rfl)
  | ok s =>
    -- The value is demanded to be sent as the set that it is taken as.
    have helements : (Demand.elements v).error? = (Demand.sent s).error? := by
      show failure? (v.toSet >>= Value.encode) = failure? s.encode
      rw [hset]
      rfl
    intro n
    rw [List.findSome?_cons, helements]
    exact (meets_value s).map _ n

theorem UpdateAction.meets_compile (a : UpdateAction) : Meets a.compile a.demands := by
  cases a with
  | set r operand => exact r.meets_compile.bind fun f => operand.meets_compile.map _
  | remove r => exact r.meets_compile
  | add r v => exact meets_compileSetAction r v
  | delete r v => exact meets_compileSetAction r v

/-- The demands of an update are those of its actions, whatever their clauses. -/
theorem Update.demands_eq_flatMap (u : Update) :
    u.demands = u.actions.flatMap UpdateAction.demands := by
  induction u with
  | action a => exact (List.flatMap_singleton ..).symm
  | both left right ihl ihr => rw [demands, actions, ihl, ihr, List.flatMap_append]

theorem Update.meets_compile (u : Update) : Meets u.compile u.demands := by
  rw [u.demands_eq_flatMap, u.compile_eq_mapM]
  exact (meets_mapM fun a _ => a.meets_compile.map _).map _

theorem Query.meets_compile (q : Query) : Meets q.compile q.demands :=
  (meets_option_mapM fun c _ => c.meets_compile).bind fun _ =>
    (meets_option_mapM fun c _ => c.meets_compile).map _

theorem Expression.meets_compile (e : Expression) : Meets e.compile e.demands := by
  cases e with
  | operand o => exact o.meets_compile
  | condition c => exact c.meets_compile
  | projection p => exact p.meets_compile

namespace Compilation

theorem meets_compile (c : Compilation) : Meets c.compile c.demands := by
  cases c with
  | expression e => exact e.meets_compile.map _
  | update u => exact u.meets_compile.map _
  | query q => exact q.meets_compile.map _

/-- **What can be compiled, and what is wrong where it cannot.**

From every number, a compilation succeeds if, and only if, each reference in it has a name, each
literal can be sent, each membership test has a candidate, and each value that is taken as a set is
taken as one that can be sent.  It fails with an error of a kind if, and only if, this is the kind
of the first demand that is not met, and all before it are. -/
theorem runFrom_cases (c : Compilation) (n : Nat) :
    ((∃ places, (runFrom c.compile n).1 = .ok places) ↔
      (∀ r, .named r ∈ c.demands → ∃ name, r.name? = some name) ∧
      (∀ v, .sent v ∈ c.demands → v.Sendable) ∧
      (∀ os, .candidates os ∈ c.demands → os ≠ []) ∧
      ∀ v, .elements v ∈ c.demands → ∃ s, v.toSet = .ok s ∧ s.Sendable) ∧
    ∀ kind, FailsAs kind (runFrom c.compile n).1 ↔
      ∃ before d after, c.demands = before ++ d :: after ∧ (∀ x ∈ before, x.Met) ∧ ¬ d.Met ∧
        d.kind = kind := by
  have hmeets := c.meets_compile n
  constructor
  · rw [← failure?_eq_none_iff, hmeets, List.findSome?_eq_none_iff]
    simp only [Demand.error?_eq_none_iff]
    constructor
    · intro hmet
      exact ⟨fun r hr => hmet _ hr, fun v hv => hmet _ hv, fun os hos => hmet _ hos,
        fun v hv => hmet _ hv⟩
    · rintro ⟨hnamed, hsent, hcandidates, helements⟩ d hd
      cases d with
      | named r => exact hnamed r hd
      | sent v => exact hsent v hd
      | candidates os => exact hcandidates os hd
      | elements v => exact helements v hd
  · intro kind
    rw [failsAs_iff, hmeets]
    simp only [List.findSome?_eq_some_iff, Demand.error?_eq_none_iff]
    constructor
    · rintro ⟨e, ⟨before, d, after, hdemands, herror, hbefore⟩, hkind⟩
      have hnot : ¬ d.Met := by
        rw [← Demand.error?_eq_none_iff, herror]
        exact Option.some_ne_none e
      exact ⟨before, d, after, hdemands, hbefore, hnot,
        (Demand.kind_of_error? herror).symm.trans hkind⟩
    · rintro ⟨before, d, after, hdemands, hbefore, hnot, hkind⟩
      obtain ⟨e, herror⟩ := Option.ne_none_iff_exists'.mp (mt Demand.error?_eq_none_iff.mp hnot)
      exact ⟨e, ⟨before, d, after, hdemands, herror, hbefore⟩,
        (Demand.kind_of_error? herror).trans hkind⟩

/-- A membership test without candidates is refused before its operand is looked at, and the half
that filters only after the key half. -/
example :
    let c := query ⟨some (.among (.path .unnamed) []), some (.exists .unnamed)⟩
    FailsAs .invalidCondition (runFrom c.compile 3).1 :=
  ⟨.noCandidates, rfl, rfl⟩

end Compilation

end ItemStore
