import ItemStore.Expression.Update
import ItemStore.Expression.Query
import ItemStore.Schema.Projection

/-!
# Runs of compilations

A compilation either fails or takes the counter from one number to another and yields
something.  What it yields is described here without the monad, by one relation for each
kind of tree: `o.Compiled n f m` says that compiling `o` from the counter `n` yields the
fragment `f` and leaves the counter at `m`.  Everything that is said later about compiled
expressions is proved by induction on these relations.

## Main definitions

* `Compile.Each R n as bs m` — `R` relates two lists item by item, the counter going
  through them from the left.
* `Reference.Compiled`, `Operand.Compiled`, `Condition.Compiled`, `UpdateAction.Compiled` —
  the runs that succeed.

## Main results

* `Operand.compiled_iff`, `Condition.compiled_iff` and their neighbours — the relations
  are the runs of the compilers.
-/

namespace ItemStore

namespace Compile

variable {α β : Type}

/-! ### The monad -/

@[simp] theorem runFrom_pure (a : α) (n : Nat) : runFrom (pure a) n = (.ok a, n) := rfl

@[simp] theorem runFrom_throw (e : Error) (n : Nat) :
    runFrom (throw e : Compile α) n = (.error e, n) := rfl

@[simp] theorem runFrom_draw (n : Nat) : runFrom draw n = (.ok n, n + 1) := rfl

@[simp] theorem runFrom_name (name : String) (n : Nat) :
    runFrom (Compile.name name) n = (.ok (.name n name), n + 1) := rfl

theorem runFrom_bind (c : Compile α) (k : α → Compile β) (n : Nat) :
    runFrom (c >>= k) n = match runFrom c n with
      | (.ok a, l) => runFrom (k a) l
      | (.error e, l) => (.error e, l) := by
  simp only [runFrom, ExceptT.run_bind, StateT.run_bind]
  rcases c.run.run n with ⟨r, l⟩
  cases r with
  | error e => rfl
  | ok a => rfl

/-- A run in two steps succeeds if both steps do. -/
theorem runFrom_bind_eq_ok {c : Compile α} {k : α → Compile β} {n m : Nat} {b : β} :
    runFrom (c >>= k) n = (.ok b, m) ↔
      ∃ a l, runFrom c n = (.ok a, l) ∧ runFrom (k a) l = (.ok b, m) := by
  rw [runFrom_bind]
  rcases runFrom c n with ⟨r, l⟩
  cases r with
  | error e => simp
  | ok a =>
    constructor
    · intro h
      exact ⟨a, l, rfl, h⟩
    · rintro ⟨_, _, h, hk⟩
      cases h
      exact hk

theorem runFrom_map_eq_ok {c : Compile α} {g : α → β} {n m : Nat} {b : β} :
    runFrom (g <$> c) n = (.ok b, m) ↔ ∃ a, runFrom c n = (.ok a, m) ∧ b = g a := by
  rw [map_eq_pure_bind, runFrom_bind_eq_ok]
  constructor
  · rintro ⟨a, l, ha, h⟩
    cases h
    exact ⟨a, ha, rfl⟩
  · rintro ⟨a, ha, rfl⟩
    exact ⟨a, m, ha, rfl⟩

theorem runFrom_pure_eq_ok {a b : α} {n m : Nat} :
    runFrom (pure a) n = (.ok b, m) ↔ b = a ∧ m = n := by
  simp only [runFrom_pure, Prod.mk.injEq, Except.ok.injEq, eq_comm]

theorem runFrom_throw_eq_ok {e : Error} {a : α} {n m : Nat} :
    runFrom (throw e : Compile α) n = (.ok a, m) ↔ False := by
  simp

theorem runFrom_value (v : Except Error Wire) (n : Nat) :
    runFrom (Compile.value v) n = (v.map (.value n), n + 1) := by
  unfold Compile.value
  rw [runFrom_bind]
  cases v with
  | error e => rfl
  | ok w => rfl

theorem runFrom_value_eq_ok {v : Except Error Wire} {n m : Nat} {f : Fragment} :
    runFrom (Compile.value v) n = (.ok f, m) ↔ ∃ w, v = .ok w ∧ f = .value n w ∧ m = n + 1 := by
  rw [runFrom_value, Prod.mk.injEq, map_eq_ok]
  simp only [eq_comm, and_assoc, ← exists_and_right]

/-! ### Lists -/

/-- The relation `R` holds item by item, the counter going through the lists from the
left. -/
inductive Each (R : α → Nat → β → Nat → Prop) : List α → Nat → List β → Nat → Prop
  | nil {n : Nat} : Each R [] n [] n
  | cons {a : α} {b : β} {as : List α} {bs : List β} {n l m : Nat} :
    R a n b l → Each R as l bs m → Each R (a :: as) n (b :: bs) m

theorem Each.imp {R S : α → Nat → β → Nat → Prop} (hRS : ∀ a n b m, R a n b m → S a n b m)
    {as : List α} {bs : List β} {n m : Nat} (h : Each R as n bs m) : Each S as n bs m := by
  induction h with
  | nil => exact .nil
  | cons hab _ ih => exact .cons (hRS _ _ _ _ hab) ih

/-- What holds of each item that is compiled. -/
theorem Each.forall_mem {R : α → Nat → β → Nat → Prop} {P : β → Prop}
    (hRP : ∀ a n b m, R a n b m → P b) {as : List α} {bs : List β} {n m : Nat}
    (h : Each R as n bs m) : ∀ b ∈ bs, P b := by
  induction h with
  | nil => simp
  | cons hab _ ih => simpa using ⟨hRP _ _ _ _ hab, ih⟩

/-- Compiling a list is compiling its items from the left. -/
theorem runFrom_mapM_eq_ok {g : α → Compile β} {as : List α} {bs : List β} {n m : Nat} :
    runFrom (as.mapM g) n = (.ok bs, m) ↔
      Each (fun a n b m => runFrom (g a) n = (.ok b, m)) as n bs m := by
  induction as generalizing n bs with
  | nil =>
    rw [List.mapM_nil, runFrom_pure_eq_ok]
    constructor
    · rintro ⟨rfl, rfl⟩
      exact .nil
    · intro h
      cases h
      exact ⟨rfl, rfl⟩
  | cons a as ih =>
    simp only [List.mapM_cons, runFrom_bind_eq_ok, runFrom_pure_eq_ok]
    constructor
    · rintro ⟨b, l, hb, bs, k, hbs, rfl, rfl⟩
      exact .cons hb (ih.mp hbs)
    · intro h
      cases h with
      | cons hb hbs => exact ⟨_, _, hb, _, _, ih.mpr hbs, rfl, rfl⟩

/-- Compiling a list succeeds where compiling each item does. -/
theorem exists_runFrom_mapM {g : α → Compile β} {as : List α}
    (h : ∀ a ∈ as, ∀ n, ∃ b m, runFrom (g a) n = (.ok b, m)) (n : Nat) :
    ∃ bs m, runFrom (as.mapM g) n = (.ok bs, m) := by
  induction as generalizing n with
  | nil => exact ⟨[], n, rfl⟩
  | cons a as ih =>
    obtain ⟨hhead, htail⟩ := List.forall_mem_cons.mp h
    obtain ⟨b, l, hb⟩ := hhead n
    obtain ⟨bs, m, hbs⟩ := ih htail l
    refine ⟨b :: bs, m, ?_⟩
    rw [List.mapM_cons]
    exact runFrom_bind_eq_ok.mpr ⟨b, l, hb, runFrom_bind_eq_ok.mpr ⟨bs, m, hbs, rfl⟩⟩

/-- Compiling what may be absent. -/
theorem runFrom_option_mapM_eq_ok {g : α → Compile β} {o : Option α} {p : Option β} {n m : Nat} :
    runFrom (o.mapM g) n = (.ok p, m) ↔
      (o = none ∧ p = none ∧ m = n) ∨
        ∃ a b, o = some a ∧ p = some b ∧ runFrom (g a) n = (.ok b, m) := by
  cases o with
  | none => simp [eq_comm]
  | some a =>
    simp [Option.mapM_some, runFrom_map_eq_ok, and_comm]

end Compile

open Compile

/-! ### References -/

/-- Compiling the steps of a path from one counter to another. -/
inductive Reference.StepsCompiled : List PathStep → Nat → Fragment → Nat → Prop
  | nil {n : Nat} : StepsCompiled [] n .empty n
  /-- A field draws a placeholder. -/
  | field {name : String} {steps : List PathStep} {n m : Nat} {f : Fragment} :
    StepsCompiled steps (n + 1) f m →
      StepsCompiled (.field name :: steps) n (.symbol .dot ++ .name n name ++ f) m
  /-- A position stands for itself. -/
  | index {position : Nat} {steps : List PathStep} {n m : Nat} {f : Fragment} :
    StepsCompiled steps n f m →
      StepsCompiled (.index position :: steps) n (.symbol (.index position) ++ f) m

/-- Compiling a reference: a placeholder for its name, then its steps. -/
def Reference.Compiled (r : Reference) (n : Nat) (f : Fragment) (m : Nat) : Prop :=
  ∃ name g, r.name? = some name ∧ StepsCompiled r.path (n + 1) g m ∧ f = .name n name ++ g

theorem Reference.stepsCompiled_iff {steps : List PathStep} {n m : Nat} {f : Fragment} :
    runFrom (compileSteps steps) n = (.ok f, m) ↔ StepsCompiled steps n f m := by
  induction steps generalizing n m f with
  | nil =>
    rw [compileSteps, runFrom_pure_eq_ok]
    constructor
    · rintro ⟨rfl, rfl⟩
      exact .nil
    · intro h
      cases h
      exact ⟨rfl, rfl⟩
  | cons step steps ih =>
    cases step with
    | field name =>
      simp only [compileSteps, runFrom_bind_eq_ok, runFrom_pure_eq_ok, runFrom_name, ih]
      constructor
      · rintro ⟨_, _, h, g, k, hg, rfl, rfl⟩
        cases h
        exact .field hg
      · intro h
        cases h with
        | field hg => exact ⟨_, _, rfl, _, _, hg, rfl, rfl⟩
    | index position =>
      simp only [compileSteps, runFrom_bind_eq_ok, runFrom_pure_eq_ok, ih]
      constructor
      · rintro ⟨g, k, hg, rfl, rfl⟩
        exact .index hg
      · intro h
        cases h with
        | index hg => exact ⟨_, _, hg, rfl, rfl⟩

theorem Reference.compiled_iff {r : Reference} {n m : Nat} {f : Fragment} :
    runFrom r.compile n = (.ok f, m) ↔ r.Compiled n f m := by
  unfold Reference.compile Reference.Compiled
  cases hname : r.name? with
  | none => simp
  | some name =>
    simp only [runFrom_bind_eq_ok, runFrom_pure_eq_ok, runFrom_name, stepsCompiled_iff]
    constructor
    · rintro ⟨_, _, h, g, k, hg, rfl, rfl⟩
      cases h
      exact ⟨_, _, rfl, hg, rfl⟩
    · rintro ⟨_, g, h, hg, rfl⟩
      cases h
      exact ⟨_, _, rfl, _, _, hg, rfl, rfl⟩

/-! ### Operands -/

/-- Compiling an operand from one counter to another. -/
inductive Operand.Compiled : Operand → Nat → Fragment → Nat → Prop
  | path {r : Reference} {n m : Nat} {f : Fragment} :
    r.Compiled n f m → Compiled (.path r) n f m
  /-- A literal draws a placeholder for its wire form. -/
  | literal {v : Value} {w : Wire} {n : Nat} :
    v.encode = .ok w → Compiled (.literal v) n (.value n w) (n + 1)
  | size {r : Reference} {n m : Nat} {f : Fragment} :
    r.Compiled n f m → Compiled (.size r) n (.call .size [f]) m
  /-- A sum or a difference is written without parentheses. -/
  | arithmetic {left right : Operand} {o : Arithmetic} {n l m : Nat} {f g : Fragment} :
    Compiled left n f l → Compiled right l g m →
      Compiled (.arithmetic left o right) n (f ++ .symbol (.arithmetic o) ++ g) m
  | ifNotExists {r : Reference} {default : Operand} {n l m : Nat} {f g : Fragment} :
    r.Compiled n f l → Compiled default l g m →
      Compiled (.ifNotExists r default) n (.call .ifNotExists [f, g]) m
  | listAppend {left right : Operand} {n l m : Nat} {f g : Fragment} :
    Compiled left n f l → Compiled right l g m →
      Compiled (.listAppend left right) n (.call .listAppend [f, g]) m

theorem Operand.compiled_iff {o : Operand} {n m : Nat} {f : Fragment} :
    runFrom o.compile n = (.ok f, m) ↔ o.Compiled n f m := by
  induction o generalizing n m f with
  | path r =>
    rw [Operand.compile, Reference.compiled_iff]
    constructor
    · exact .path
    · intro h
      cases h with
      | path hr => exact hr
  | literal v =>
    rw [Operand.compile, runFrom_value_eq_ok]
    constructor
    · rintro ⟨w, hw, rfl, rfl⟩
      exact .literal hw
    · intro h
      cases h with
      | literal hw => exact ⟨_, hw, rfl, rfl⟩
  | size r =>
    simp only [Operand.compile, runFrom_bind_eq_ok, runFrom_pure_eq_ok, Reference.compiled_iff]
    constructor
    · rintro ⟨g, k, hg, rfl, rfl⟩
      exact .size hg
    · intro h
      cases h with
      | size hg => exact ⟨_, _, hg, rfl, rfl⟩
  | arithmetic left o right ihl ihr =>
    simp only [Operand.compile, runFrom_bind_eq_ok, runFrom_pure_eq_ok, ihl, ihr]
    constructor
    · rintro ⟨f, k, hf, g, l, hg, rfl, rfl⟩
      exact .arithmetic hf hg
    · intro h
      cases h with
      | arithmetic hf hg => exact ⟨_, _, hf, _, _, hg, rfl, rfl⟩
  | ifNotExists r default ih =>
    simp only [Operand.compile, runFrom_bind_eq_ok, runFrom_pure_eq_ok, ih,
      Reference.compiled_iff]
    constructor
    · rintro ⟨f, k, hf, g, l, hg, rfl, rfl⟩
      exact .ifNotExists hf hg
    · intro h
      cases h with
      | ifNotExists hf hg => exact ⟨_, _, hf, _, _, hg, rfl, rfl⟩
  | listAppend left right ihl ihr =>
    simp only [Operand.compile, runFrom_bind_eq_ok, runFrom_pure_eq_ok, ihl, ihr]
    constructor
    · rintro ⟨f, k, hf, g, l, hg, rfl, rfl⟩
      exact .listAppend hf hg
    · intro h
      cases h with
      | listAppend hf hg => exact ⟨_, _, hf, _, _, hg, rfl, rfl⟩

/-! ### Conditions -/

/-- Compiling a condition from one counter to another. -/
inductive Condition.Compiled : Condition → Nat → Fragment → Nat → Prop
  | compare {left right : Operand} {c : Comparator} {n l m : Nat} {f g : Fragment} :
    left.Compiled n f l → right.Compiled l g m →
      Compiled (.compare left c right) n (f ++ .symbol (.comparator c) ++ g) m
  | between {operand low high : Operand} {n k l m : Nat} {f g h : Fragment} :
    operand.Compiled n f k → low.Compiled k g l → high.Compiled l h m →
      Compiled (.between operand low high) n
        (f ++ .symbol .between ++ g ++ .symbol (.connective .and) ++ h) m
  | beginsWith {r : Reference} {lead : Operand} {n l m : Nat} {f g : Fragment} :
    r.Compiled n f l → lead.Compiled l g m →
      Compiled (.beginsWith r lead) n (.call .beginsWith [f, g]) m
  | contains {r : Reference} {operand : Operand} {n l m : Nat} {f g : Fragment} :
    r.Compiled n f l → operand.Compiled l g m →
      Compiled (.contains r operand) n (.call .contains [f, g]) m
  | exists {r : Reference} {n m : Nat} {f : Fragment} :
    r.Compiled n f m → Compiled (.exists r) n (.call .attributeExists [f]) m
  | notExists {r : Reference} {n m : Nat} {f : Fragment} :
    r.Compiled n f m → Compiled (.notExists r) n (.call .attributeNotExists [f]) m
  /-- A test of the type, whose code draws a placeholder. -/
  | hasType {r : Reference} {type : AttributeType} {n m : Nat} {f : Fragment} :
    r.Compiled n f m →
      Compiled (.hasType r type) n
        (.call .attributeType [f, .value m (.string type.code)]) (m + 1)
  /-- A membership test, which has a candidate. -/
  | among {operand : Operand} {candidates : List Operand} {n l m : Nat} {f : Fragment}
    {gs : List Fragment} :
    candidates ≠ [] → operand.Compiled n f l →
      Each Operand.Compiled candidates l gs m →
      Compiled (.among operand candidates) n
        (f ++ .symbol .among ++ (Fragment.join .comma gs).parenthesised) m
  | joined {left right : Condition} {c : Connective} {n l m : Nat} {f g : Fragment} :
    Compiled left n f l → Compiled right l g m →
      Compiled (.joined c left right) n
        (left.nested f ++ .symbol (.connective c) ++ right.nested g) m

theorem Operand.each_compiled_iff {os : List Operand} {n m : Nat} {fs : List Fragment} :
    runFrom (os.mapM Operand.compile) n = (.ok fs, m) ↔ Each Operand.Compiled os n fs m := by
  rw [runFrom_mapM_eq_ok]
  constructor
  · exact Each.imp fun _ _ _ _ => Operand.compiled_iff.mp
  · exact Each.imp fun _ _ _ _ => Operand.compiled_iff.mpr

theorem Condition.compiled_iff {c : Condition} {n m : Nat} {f : Fragment} :
    runFrom c.compile n = (.ok f, m) ↔ c.Compiled n f m := by
  induction c generalizing n m f with
  | compare left c right =>
    simp only [Condition.compile, runFrom_bind_eq_ok, runFrom_pure_eq_ok, Operand.compiled_iff]
    constructor
    · rintro ⟨f, k, hf, g, l, hg, rfl, rfl⟩
      exact .compare hf hg
    · intro h
      cases h with
      | compare hf hg => exact ⟨_, _, hf, _, _, hg, rfl, rfl⟩
  | between operand low high =>
    simp only [Condition.compile, runFrom_bind_eq_ok, runFrom_pure_eq_ok, Operand.compiled_iff]
    constructor
    · rintro ⟨f, k, hf, g, l, hg, h, j, hh, rfl, rfl⟩
      exact .between hf hg hh
    · intro h
      cases h with
      | between hf hg hh => exact ⟨_, _, hf, _, _, hg, _, _, hh, rfl, rfl⟩
  | beginsWith r lead =>
    simp only [Condition.compile, runFrom_bind_eq_ok, runFrom_pure_eq_ok, Operand.compiled_iff,
      Reference.compiled_iff]
    constructor
    · rintro ⟨f, k, hf, g, l, hg, rfl, rfl⟩
      exact .beginsWith hf hg
    · intro h
      cases h with
      | beginsWith hf hg => exact ⟨_, _, hf, _, _, hg, rfl, rfl⟩
  | contains r operand =>
    simp only [Condition.compile, runFrom_bind_eq_ok, runFrom_pure_eq_ok, Operand.compiled_iff,
      Reference.compiled_iff]
    constructor
    · rintro ⟨f, k, hf, g, l, hg, rfl, rfl⟩
      exact .contains hf hg
    · intro h
      cases h with
      | contains hf hg => exact ⟨_, _, hf, _, _, hg, rfl, rfl⟩
  | «exists» r =>
    simp only [Condition.compile, runFrom_bind_eq_ok, runFrom_pure_eq_ok, Reference.compiled_iff]
    constructor
    · rintro ⟨f, k, hf, rfl, rfl⟩
      exact .exists hf
    · intro h
      cases h with
      | «exists» hf => exact ⟨_, _, hf, rfl, rfl⟩
  | notExists r =>
    simp only [Condition.compile, runFrom_bind_eq_ok, runFrom_pure_eq_ok, Reference.compiled_iff]
    constructor
    · rintro ⟨f, k, hf, rfl, rfl⟩
      exact .notExists hf
    · intro h
      cases h with
      | notExists hf => exact ⟨_, _, hf, rfl, rfl⟩
  | hasType r type =>
    simp only [Condition.compile, runFrom_bind_eq_ok, runFrom_pure_eq_ok, Reference.compiled_iff,
      runFrom_value_eq_ok]
    constructor
    · rintro ⟨f, k, hf, g, l, ⟨w, hw, rfl, rfl⟩, rfl, rfl⟩
      cases hw
      exact .hasType hf
    · intro h
      cases h with
      | hasType hf => exact ⟨_, _, hf, _, _, ⟨_, rfl, rfl, rfl⟩, rfl, rfl⟩
  | among operand candidates =>
    rw [Condition.compile]
    split
    · next hempty =>
      have hnil : candidates = [] := by simpa using hempty
      rw [runFrom_throw_eq_ok, false_iff]
      intro h
      cases h with
      | among hne _ _ => exact hne hnil
    · next hempty =>
      have hne : candidates ≠ [] := by simpa using hempty
      simp only [runFrom_bind_eq_ok, runFrom_pure_eq_ok, Operand.compiled_iff,
        Operand.each_compiled_iff]
      constructor
      · rintro ⟨f, k, hf, gs, l, hgs, rfl, rfl⟩
        exact .among hne hf hgs
      · intro h
        cases h with
        | among _ hf hgs => exact ⟨_, _, hf, _, _, hgs, rfl, rfl⟩
  | joined c left right ihl ihr =>
    simp only [Condition.compile, runFrom_bind_eq_ok, runFrom_pure_eq_ok, ihl, ihr]
    constructor
    · rintro ⟨f, k, hf, g, l, hg, rfl, rfl⟩
      exact .joined hf hg
    · intro h
      cases h with
      | joined hf hg => exact ⟨_, _, hf, _, _, hg, rfl, rfl⟩

/-! ### Updates and projections -/

/-- Compiling an action of an update from one counter to another. -/
inductive UpdateAction.Compiled : UpdateAction → Nat → Fragment → Nat → Prop
  | set {r : Reference} {operand : Operand} {n l m : Nat} {f g : Fragment} :
    r.Compiled n f l → operand.Compiled l g m →
      Compiled (.set r operand) n (f ++ .symbol (.comparator .equal) ++ g) m
  | remove {r : Reference} {n m : Nat} {f : Fragment} :
    r.Compiled n f m → Compiled (.remove r) n f m
  | add {r : Reference} {v elements : Value} {w : Wire} {n m : Nat} {f : Fragment} :
    r.Compiled n f m → v.toSet = .ok elements → elements.encode = .ok w →
      Compiled (.add r v) n (f ++ .symbol .space ++ .value m w) (m + 1)
  | delete {r : Reference} {v elements : Value} {w : Wire} {n m : Nat} {f : Fragment} :
    r.Compiled n f m → v.toSet = .ok elements → elements.encode = .ok w →
      Compiled (.delete r v) n (f ++ .symbol .space ++ .value m w) (m + 1)

/-- What an action that takes a set compiles to. -/
theorem UpdateAction.runFrom_compileSetAction_eq_ok {r : Reference} {v : Value} {n m : Nat}
    {h : Fragment} :
    runFrom (compileSetAction r v) n = (.ok h, m) ↔
      ∃ f l elements w, r.Compiled n f l ∧ v.toSet = .ok elements ∧ elements.encode = .ok w ∧
        h = f ++ .symbol .space ++ .value l w ∧ m = l + 1 := by
  unfold compileSetAction
  simp only [runFrom_bind_eq_ok, Reference.compiled_iff]
  cases v.toSet with
  | error e => simp
  | ok elements =>
    simp only [runFrom_bind_eq_ok, runFrom_pure_eq_ok, runFrom_value_eq_ok]
    constructor
    · rintro ⟨f, l, hf, g, k, ⟨w, hw, rfl, rfl⟩, rfl, rfl⟩
      exact ⟨f, l, elements, w, hf, rfl, hw, rfl, rfl⟩
    · rintro ⟨f, l, _, w, hf, helements, hw, rfl, rfl⟩
      cases helements
      exact ⟨f, l, hf, _, _, ⟨w, hw, rfl, rfl⟩, rfl, rfl⟩

theorem UpdateAction.compiled_iff {a : UpdateAction} {n m : Nat} {f : Fragment} :
    runFrom a.compile n = (.ok f, m) ↔ a.Compiled n f m := by
  cases a with
  | set r operand =>
    simp only [UpdateAction.compile, runFrom_bind_eq_ok, runFrom_pure_eq_ok,
      Operand.compiled_iff, Reference.compiled_iff]
    constructor
    · rintro ⟨f, k, hf, g, l, hg, rfl, rfl⟩
      exact .set hf hg
    · intro h
      cases h with
      | set hf hg => exact ⟨_, _, hf, _, _, hg, rfl, rfl⟩
  | remove r =>
    rw [UpdateAction.compile, Reference.compiled_iff]
    constructor
    · exact .remove
    · intro h
      cases h with
      | remove hf => exact hf
  | add r v =>
    rw [UpdateAction.compile, runFrom_compileSetAction_eq_ok]
    constructor
    · rintro ⟨f, l, elements, w, hf, helements, hw, rfl, rfl⟩
      exact .add hf helements hw
    · intro h
      cases h with
      | add hf helements hw => exact ⟨_, _, _, _, hf, helements, hw, rfl, rfl⟩
  | delete r v =>
    rw [UpdateAction.compile, runFrom_compileSetAction_eq_ok]
    constructor
    · rintro ⟨f, l, elements, w, hf, helements, hw, rfl, rfl⟩
      exact .delete hf helements hw
    · intro h
      cases h with
      | delete hf helements hw => exact ⟨_, _, _, _, hf, helements, hw, rfl, rfl⟩

/-- An update collects the expressions of its actions from the left, whatever its shape. -/
theorem Update.collect_eq_mapM (u : Update) (collected : List (Clause × Fragment)) :
    u.collect collected = do
      return collected ++ (← u.actions.mapM fun a => return (a.clause, ← a.compile)) := by
  induction u generalizing collected with
  | action a => simp [collect, actions]
  | both left right ihl ihr =>
    rw [collect, ihl, actions, List.mapM_append]
    simp only [ihr, bind_assoc, pure_bind, List.append_assoc]

theorem Update.compile_eq_mapM (u : Update) :
    u.compile = do
      return grouped (← u.actions.mapM fun a => return (a.clause, ← a.compile)) := by
  rw [compile, collect_eq_mapM]
  simp only [bind_assoc, pure_bind, List.nil_append]

/-- Compiling an update is compiling its actions from the left, then grouping them. -/
theorem Update.runFrom_compile_eq_ok {u : Update} {n m : Nat} {f : Fragment} :
    runFrom u.compile n = (.ok f, m) ↔
      ∃ compiled, Each (fun a n (entry : Clause × Fragment) m =>
        entry.1 = a.clause ∧ a.Compiled n entry.2 m) u.actions n compiled m ∧
          f = grouped compiled := by
  rw [compile_eq_mapM]
  simp only [runFrom_bind_eq_ok, runFrom_pure_eq_ok, runFrom_mapM_eq_ok,
    UpdateAction.compiled_iff]
  constructor
  · rintro ⟨compiled, l, h, rfl, rfl⟩
    refine ⟨compiled, h.imp ?_, rfl⟩
    rintro a n ⟨clause, f⟩ m ⟨g, k, hg, heq, rfl⟩
    cases heq
    exact ⟨rfl, hg⟩
  · rintro ⟨compiled, h, rfl⟩
    refine ⟨compiled, m, h.imp ?_, rfl, rfl⟩
    rintro a n ⟨clause, f⟩ m ⟨heq, hf⟩
    cases heq
    exact ⟨f, m, hf, rfl, rfl⟩

/-- Compiling a projection is compiling its references from the left. -/
theorem Projection.runFrom_compile_eq_ok {p : Projection} {n m : Nat} {f : Fragment} :
    runFrom p.compile n = (.ok f, m) ↔
      ∃ fs, Each Reference.Compiled p.references n fs m ∧ f = .join .comma fs := by
  unfold Projection.compile
  simp only [runFrom_bind_eq_ok, runFrom_pure_eq_ok, runFrom_mapM_eq_ok, Reference.compiled_iff]
  constructor
  · rintro ⟨fs, l, h, rfl, rfl⟩
    exact ⟨fs, h, rfl⟩
  · rintro ⟨fs, h, rfl⟩
    exact ⟨fs, m, h, rfl, rfl⟩

end ItemStore
