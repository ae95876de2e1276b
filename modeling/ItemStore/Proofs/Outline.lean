import ItemStore.Proofs.Meaning
import ItemStore.Proofs.Renumbering

/-!
# The outline of an expression

Names, values and types come from the caller.  They are sent beside an expression and never
stand in its text, so whatever they are, they cannot change what the text says.  A tree in
which all of them are left blank decides the text, and it decides which placeholders are
bound; the caller decides only what these stand for.

## Main definitions

* `Operand.blank`, `Condition.blank` and their neighbours — a tree with its names, values
  and types left blank.
* `Written.outline` — the text of an expression and the placeholders it binds.

## Main results

* `Condition.Compiled.blank` and its neighbours — a blank tree compiles to the same symbols.
* `Compilation.outline_eq_of_blank_eq` — trees that differ in names, values and types only
  have the same outline.
-/

namespace ItemStore

open Compile (runFrom Each)

/-! ### Blank trees -/

/-- The step with its name left blank; a position stays. -/
def PathStep.blank : PathStep → PathStep
  | .field _ => .field ""
  | .index position => .index position

/-- The reference with its name and those of its steps left blank. -/
def Reference.blank (r : Reference) : Reference := ⟨some "", none, r.path.map PathStep.blank⟩

/-- The operand with its names and values left blank. -/
def Operand.blank : Operand → Operand
  | .path r => .path r.blank
  | .literal _ => .literal .null
  | .size r => .size r.blank
  | .arithmetic left o right => .arithmetic left.blank o right.blank
  | .ifNotExists r default => .ifNotExists r.blank default.blank
  | .listAppend left right => .listAppend left.blank right.blank

/-- The condition with its names, values and types left blank. -/
def Condition.blank : Condition → Condition
  | .compare left c right => .compare left.blank c right.blank
  | .between operand low high => .between operand.blank low.blank high.blank
  | .beginsWith r lead => .beginsWith r.blank lead.blank
  | .contains r operand => .contains r.blank operand.blank
  | .exists r => .exists r.blank
  | .notExists r => .notExists r.blank
  | .hasType r _ => .hasType r.blank .string
  | .among operand candidates => .among operand.blank (candidates.map Operand.blank)
  | .joined c left right => .joined c left.blank right.blank

/-- The action with its names and values left blank. -/
def UpdateAction.blank : UpdateAction → UpdateAction
  | .set r operand => .set r.blank operand.blank
  | .remove r => .remove r.blank
  | .add r _ => .add r.blank .null
  | .delete r _ => .delete r.blank .null

/-- The update with its names and values left blank. -/
def Update.blank : Update → Update
  | .action a => .action a.blank
  | .both left right => .both left.blank right.blank

/-- The projection with its names left blank. -/
def Projection.blank (p : Projection) : Projection := ⟨p.references.map Reference.blank⟩

/-- The tree with its names, values and types left blank. -/
def Expression.blank : Expression → Expression
  | operand o => operand o.blank
  | condition c => condition c.blank
  | projection p => projection p.blank

/-- The query with the names, values and types of both halves left blank. -/
def Query.blank (q : Query) : Query := ⟨q.key.map Condition.blank, q.filter.map Condition.blank⟩

/-- The compilation of the same with names, values and types left blank. -/
def Compilation.blank : Compilation → Compilation
  | expression e => expression e.blank
  | update u => update u.blank
  | query q => query q.blank

/-! ### Symbols of fragments -/

namespace Fragment

@[simp] theorem symbols_symbol (s : Symbol) : (symbol s).symbols = [s] := rfl

@[simp] theorem symbols_name (number : Nat) (n : String) :
    (name number n).symbols = [.name number] := rfl

@[simp] theorem symbols_value (number : Nat) (w : Wire) :
    (value number w).symbols = [.value number] := rfl

@[simp] theorem symbols_parenthesised (f : Fragment) :
    f.parenthesised.symbols = .opening :: f.symbols ++ [.closing] := rfl

@[simp] theorem symbols_call (function : FunctionName) (arguments : List Fragment) :
    (call function arguments).symbols =
      .function function :: .opening ::
        [.comma].intercalate (arguments.map symbols) ++ [.closing] := by
  simp [call, symbols_join]

end Fragment

namespace Condition

@[simp] theorem isJoined_blank (c : Condition) : c.blank.isJoined = c.isJoined := by
  cases c <;> rfl

@[simp] theorem symbols_nested (c : Condition) (f : Fragment) :
    (c.nested f).symbols =
      if c.isJoined then .opening :: f.symbols ++ [.closing] else f.symbols := by
  unfold nested
  split <;> rfl

end Condition

/-! ### Blank trees compile to the same symbols -/

/-- Where every item compiles to the like of what another one compiles to, so does the
list. -/
theorem Compile.Each.exists_map {α β γ : Type} {R S : α → Nat → β → Nat → Prop} {g : α → α}
    {as : List α} {bs : List β} {n m : Nat} (h : Each R as n bs m) (part : β → γ)
    (hRS : ∀ a n b m, R a n b m → ∃ b', S (g a) n b' m ∧ part b' = part b) :
    ∃ bs', Each S (as.map g) n bs' m ∧ bs'.map part = bs.map part := by
  induction h with
  | nil => exact ⟨[], .nil, rfl⟩
  | cons hab _ ih =>
    obtain ⟨b', hb', hpart⟩ := hRS _ _ _ _ hab
    obtain ⟨bs', hbs', hparts⟩ := ih
    exact ⟨b' :: bs', .cons hb' hbs', by rw [List.map_cons, List.map_cons, hpart, hparts]⟩

theorem Reference.StepsCompiled.blank {steps : List PathStep} {n m : Nat} {f : Fragment}
    (h : StepsCompiled steps n f m) :
    ∃ g, StepsCompiled (steps.map PathStep.blank) n g m ∧ g.symbols = f.symbols := by
  induction h with
  | nil => exact ⟨_, .nil, rfl⟩
  | field _ ih =>
    obtain ⟨g, hg, hsymbols⟩ := ih
    exact ⟨_, .field hg, by simp [hsymbols]⟩
  | index _ ih =>
    obtain ⟨g, hg, hsymbols⟩ := ih
    exact ⟨_, .index hg, by simp [hsymbols]⟩

theorem Reference.Compiled.blank {r : Reference} {n m : Nat} {f : Fragment}
    (h : r.Compiled n f m) : ∃ g, r.blank.Compiled n g m ∧ g.symbols = f.symbols := by
  obtain ⟨name, f, -, hf, rfl⟩ := h
  obtain ⟨g, hg, hsymbols⟩ := hf.blank
  exact ⟨_, ⟨"", g, rfl, hg, rfl⟩, by simp [hsymbols]⟩

theorem Operand.Compiled.blank {o : Operand} {n m : Nat} {f : Fragment}
    (h : o.Compiled n f m) : ∃ g, o.blank.Compiled n g m ∧ g.symbols = f.symbols := by
  induction h with
  | path hr =>
    obtain ⟨f', hf', hf⟩ := hr.blank
    exact ⟨_, .path hf', hf⟩
  | literal _ => exact ⟨_, .literal rfl, rfl⟩
  | size hr =>
    obtain ⟨f', hf', hf⟩ := hr.blank
    exact ⟨_, .size hf', by simp [hf]⟩
  | arithmetic _ _ ihf ihg =>
    obtain ⟨f', hf', hf⟩ := ihf
    obtain ⟨g', hg', hg⟩ := ihg
    exact ⟨_, .arithmetic hf' hg', by simp [hf, hg]⟩
  | ifNotExists hr _ ih =>
    obtain ⟨f', hf', hf⟩ := hr.blank
    obtain ⟨g', hg', hg⟩ := ih
    exact ⟨_, .ifNotExists hf' hg', by simp [hf, hg]⟩
  | listAppend _ _ ihf ihg =>
    obtain ⟨f', hf', hf⟩ := ihf
    obtain ⟨g', hg', hg⟩ := ihg
    exact ⟨_, .listAppend hf' hg', by simp [hf, hg]⟩

/-- A condition with its names, values and types left blank compiles to the same symbols. -/
theorem Condition.Compiled.blank {c : Condition} {n m : Nat} {f : Fragment}
    (h : c.Compiled n f m) : ∃ g, c.blank.Compiled n g m ∧ g.symbols = f.symbols := by
  induction h with
  | compare hf hg =>
    obtain ⟨f', hf', hf⟩ := hf.blank
    obtain ⟨g', hg', hg⟩ := hg.blank
    exact ⟨_, .compare hf' hg', by simp [hf, hg]⟩
  | between hf hg hh =>
    obtain ⟨f', hf', hf⟩ := hf.blank
    obtain ⟨g', hg', hg⟩ := hg.blank
    obtain ⟨h', hh', hh⟩ := hh.blank
    exact ⟨_, .between hf' hg' hh', by simp [hf, hg, hh]⟩
  | beginsWith hf hg =>
    obtain ⟨f', hf', hf⟩ := hf.blank
    obtain ⟨g', hg', hg⟩ := hg.blank
    exact ⟨_, .beginsWith hf' hg', by simp [hf, hg]⟩
  | contains hf hg =>
    obtain ⟨f', hf', hf⟩ := hf.blank
    obtain ⟨g', hg', hg⟩ := hg.blank
    exact ⟨_, .contains hf' hg', by simp [hf, hg]⟩
  | «exists» hf =>
    obtain ⟨f', hf', hf⟩ := hf.blank
    exact ⟨_, .exists hf', by simp [hf]⟩
  | notExists hf =>
    obtain ⟨f', hf', hf⟩ := hf.blank
    exact ⟨_, .notExists hf', by simp [hf]⟩
  -- The type draws a placeholder like a value; the blank tree has a type of its own there.
  | hasType hf =>
    obtain ⟨f', hf', hf⟩ := hf.blank
    exact ⟨_, .hasType hf', by simp [hf]⟩
  | among hne hf hgs =>
    obtain ⟨f', hf', hf⟩ := hf.blank
    obtain ⟨gs', hgs', hgs⟩ := hgs.exists_map Fragment.symbols fun _ _ _ _ => Operand.Compiled.blank
    exact ⟨_, .among (by simpa using hne) hf' hgs', by simp [hf, hgs, Fragment.symbols_join]⟩
  | joined _ _ ihf ihg =>
    obtain ⟨f', hf', hf⟩ := ihf
    obtain ⟨g', hg', hg⟩ := ihg
    exact ⟨_, .joined hf' hg', by simp [hf, hg]⟩

theorem Projection.exists_blank {p : Projection} {n m : Nat} {f : Fragment}
    (h : runFrom p.compile n = (.ok f, m)) :
    ∃ g, runFrom p.blank.compile n = (.ok g, m) ∧ g.symbols = f.symbols := by
  obtain ⟨fs, hfs, rfl⟩ := Projection.runFrom_compile_eq_ok.mp h
  obtain ⟨gs, hgs, hsymbols⟩ :=
    hfs.exists_map Fragment.symbols fun _ _ _ _ => Reference.Compiled.blank
  refine ⟨_, Projection.runFrom_compile_eq_ok.mpr ⟨gs, hgs, rfl⟩, ?_⟩
  rw [Fragment.symbols_join, Fragment.symbols_join, hsymbols]

/-! ### Updates -/

@[simp] theorem UpdateAction.clause_blank (a : UpdateAction) : a.blank.clause = a.clause := by
  cases a <;> rfl

theorem UpdateAction.Compiled.blank {a : UpdateAction} {n m : Nat} {f : Fragment}
    (h : a.Compiled n f m) : ∃ g, a.blank.Compiled n g m ∧ g.symbols = f.symbols := by
  cases h with
  | set hf hg =>
    obtain ⟨f', hf', hf⟩ := hf.blank
    obtain ⟨g', hg', hg⟩ := hg.blank
    exact ⟨_, .set hf' hg', by simp [hf, hg]⟩
  | remove hf =>
    obtain ⟨f', hf', hf⟩ := hf.blank
    exact ⟨_, .remove hf', hf⟩
  -- Whichever set the value was turned into, its placeholder is the same.
  | add hf _ _ =>
    obtain ⟨f', hf', hf⟩ := hf.blank
    exact ⟨_, .add hf' rfl rfl, by simp [hf]⟩
  | delete hf _ _ =>
    obtain ⟨f', hf', hf⟩ := hf.blank
    exact ⟨_, .delete hf' rfl rfl, by simp [hf]⟩

namespace Update

theorem actions_blank (u : Update) : u.blank.actions = u.actions.map UpdateAction.blank := by
  induction u with
  | action a => rfl
  | both left right ihl ihr => rw [blank, actions, ihl, ihr, actions, List.map_append]

/-- Grouping looks at clauses and symbols only. -/
theorem symbols_grouped_congr {compiled compiled' : List (Clause × Fragment)}
    (h : compiled.map (Prod.map id Fragment.symbols) =
      compiled'.map (Prod.map id Fragment.symbols)) :
    (grouped compiled).symbols = (grouped compiled').symbols := by
  have hrows : ∀ c, ((compiled.filter fun entry => entry.1 = c).map fun entry => entry.2.symbols) =
      (compiled'.filter fun entry => entry.1 = c).map fun entry => entry.2.symbols := by
    intro c
    have hfilter := congrArg (fun entries => (entries.filter fun entry => entry.1 = c).map
      Prod.snd) h
    simpa [List.filter_map, Function.comp_def] using hfilter
  have hempty : ∀ c, (compiled.filter fun entry => entry.1 = c).isEmpty =
      (compiled'.filter fun entry => entry.1 = c).isEmpty := by
    intro c
    rw [← List.isEmpty_map, hrows, List.isEmpty_map]
  simp only [symbols_grouped, hrows, hempty]

theorem exists_blank {u : Update} {n m : Nat} {f : Fragment}
    (h : runFrom u.compile n = (.ok f, m)) :
    ∃ g, runFrom u.blank.compile n = (.ok g, m) ∧ g.symbols = f.symbols := by
  obtain ⟨compiled, hactions, rfl⟩ := runFrom_compile_eq_ok.mp h
  have haction : ∀ (a : UpdateAction) n (entry : Clause × Fragment) m,
      entry.1 = a.clause ∧ a.Compiled n entry.2 m →
        ∃ entry' : Clause × Fragment,
          (entry'.1 = a.blank.clause ∧ a.blank.Compiled n entry'.2 m) ∧
            Prod.map id Fragment.symbols entry' = Prod.map id Fragment.symbols entry := by
    rintro a n ⟨clause, f⟩ m ⟨rfl, hf⟩
    obtain ⟨g, hg, hsymbols⟩ := hf.blank
    exact ⟨(a.clause, g), ⟨a.clause_blank.symm, hg⟩, by simp [hsymbols]⟩
  obtain ⟨compiled', hblank, hsymbols⟩ := hactions.exists_map
    (S := fun a n entry m => entry.1 = a.clause ∧ a.Compiled n entry.2 m) _ haction
  rw [← actions_blank] at hblank
  exact ⟨_, runFrom_compile_eq_ok.mpr ⟨compiled', hblank, rfl⟩, symbols_grouped_congr hsymbols⟩

end Update

/-! ### Outlines -/

/-- The text of an expression and the placeholders of names and of values that it binds. -/
def Written.outline (w : Written) : String × List String × List String :=
  (w.text, w.names.keys, w.values.keys)

/-- The text of a row of symbols and the placeholders in it. -/
def Symbol.outline (row : List Symbol) : String × List String × List String :=
  (render row, (nameTokens row).map nameToken, (valueTokens row).map valueToken)

/-- The symbols of a fragment decide its outline. -/
theorem Fragment.outline_written {f : Fragment} (hf : f.Bound) :
    f.written.outline = Symbol.outline f.symbols := by
  rw [Written.outline, written, text, keys_writtenNames, keys_writtenValues, hf.names, hf.values,
    Symbol.outline]

theorem Condition.exists_blank {c : Condition} {n m : Nat} {f : Fragment}
    (h : runFrom c.compile n = (.ok f, m)) :
    ∃ g, runFrom c.blank.compile n = (.ok g, m) ∧ g.symbols = f.symbols := by
  obtain ⟨g, hg, hsymbols⟩ := (Condition.compiled_iff.mp h).blank
  exact ⟨g, Condition.compiled_iff.mpr hg, hsymbols⟩

theorem Expression.exists_blank {e : Expression} {n m : Nat} {f : Fragment}
    (h : runFrom e.compile n = (.ok f, m)) :
    ∃ g, runFrom e.blank.compile n = (.ok g, m) ∧ g.symbols = f.symbols := by
  cases e with
  | operand o =>
    obtain ⟨g, hg, hsymbols⟩ := (Operand.compiled_iff.mp h).blank
    exact ⟨g, Operand.compiled_iff.mpr hg, hsymbols⟩
  | condition c => exact Condition.exists_blank h
  | projection p => exact Projection.exists_blank h

/-- A half of a query that may be absent. -/
theorem Condition.exists_blank_mapM {half : Option Condition} {n m : Nat} {place : Option Fragment}
    (h : runFrom (half.mapM Condition.compile) n = (.ok place, m)) :
    ∃ place', runFrom ((half.map Condition.blank).mapM Condition.compile) n = (.ok place', m) ∧
      place'.map Fragment.symbols = place.map Fragment.symbols := by
  rcases Compile.runFrom_option_mapM_eq_ok.mp h with ⟨rfl, rfl, rfl⟩ | ⟨c, f, rfl, rfl, hf⟩
  · exact ⟨none, rfl, rfl⟩
  · obtain ⟨g, hg, hsymbols⟩ := Condition.exists_blank hf
    refine ⟨some g, Compile.runFrom_option_mapM_eq_ok.mpr (.inr ⟨_, g, rfl, rfl, hg⟩), ?_⟩
    rw [Option.map_some, Option.map_some, hsymbols]

namespace Compilation

variable {c d : Compilation} {n m l : Nat} {places places' : List (Option Fragment)}

/-- With names, values and types left blank, the same symbols are compiled and as many
numbers are drawn. -/
theorem exists_blank (h : runFrom c.compile n = (.ok places, m)) :
    ∃ places', runFrom c.blank.compile n = (.ok places', m) ∧
      places'.map (Option.map Fragment.symbols) = places.map (Option.map Fragment.symbols) := by
  cases c with
  | expression e =>
    obtain ⟨f, _, hf, hpure⟩ := Compile.runFrom_bind_eq_ok.mp h
    cases hpure
    obtain ⟨g, hg, hsymbols⟩ := Expression.exists_blank hf
    exact ⟨[some g], Compile.runFrom_bind_eq_ok.mpr ⟨g, m, hg, rfl⟩, by simp [hsymbols]⟩
  | update u =>
    obtain ⟨f, _, hf, hpure⟩ := Compile.runFrom_bind_eq_ok.mp h
    cases hpure
    obtain ⟨g, hg, hsymbols⟩ := Update.exists_blank hf
    exact ⟨[some g], Compile.runFrom_bind_eq_ok.mpr ⟨g, m, hg, rfl⟩, by simp [hsymbols]⟩
  | query q =>
    simp only [compile, blank, Query.blank, Query.compile, Compile.runFrom_bind_eq_ok,
      Compile.runFrom_pure_eq_ok] at h ⊢
    obtain ⟨_, _, ⟨key, i, hkey, filter, j, hfilter, rfl, rfl⟩, rfl, rfl⟩ := h
    obtain ⟨key', hkey', hsymbols⟩ := Condition.exists_blank_mapM hkey
    obtain ⟨filter', hfilter', hsymbols'⟩ := Condition.exists_blank_mapM hfilter
    exact ⟨_, ⟨_, _, ⟨key', i, hkey', filter', _, hfilter', rfl, rfl⟩, rfl, rfl⟩,
      by simp [hsymbols, hsymbols']⟩

/-- The symbols of the expressions decide their outlines. -/
theorem outlines_eq (h : runFrom c.compile n = (.ok places, m)) :
    places.map (Option.map fun f => f.written.outline) =
      (places.map (Option.map Fragment.symbols)).map (Option.map Symbol.outline) := by
  rw [List.map_map]
  refine List.map_congr_left fun place hplace => ?_
  cases place with
  | none => rfl
  | some f =>
    have hmem := (sequence_of_runFrom h).mem f (List.reduceOption_mem_iff.mpr hplace)
    simp only [Function.comp_apply, Option.map_some, Fragment.outline_written hmem.1]

/-- **Names, values and types do not get into an expression.**

Of two trees that differ in them only, and that both compile from one counter, the
expressions have the same text and bind the same placeholders, and equally many numbers are
drawn. -/
theorem outline_eq_of_blank_eq (hblank : c.blank = d.blank)
    (hc : runFrom c.compile n = (.ok places, m)) (hd : runFrom d.compile n = (.ok places', l)) :
    places.map (Option.map fun f => f.written.outline) =
        places'.map (Option.map fun f => f.written.outline) ∧ m = l := by
  obtain ⟨qs, hqs, hsymbols⟩ := exists_blank hc
  obtain ⟨qs', hqs', hsymbols'⟩ := exists_blank hd
  rw [hblank, hqs'] at hqs
  cases hqs
  rw [outlines_eq hc, outlines_eq hd, ← hsymbols, ← hsymbols']
  exact ⟨rfl, rfl⟩

/-- Names and values made of the signs of expressions, and a set in the place of a list. -/
theorem outline_eq_of_blank_eq_signs :
    let c : Compilation := .update (.both
      (.action (.add (.named "tags") (.list [.string "x", .string "y"])))
      (.action (.set ⟨some "a", none, [.field "b", .index 2]⟩ (.literal (.bool true)))))
    let d : Compilation := .update (.both
      (.action (.add (.named "tags :v1, #n2") (.stringSet (.ofList ["REMOVE #n0"]))))
      (.action (.set ⟨none, some "a.b", [.field "= :v4, #n3", .index 2]⟩
        (.literal (.string "size(#n0)")))))
    ∃ places places', c.blank = d.blank ∧ runFrom c.compile 0 = (.ok places, 5) ∧
      runFrom d.compile 0 = (.ok places', 5) ∧
      places'.map (Option.map fun f => f.written.outline) =
        [some ("SET #n2.#n3[2] = :v4 ADD #n0 :v1", ["#n2", "#n3", "#n0"], [":v4", ":v1"])] := by
  intro c d
  have hblank : c.blank = d.blank := rfl
  obtain ⟨places, hc⟩ : ∃ places, runFrom c.compile 0 = (.ok places, 5) := ⟨_, rfl⟩
  obtain ⟨places', hd⟩ : ∃ places', runFrom d.compile 0 = (.ok places', 5) := ⟨_, rfl⟩
  refine ⟨places, places', hblank, hc, hd, ?_⟩
  rw [← (outline_eq_of_blank_eq hblank hc hd).1]
  cases hc
  decide

end Compilation

end ItemStore
