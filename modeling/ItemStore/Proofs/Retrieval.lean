import ItemStore.Proofs.Demand
import ItemStore.Proofs.Selection

/-!
# The attributes that a read asks for

The text of a projection has paths with commas between them.  The store cuts it at the commas and
looks up the placeholders of each path in the names of the request, among which are those of the
filter and of the key condition as well.  Since no placeholder occurs twice in a request, each path
is read as the reference it was compiled from.

A schema is built only from declarations that name an attribute and no part of one, and no two of
them name the same attribute.  So a read under a built schema can always write its projection, and
what the store reads there is the attributes that were declared, each of them once and in order.  A
read is refused for its key or its conditions alone.

## Main definitions

* `AttributePath`, `AttributePath.ofText?` — a path, and the path that a text spells.
* `readPaths` — what the store reads in the text of a projection.
* `Read` — the reads of items; `Read.remainder` is what they compile besides the projection.
* `Request.AsksFor` — a request asks for whole attributes, each of them once.

## Main results

* `splitAtCommas_intercalate` — a text is cut where its parts were joined.
* `Reference.ofText?_of_compiled`, `Projection.readPaths_of_runFrom` — references are read back.
* `Read.failure?_request` — for what a read is refused.
* `Read.asksFor_of_build` — what a read asks for.
-/

namespace ItemStore

open Fragment
open Compile (runFrom Each Meets)

/-! ### Paths -/

/-- An attribute, or a part of one. -/
structure AttributePath where
  name : String
  /-- The steps into the attribute. -/
  steps : List PathStep
  deriving DecidableEq, Repr

/-- The path that a reference names. -/
def Reference.attributePath? (r : Reference) : Option AttributePath :=
  r.name?.map (⟨·, r.path⟩)

namespace AttributePath

/-- The steps that symbols say, once their placeholders were looked up. -/
def stepsOf? : List Meaning → Option (List PathStep)
  | [] => some []
  | .sign .dot :: .name field :: ms => (stepsOf? ms).map (.field field :: ·)
  | .sign (.index position) :: ms => (stepsOf? ms).map (.index position :: ·)
  | _ => none

/-- The path that symbols say, once their placeholders were looked up. -/
def ofMeanings? : List Meaning → Option AttributePath
  | .name name :: ms => (stepsOf? ms).map (⟨name, ·⟩)
  | _ => none

/-- The path that a text spells, its placeholders looked up among names. -/
def ofText? (names : Dict String String) (text : String) : Option AttributePath := do
  let row ← Symbol.scan text
  let ms ← row.mapM (Symbol.resolve names [])
  ofMeanings? ms

theorem stepsOf?_of_pieces {steps : List PathStep} {ms : List Meaning}
    (h : (steps.flatMap PathStep.pieces).mapM Piece.meaning = .ok ms) :
    stepsOf? ms = some steps := by
  induction steps generalizing ms with
  | nil =>
    cases h
    rfl
  | cons step steps ih =>
    rw [List.flatMap_cons, List.mapM_append] at h
    obtain ⟨xs, hxs, h⟩ := bind_eq_ok.mp h
    obtain ⟨ys, hys, h⟩ := bind_eq_ok.mp h
    obtain rfl := pure_eq_ok.mp h
    have hrest := ih hys
    cases step with
    | field name =>
      cases hxs
      simp [stepsOf?, hrest]
    | index position =>
      cases hxs
      simp [stepsOf?, hrest]

/-- What the pieces of a reference say is its path. -/
theorem ofMeanings?_of_pieces {r : Reference} {ms : List Meaning}
    (h : r.pieces.mapM Piece.meaning = .ok ms) : ofMeanings? ms = r.attributePath? := by
  rw [Reference.pieces, List.mapM_cons] at h
  obtain ⟨x, hx, h⟩ := bind_eq_ok.mp h
  obtain ⟨xs, hxs, h⟩ := bind_eq_ok.mp h
  obtain rfl := pure_eq_ok.mp h
  rw [Reference.head] at hx
  rw [Reference.attributePath?]
  cases hname : r.name? with
  | none =>
    rw [hname] at hx
    cases hx
  | some name =>
    rw [hname] at hx
    cases hx
    simp [ofMeanings?, stepsOf?_of_pieces hxs]

end AttributePath

/-! ### The text of a path -/

/-- A symbol that a path may have. -/
def Symbol.IsOfPath (s : Symbol) : Prop :=
  s = .dot ∨ (∃ number, s = .name number) ∨ ∃ position, s = .index position

theorem Reference.StepsCompiled.isOfPath {steps : List PathStep} {n m : Nat} {f : Fragment}
    (h : Reference.StepsCompiled steps n f m) : ∀ s ∈ f.symbols, s.IsOfPath := by
  induction h with
  | nil =>
    intro s hs
    cases hs
  | field _ ih =>
    intro s hs
    rcases List.mem_cons.mp hs with rfl | hs
    · exact .inl rfl
    · rcases List.mem_cons.mp hs with rfl | hs
      · exact .inr (.inl ⟨_, rfl⟩)
      · exact ih s hs
  | index _ ih =>
    intro s hs
    rcases List.mem_cons.mp hs with rfl | hs
    · exact .inr (.inr ⟨_, rfl⟩)
    · exact ih s hs

/-- A reference is compiled into the symbols of a path. -/
theorem Reference.Compiled.isOfPath {r : Reference} {n m : Nat} {f : Fragment}
    (h : r.Compiled n f m) : ∀ s ∈ f.symbols, s.IsOfPath := by
  obtain ⟨name, g, -, hg, rfl⟩ := h
  intro s hs
  rcases List.mem_cons.mp hs with rfl | hs
  · exact .inr (.inl ⟨_, rfl⟩)
  · exact hg.isOfPath s hs

/-- There is no comma within a path. -/
theorem Symbol.IsOfPath.comma_not_mem {s : Symbol} (h : s.IsOfPath) : ',' ∉ s.text.toList := by
  have hdigits : ∀ n : Nat, ',' ∉ Nat.toDigits 10 n := by
    intro n hmem
    have hdigit := Nat.isDigit_of_mem_toDigits (by decide) (by decide) hmem
    cases hdigit
  rcases h with rfl | ⟨number, rfl⟩ | ⟨position, rfl⟩
  · decide
  · rw [Symbol.text, Symbol.toList_nameToken]
    simpa using hdigits number
  · rw [Symbol.toList_text_index]
    simpa using hdigits position

section Compiled

variable {r : Reference} {n m : Nat} {f : Fragment}

theorem Reference.Compiled.comma_not_mem (h : r.Compiled n f m) : ',' ∉ f.text.toList := by
  rw [Fragment.text, Symbol.toList_render, List.mem_flatMap]
  rintro ⟨s, hs, hmem⟩
  exact (h.isOfPath s hs).comma_not_mem hmem

/-- A path has no literals. -/
theorem Reference.Compiled.values_eq_nil (h : r.Compiled n f m) : f.values = [] := by
  have hkeys : f.values.keys = [] := by
    rw [h.numbered.bound.values, Symbol.valueTokens, List.filterMap_eq_nil_iff]
    intro s hs
    rcases h.isOfPath s hs with rfl | ⟨number, rfl⟩ | ⟨position, rfl⟩ <;> rfl
  exact List.map_eq_nil_iff.mp hkeys

/-- **A reference is read back** from its text, wherever its names are sent. -/
theorem Reference.ofText?_of_compiled (h : r.Compiled n f m) {names : Dict String String}
    (hnames : ∀ k s, (k, s) ∈ f.names → names.get? (Symbol.nameToken k) = some s) :
    AttributePath.ofText? names f.text = r.attributePath? := by
  have hspace : .space ∉ f.symbols := by
    intro hmem
    rcases h.isOfPath _ hmem with hs | ⟨_, hs⟩ | ⟨_, hs⟩ <;> cases hs
  have hscan := scan_text h.spaced hspace
  have hsends : Piece.Sends names [] f := by
    refine ⟨hnames, ?_⟩
    intro k w hk
    rw [h.values_eq_nil] at hk
    cases hk
  have hrun := compiled_iff.mpr h
  rw [compile_eq_assemble] at hrun
  obtain ⟨ms, hms, hrow⟩ := Piece.matches_of_assemble hrun hsends
  simp only [AttributePath.ofText?, hscan, hrow, Option.bind_eq_bind, Option.bind_some]
  exact AttributePath.ofMeanings?_of_pieces hms

end Compiled

/-! ### Texts between commas -/

/-- The parts of a text, cut wherever a comma and a blank stand in it. -/
def splitAtCommas : List Char → List (List Char)
  | [] => [[]]
  | ',' :: ' ' :: cs => [] :: splitAtCommas cs
  | c :: cs => (splitAtCommas cs).modifyHead (c :: ·)

theorem splitAtCommas_cons_of_ne {c : Char} (hc : c ≠ ',') (cs : List Char) :
    splitAtCommas (c :: cs) = (splitAtCommas cs).modifyHead (c :: ·) := by
  rw [splitAtCommas]
  intro cs' heq
  exact absurd heq hc

theorem splitAtCommas_of_not_mem {cs : List Char} (h : ',' ∉ cs) : splitAtCommas cs = [cs] := by
  induction cs with
  | nil => rfl
  | cons c cs ih =>
    rw [List.mem_cons, not_or] at h
    rw [splitAtCommas_cons_of_ne (Ne.symm h.1), ih h.2]
    rfl

theorem splitAtCommas_append {cs : List Char} (h : ',' ∉ cs) (ds : List Char) :
    splitAtCommas (cs ++ ',' :: ' ' :: ds) = cs :: splitAtCommas ds := by
  induction cs with
  | nil => rfl
  | cons c cs ih =>
    rw [List.mem_cons, not_or] at h
    rw [List.cons_append, splitAtCommas_cons_of_ne (Ne.symm h.1), ih h.2]
    rfl

/-- A text is cut where its parts were joined. -/
theorem splitAtCommas_intercalate {parts : List (List Char)} (hne : parts ≠ [])
    (h : ∀ cs ∈ parts, ',' ∉ cs) : splitAtCommas ([',', ' '].intercalate parts) = parts := by
  induction parts with
  | nil => exact absurd rfl hne
  | cons cs parts ih =>
    obtain ⟨hhead, htail⟩ := List.forall_mem_cons.mp h
    cases parts with
    | nil => rw [List.intercalate_singleton, splitAtCommas_of_not_mem hhead]
    | cons ds parts =>
      rw [List.intercalate_cons_cons, List.append_assoc]
      show splitAtCommas (cs ++ ',' :: ' ' :: [',', ' '].intercalate (ds :: parts)) = _
      rw [splitAtCommas_append hhead, ih (List.cons_ne_nil ds parts) htail]

/-- The text of fragments in a row has their texts with commas between them. -/
theorem Fragment.toList_text_join (fs : List Fragment) :
    (join .comma fs).text.toList = [',', ' '].intercalate (fs.map fun f => f.text.toList) := by
  have hrender : ∀ row row' : List Symbol, (Symbol.render (row ++ row')).toList =
      (Symbol.render row).toList ++ (Symbol.render row').toList := by
    intro row row'
    rw [Symbol.toList_render, Symbol.toList_render, Symbol.toList_render, List.flatMap_append]
  induction fs with
  | nil => rfl
  | cons f fs ih =>
    cases fs with
    | nil => rw [List.map_singleton, List.intercalate_singleton, join]
    | cons g fs =>
      rw [List.map_cons, List.map_cons, List.intercalate_cons_cons, join_cons_cons]
      rw [List.map_cons] at ih
      rw [← ih]
      simp only [Fragment.text, symbols_append, hrender]
      rfl

/-! ### Reading a projection -/

/-- What the store reads in the text of a projection: the text is cut at its commas, and the
placeholders of each part are looked up. -/
def readPaths (names : Dict String String) (text : String) : Option (List AttributePath) :=
  ((splitAtCommas text.toList).map String.ofList).mapM (AttributePath.ofText? names)

/-- Where each reference is read back from its fragment, all of them are. -/
theorem mapM_ofText?_of_each {names : Dict String String} {rs : List Reference}
    {fs : List Fragment} {n m : Nat} (h : Each Reference.Compiled rs n fs m)
    (hnames : ∀ f ∈ fs, ∀ k s, (k, s) ∈ f.names →
      names.get? (Symbol.nameToken k) = some s) :
    (fs.map Fragment.text).mapM (AttributePath.ofText? names) =
      rs.mapM Reference.attributePath? := by
  induction h with
  | nil => rfl
  | cons hr _ ih =>
    obtain ⟨hhead, htail⟩ := List.forall_mem_cons.mp hnames
    rw [List.map_cons, List.mapM_cons, List.mapM_cons, Reference.ofText?_of_compiled hr hhead,
      ih htail]

/-- **A projection is read back** as the paths of its references, wherever its names are sent. -/
theorem Projection.readPaths_of_runFrom {p : Projection} (hne : p.references ≠ []) {n m : Nat}
    {f : Fragment} (h : runFrom p.compile n = (.ok f, m)) {names : Dict String String}
    (hnames : ∀ k s, (k, s) ∈ f.names → names.get? (Symbol.nameToken k) = some s) :
    readPaths names f.text = p.references.mapM Reference.attributePath? := by
  obtain ⟨fs, hfs, rfl⟩ := Projection.runFrom_compile_eq_ok.mp h
  -- Each fragment binds what it needs, and the row binds no less.
  have hnumbered := hfs.imp fun _ _ _ _ hr => Reference.Compiled.numbered hr
  obtain ⟨-, htokens, hbound⟩ := each_numbered (fun f => f) hnumbered
  have hnodup : (fs.flatMap Fragment.tokens).Nodup := by
    rw [htokens]
    exact List.nodup_range'
  have hjoined : (join .comma fs).names = fs.flatMap Fragment.names := by
    rw [join_eq hbound hnodup]
  have hpart : ∀ g ∈ fs, ∀ k s, (k, s) ∈ g.names →
      names.get? (Symbol.nameToken k) = some s := by
    intro g hg k s hk
    refine hnames k s ?_
    rw [hjoined]
    exact List.mem_flatMap.mpr ⟨g, hg, hk⟩
  have hfs_ne : fs ≠ [] := by
    rintro rfl
    cases hrefs : p.references with
    | nil => exact hne hrefs
    | cons r rs =>
      rw [hrefs] at hfs
      cases hfs
  have hcommas : ∀ cs ∈ fs.map (fun g => g.text.toList), ',' ∉ cs := by
    intro cs hcs
    obtain ⟨g, hg, rfl⟩ := List.mem_map.mp hcs
    exact hfs.forall_mem (fun _ _ _ _ hr => Reference.Compiled.comma_not_mem hr) g hg
  have hparts : (splitAtCommas (join .comma fs).text.toList).map String.ofList =
      fs.map Fragment.text := by
    rw [toList_text_join, splitAtCommas_intercalate (by simpa using hfs_ne) hcommas, List.map_map]
    simp [Function.comp_def]
  rw [readPaths, hparts, mapM_ofText?_of_each hfs hpart]

/-! ### Reads -/

/-- A read of items. -/
inductive Read
  | getItem (g : GetItem)
  | query (q : QueryPartition)
  | scan (q : ScanTable)

namespace Read

/-- A read is a call. -/
def call : Read → Call
  | getItem g => .getItem g
  | query q => .query q
  | scan q => .scan q

/-- The request of a read. -/
def request (s : Schema) (x : Read) : Except Error Request := x.call.request s

/-- The conditions that a read compiles after its projection, once its key was found. -/
def conditions (s : Schema) : Read → Except Error (List Condition)
  | getItem g => do
    let _ ← g.key.resolve s
    return []
  | query q => do
    let keyCondition ← q.query.keyCondition
    let filterCondition ← q.filterCondition
    return filterCondition.toList ++ [keyCondition]
  | scan q => do
    let filterCondition ← q.filter.mapM Query.filterCondition
    return filterCondition.toList

/-- The expressions of a read apart from its projection. -/
def remainder (s : Schema) (x : Read) : Except Error (List Fragment) := do
  let conditions ← x.conditions s
  (conditions.mapM Condition.compile).result

variable {s : Schema} {x : Read} {r : Request}

/-- The request of a read has the projection of the schema, and the other expressions are bound
beside it. -/
theorem request_cases (hr : x.request s = .ok r) :
    ∃ p m fs, runFrom s.compileProjection 0 = (.ok p, m) ∧
      r.projection = p.map Fragment.symbols ∧ x.call.fragments s = .ok fs ∧ ∀ f ∈ p, f ∈ fs := by
  cases x with
  | getItem g =>
    obtain ⟨key, -, h⟩ := bind_eq_ok.mp hr
    obtain ⟨p, hp, h⟩ := bind_eq_ok.mp h
    obtain rfl := pure_eq_ok.mp h
    obtain ⟨m, hrun⟩ := Compile.result_eq_ok.mp hp
    refine ⟨p, m, p.toList, hrun, rfl, bind_eq_ok.mpr ⟨p, hp, rfl⟩, ?_⟩
    simp
  | query q =>
    obtain ⟨key, hkey, h⟩ := bind_eq_ok.mp hr
    obtain ⟨filter, hfilter, h⟩ := bind_eq_ok.mp h
    obtain ⟨⟨p, f, k⟩, hresult, h⟩ := bind_eq_ok.mp h
    obtain rfl := pure_eq_ok.mp h
    obtain ⟨m, hrun⟩ := Compile.result_eq_ok.mp hresult
    obtain ⟨l, j, hp, -⟩ := QueryPartition.runFrom_compile_eq_ok.mp hrun
    refine ⟨p, l, p.toList ++ f.toList ++ [k], hp, rfl, ?_, ?_⟩
    · exact bind_eq_ok.mpr ⟨key, hkey, bind_eq_ok.mpr ⟨filter, hfilter,
        bind_eq_ok.mpr ⟨(p, f, k), hresult, rfl⟩⟩⟩
    · intro g hg
      simp [Option.mem_def.mp hg]
  | scan q =>
    obtain ⟨filter, hfilter, h⟩ := bind_eq_ok.mp hr
    obtain ⟨⟨p, f⟩, hresult, h⟩ := bind_eq_ok.mp h
    obtain rfl := pure_eq_ok.mp h
    obtain ⟨m, hrun⟩ := Compile.result_eq_ok.mp hresult
    simp only [ScanTable.compile, Compile.runFrom_bind_eq_ok, Compile.runFrom_pure_eq_ok] at hrun
    obtain ⟨_, l, hp, _, j, -, heq, rfl⟩ := hrun
    cases heq
    refine ⟨p, l, p.toList ++ f.toList, hp, rfl, ?_, ?_⟩
    · exact bind_eq_ok.mpr ⟨filter, hfilter, bind_eq_ok.mpr ⟨(p, f), hresult, rfl⟩⟩
    · intro g hg
      simp [Option.mem_def.mp hg]

end Read

/-! ### Refusals -/

section Refused

variable {α β γ : Type} {step : Except Error α}

/-- Going on from a step fails alike if whatever follows it does. -/
theorem failure?_bind_congr {f : α → Except Error β} {g : α → Except Error γ}
    (h : ∀ a, failure? (f a) = failure? (g a)) :
    failure? (step >>= f) = failure? (step >>= g) := by
  cases step with
  | error e => rfl
  | ok a => exact h a

theorem failure?_bind_pure {g : α → β} :
    failure? (step >>= fun a => pure (g a)) = failure? step := by
  cases step <;> rfl

/-- Two compilations with the same demands fail alike. -/
theorem Compile.Meets.failure?_result {c : Compile α} {d : Compile β} {ds : List Demand}
    (hc : Meets c ds) (hd : Meets d ds) : failure? c.result = failure? d.result := by
  show failure? (runFrom c 0).1 = failure? (runFrom d 0).1
  rw [hc 0, hd 0]

end Refused

/-- The projection of a schema that was built demands nothing. -/
theorem Schema.meets_compileProjection {draft : SchemaDraft} {s : Schema}
    (h : draft.build = .ok s) : Meets s.compileProjection [] := by
  intro n
  obtain ⟨p, m, hp⟩ := Schema.exists_runFrom_compileProjection h n
  rw [hp]
  rfl

theorem Condition.meets_mapM_compile (cs : List Condition) :
    Meets (cs.mapM Condition.compile) (cs.flatMap Condition.demands) :=
  Compile.meets_mapM fun c _ => c.meets_compile

/-- **For what a read is refused**: for its key or for its conditions, just as if it had no
projection. -/
theorem Read.failure?_request {draft : SchemaDraft} {s : Schema} (h : draft.build = .ok s)
    (x : Read) : failure? (x.request s) = failure? (x.remainder s) := by
  have hprojection := Schema.meets_compileProjection h
  cases x with
  | getItem g =>
    simp only [request, call, Call.request, GetItem.request, remainder, conditions, bind_assoc,
      pure_bind]
    refine failure?_bind_congr fun _ => ?_
    rw [failure?_bind_pure]
    exact hprojection.failure?_result (Condition.meets_mapM_compile [])
  | query q =>
    simp only [request, call, Call.request, QueryPartition.request, remainder, conditions,
      bind_assoc, pure_bind]
    refine failure?_bind_congr fun key => failure?_bind_congr fun filter => ?_
    rw [failure?_bind_pure]
    refine Compile.Meets.failure?_result ?_ (Condition.meets_mapM_compile _)
    rw [List.flatMap_append, List.flatMap_singleton]
    exact hprojection.bind fun _ =>
      (Compile.meets_option_mapM fun c _ => c.meets_compile).bind fun _ => key.meets_compile.map _
  | scan q =>
    simp only [request, call, Call.request, ScanTable.request, remainder, conditions, bind_assoc,
      pure_bind]
    refine failure?_bind_congr fun filter => ?_
    rw [failure?_bind_pure]
    refine Compile.Meets.failure?_result ?_ (Condition.meets_mapM_compile _)
    exact hprojection.bind fun _ => (Compile.meets_option_mapM fun c _ => c.meets_compile).map _

/-! ### What reads ask for -/

/-- A request asks for whole attributes, each of them once and in order.  That is what the store
reads in the projection, whatever else the names of the request are for. -/
structure Request.AsksFor (r : Request) (attributes : List String) : Prop where
  once : attributes.Nodup
  absent : r.projection = none ↔ attributes = []
  paths : ∀ row ∈ r.projection, readPaths (r.writtenNames?.getD []) (Symbol.render row) =
    some (attributes.map fun name => ⟨name, []⟩)

theorem mapM_eq_some_map {α β : Type} {g : α → Option β} {f : α → β} {l : List α}
    (h : ∀ a ∈ l, g a = some (f a)) : l.mapM g = some (l.map f) := by
  induction l with
  | nil => rfl
  | cons a l ih =>
    obtain ⟨hhead, htail⟩ := List.forall_mem_cons.mp h
    rw [List.mapM_cons, hhead, ih htail]
    rfl

namespace Schema

variable {draft : SchemaDraft} {s : Schema}

/-- There is a projection unless there are no fields. -/
theorem runFrom_compileProjection_eq_ok {p : Option Fragment} {n m : Nat} :
    runFrom s.compileProjection n = (.ok p, m) ↔
      s.fields = [] ∧ p = none ∧ m = n ∨
        s.fields ≠ [] ∧ ∃ f, p = some f ∧ runFrom (Projection.ofSchema s).compile n = (.ok f, m) := by
  have hempty : (Projection.ofSchema s).isEmpty = true ↔ s.fields = [] := by
    rw [Projection.isEmpty, List.isEmpty_iff, Projection.ofSchema, List.map_eq_nil_iff]
  unfold compileProjection
  simp only
  split
  · next hnone =>
    rw [Compile.runFrom_pure_eq_ok]
    have hfields := hempty.mp hnone
    simp [hfields, eq_comm]
  · next hsome =>
    have hfields := mt hempty.mpr hsome
    simp only [Compile.runFrom_bind_eq_ok, Compile.runFrom_pure_eq_ok]
    constructor
    · rintro ⟨f, l, hf, rfl, rfl⟩
      exact .inr ⟨hfields, f, rfl, hf⟩
    · rintro (⟨hfields', -⟩ | ⟨-, f, rfl, hf⟩)
      · exact absurd hfields' hfields
      · exact ⟨f, m, hf, rfl, rfl⟩

/-- The references of a schema name its attributes. -/
theorem attributePaths_of_build (h : draft.build = .ok s) :
    (Projection.ofSchema s).references.mapM Reference.attributePath? =
      some (s.fields.map fun f => ⟨f.attributeName, []⟩) := by
  rw [Projection.ofSchema, List.mapM_map]
  refine mapM_eq_some_map fun f hf => ?_
  obtain ⟨hname, hsteps⟩ := SchemaDraft.reference_of_build h f hf
  rw [Function.comp_apply, Reference.attributePath?, hname, hsteps]
  rfl

/-- The attributes of a schema are those that were declared. -/
theorem attributeNames_of_build (h : draft.build = .ok s) :
    s.fields.map Field.attributeName = draft.declarations.map Declaration.attributeName := by
  obtain ⟨-, rfl⟩ := SchemaDraft.build_eq_ok_iff.mp h
  exact draft.map_fieldOf Field.attributeName

end Schema

namespace Read

variable {draft : SchemaDraft} {s : Schema}

/-- The request of a read asks for the attributes that were declared. -/
theorem asksFor_of_request (h : draft.build = .ok s) {x : Read} {r : Request}
    (hr : x.request s = .ok r) :
    r.AsksFor (draft.declarations.map Declaration.attributeName) := by
  obtain ⟨p, m, fs, hp, hprojection, hfs, hmem⟩ := request_cases hr
  rw [← Schema.attributeNames_of_build h]
  refine ⟨(SchemaDraft.apart_of_build h).attributes, ?_, ?_⟩
  · rw [hprojection, Option.map_eq_none_iff, List.map_eq_nil_iff]
    rcases Schema.runFrom_compileProjection_eq_ok.mp hp with ⟨hfields, rfl, -⟩ |
      ⟨hfields, f, rfl, -⟩
    · simp [hfields]
    · simp [hfields]
  · rw [hprojection]
    intro row hrow
    obtain ⟨f, rfl, rfl⟩ := Option.map_eq_some_iff.mp hrow
    rcases Schema.runFrom_compileProjection_eq_ok.mp hp with ⟨-, hnone, -⟩ |
      ⟨hfields, g, hg, hrun⟩
    · cases hnone
    · cases hg
      -- The names of the projection are among those that are sent.
      have hsends := Call.sends_of_request hr hfs f (hmem f rfl)
      have hne : (Projection.ofSchema s).references ≠ [] := by
        rw [Projection.ofSchema]
        simpa using hfields
      have hread := Projection.readPaths_of_runFrom hne hrun hsends.names
      rw [Schema.attributePaths_of_build h] at hread
      rw [List.map_map]
      exact hread

/-- **What a read asks for.**

Under a schema that was built, the projection compiles from every number, so a read is refused for
its key or its conditions alone.  Where it is not, its request has no projection if nothing was
declared, and otherwise a projection in which the store reads the attributes that were declared,
each of them once and in order, among the names of all expressions. -/
theorem asksFor_of_build (h : draft.build = .ok s) :
    (∀ n, ∃ f m, runFrom (Projection.ofSchema s).compile n = (.ok f, m)) ∧
      ∀ x : Read, (∀ e, x.request s = .error e ↔ x.remainder s = .error e) ∧
        ∀ r, x.request s = .ok r →
          r.AsksFor (draft.declarations.map Declaration.attributeName) := by
  refine ⟨Projection.exists_runFrom_ofSchema h, fun x => ⟨fun e => ?_, ?_⟩⟩
  · rw [← failure?_eq_some_iff, ← failure?_eq_some_iff, failure?_request h]
  · intro r hr
    exact asksFor_of_request h hr

/-- The names of attributes may look like paths or placeholders, the filter and the key condition
name the same attributes again, and a filter that cannot be named is refused for itself. -/
theorem asksFor_of_build_filtered :
    let draft := (((SchemaDraft.new "table").declareKey "id" .unnamed).declareKey "at"
      (.named "A, b")).declarePlain "a" (.named "#n4")
    let q : QueryPartition := {
      query := ⟨some (.compare (.path (.named "id")) .equal (.literal (.string "x"))),
        some (.exists ((Reference.named "#n4").step (.field "A, b")))⟩ }
    ∃ s r, draft.build = .ok s ∧ (Read.query q).request s = .ok r ∧
      r.projection.map Symbol.render = some "#n0, #n1, #n2" ∧
      r.writtenNames? = some [("#n0", "id"), ("#n1", "A, b"), ("#n2", "#n4"), ("#n3", "#n4"),
        ("#n4", "A, b"), ("#n5", "id")] ∧
      readPaths (r.writtenNames?.getD []) "#n0, #n1, #n2" =
        some [⟨"id", []⟩, ⟨"A, b", []⟩, ⟨"#n4", []⟩] ∧
      (Read.scan { filter := some ⟨none, some (.exists .unnamed)⟩ }).request s =
        .error .unboundReference := by
  intro draft q
  obtain ⟨s, hs⟩ : ∃ s, draft.build = .ok s := ⟨_, rfl⟩
  obtain ⟨r, hr⟩ : ∃ r, (Read.query q).request s = .ok r := by
    cases hs
    exact ⟨_, rfl⟩
  have hprojection : r.projection.map Symbol.render = some "#n0, #n1, #n2" := by
    cases hs
    cases hr
    decide
  obtain ⟨-, hreads⟩ := asksFor_of_build hs
  obtain ⟨row, hrow, htext⟩ := Option.map_eq_some_iff.mp hprojection
  refine ⟨s, r, hs, hr, hprojection, ?_, ?_, ?_⟩
  · cases hs
    cases hr
    decide
  · rw [← htext]
    exact ((hreads _).2 r hr).paths row hrow
  · exact ((hreads _).1 _).mpr rfl

end Read

end ItemStore
