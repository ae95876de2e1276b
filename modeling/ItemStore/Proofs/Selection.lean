import ItemStore.Proofs.Binding
import ItemStore.Proofs.Declared
import ItemStore.Proofs.Meaning
import ItemStore.Proofs.Reading

/-!
# What a query selects and what it filters

The request of a query has two expressions.  The key half of the query is the key condition,
alone; whatever else is asked for, which is up to three halves, is joined into the filter.
Each expression is read as one tree whose atoms say, through the names and the values that
are sent, the predicates of these halves, each of them once and in order.  Which requests
can be built depends on the halves alone: the attributes of a schema can always be named.

## Main definitions

* `Condition.Compiles` — the condition has an expression.
* `Condition.Conjoins` — a condition that may be absent stands for the conjunction of others.
* `Request.Says` — what expressions of a request say.
* `QueryPartition.remaining`, `QueryPartition.conditions` — the halves that a query is made of.
* `QueryPartition.Selects` — what is sent for a query is what the query asks for.

## Main results

* `QueryPartition.conjoins_remaining` — the filter of a query is the conjunction of what is left.
* `QueryPartition.exists_request_iff` — which queries have a request.
* `QueryPartition.selects_of_request` — that request selects what is asked for.
-/

namespace ItemStore

open Grammar Fragment
open Compile (runFrom)

/-! ### Conditions that compile -/

namespace Condition

/-- The condition has an expression. -/
def Compiles (c : Condition) : Prop := ∃ f, c.compile.result = .ok f

variable {c left right : Condition} {n m : Nat} {f : Fragment}

/-- A condition that compiles says something. -/
theorem exists_meaning_of_runFrom (h : runFrom c.compile n = (.ok f, m)) :
    ∃ ms, c.pieces.mapM Piece.meaning = .ok ms := by
  have hdrawn := (compiled_iff.mp h).numbered.drawn
  rw [compile_eq_assemble] at h
  obtain ⟨ms, hms, -⟩ := Piece.matches_of_assemble h (Piece.sends_of_drawn hdrawn)
  exact ⟨ms, hms⟩

/-- Whether a condition compiles does not depend on the counter. -/
theorem Compiles.exists_runFrom (h : c.Compiles) (n : Nat) :
    ∃ f m, runFrom c.compile n = (.ok f, m) := by
  obtain ⟨f, hf⟩ := h
  obtain ⟨m, hf⟩ := Compile.result_eq_ok.mp hf
  obtain ⟨ms, hms⟩ := exists_meaning_of_runFrom hf
  rw [compile_eq_assemble]
  exact Piece.exists_runFrom_assemble hms n

theorem compiles_of_runFrom (h : runFrom c.compile n = (.ok f, m)) : c.Compiles := by
  obtain ⟨ms, hms⟩ := exists_meaning_of_runFrom h
  obtain ⟨g, l, hg⟩ := Piece.exists_runFrom_assemble hms 0
  rw [← compile_eq_assemble] at hg
  exact ⟨g, Compile.result_eq_ok.mpr ⟨l, hg⟩⟩

/-- Joined conditions compile where both of them do. -/
theorem compiles_joined {connective : Connective} :
    (joined connective left right).Compiles ↔ left.Compiles ∧ right.Compiles := by
  constructor
  · rintro ⟨f, hf⟩
    obtain ⟨m, hf⟩ := Compile.result_eq_ok.mp hf
    cases compiled_iff.mp hf with
    | joined hl hr =>
      exact ⟨compiles_of_runFrom (compiled_iff.mpr hl), compiles_of_runFrom (compiled_iff.mpr hr)⟩
  · rintro ⟨hl, hr⟩
    obtain ⟨f, l, hf⟩ := hl.exists_runFrom 0
    obtain ⟨g, m, hg⟩ := hr.exists_runFrom l
    have hjoined : (joined connective left right).Compiled 0 _ m :=
      .joined (compiled_iff.mp hf) (compiled_iff.mp hg)
    exact compiles_of_runFrom (compiled_iff.mpr hjoined)

end Condition

/-- What may be absent compiles from any counter if it compiles where it is there. -/
theorem Condition.exists_runFrom_mapM {o : Option Condition} (h : ∀ c ∈ o, c.Compiles) (n : Nat) :
    ∃ f m, runFrom (o.mapM Condition.compile) n = (.ok f, m) := by
  cases o with
  | none => exact ⟨none, n, rfl⟩
  | some c =>
    obtain ⟨f, m, hf⟩ := (h c rfl).exists_runFrom n
    exact ⟨some f, m, Compile.runFrom_option_mapM_eq_ok.mpr (.inr ⟨c, f, rfl, rfl, hf⟩)⟩

/-- The attributes of a schema can be named. -/
theorem Projection.exists_runFrom_ofSchema {draft : SchemaDraft} {s : Schema}
    (h : draft.build = .ok s) (n : Nat) :
    ∃ f m, runFrom (Projection.ofSchema s).compile n = (.ok f, m) := by
  have hreference : ∀ r ∈ (Projection.ofSchema s).references, ∀ n,
      ∃ f m, runFrom r.compile n = (.ok f, m) := by
    intro r hr n
    obtain ⟨f, hf, rfl⟩ := List.mem_map.mp hr
    obtain ⟨hname, hpath⟩ := SchemaDraft.reference_of_build h f hf
    have hmeaning : f.reference.pieces.mapM Piece.meaning = .ok [.name f.attributeName] := by
      rw [Reference.pieces, Reference.head, hname, hpath]
      rfl
    rw [Reference.compile_eq_assemble]
    exact Piece.exists_runFrom_assemble hmeaning n
  obtain ⟨fs, m, hfs⟩ := Compile.exists_runFrom_mapM hreference n
  exact ⟨_, m, Compile.runFrom_bind_eq_ok.mpr ⟨fs, m, hfs, rfl⟩⟩

theorem Schema.exists_runFrom_compileProjection {draft : SchemaDraft} {s : Schema}
    (h : draft.build = .ok s) (n : Nat) :
    ∃ p m, runFrom s.compileProjection n = (.ok p, m) := by
  unfold Schema.compileProjection
  simp only
  split
  · exact ⟨none, n, rfl⟩
  · obtain ⟨f, m, hf⟩ := Projection.exists_runFrom_ofSchema h n
    exact ⟨some f, m, Compile.runFrom_bind_eq_ok.mpr ⟨f, m, hf, rfl⟩⟩

/-! ### Conjunctions of what is there -/

namespace Condition

/-- The predicates of conditions, from left to right. -/
def predicates (conditions : List Condition) : List Condition :=
  conditions.flatMap fun c => c.logic.atoms

/-- A condition that may be absent stands for the conjunction of others: it has their
predicates in order, it is true where they all are, and it compiles where they all do. -/
structure Conjoins (o : Option Condition) (conditions : List Condition) : Prop where
  absent : o = none ↔ conditions = []
  predicates : predicates o.toList = predicates conditions
  eval : ∀ truth, o.toList.all (Condition.eval truth) = conditions.all (Condition.eval truth)
  compiles : (∀ c ∈ o, c.Compiles) ↔ ∀ c ∈ conditions, c.Compiles

theorem conjoins_toList (o : Option Condition) : Conjoins o o.toList := by
  refine ⟨?_, rfl, fun _ => rfl, ?_⟩
  · cases o <;> simp
  · simp

/-- Joining two conditions that may be absent conjoins what they stand for. -/
theorem Conjoins.combine {o p : Option Condition} {cs ds : List Condition} (ho : Conjoins o cs)
    (hp : Conjoins p ds) : Conjoins (Connective.and.combine o p) (cs ++ ds) := by
  have hboth : Conjoins (Connective.and.combine o p) (o.toList ++ p.toList) := by
    cases o with
    | none => exact conjoins_toList p
    | some c =>
      cases p with
      | none => exact conjoins_toList (some c)
      | some d =>
        refine ⟨by simp [Connective.combine], ?_, ?_, ?_⟩
        · simp [Connective.combine, Condition.predicates, logic, Logic.atoms]
        · intro truth
          simp [Connective.combine, Condition.eval, Connective.eval]
        · simp [Connective.combine, compiles_joined]
  refine ⟨?_, ?_, ?_, ?_⟩
  · rw [hboth.absent, List.append_eq_nil_iff, List.append_eq_nil_iff, ← ho.absent, ← hp.absent]
    cases o <;> cases p <;> simp
  · rw [hboth.predicates]
    have hpredicates : ∀ as bs : List Condition, Condition.predicates (as ++ bs) =
        Condition.predicates as ++ Condition.predicates bs := fun _ _ => List.flatMap_append
    rw [hpredicates, hpredicates, ho.predicates, hp.predicates]
  · intro truth
    rw [hboth.eval, List.all_append, List.all_append, ho.eval, hp.eval]
  · rw [hboth.compiles, List.forall_mem_append, List.forall_mem_append, ← ho.compiles,
      ← hp.compiles]
    simp

end Condition

/-! ### What expressions say -/

namespace Request

/-- What expressions of a request say: each text is read as a tree and as no other, the atoms
of the trees say the predicates of the conditions, and the texts are all true where the
conditions all are. -/
structure Says (r : Request) (rows : List (List Symbol)) (conditions : List Condition)
    (trees : List (Logic (List Symbol))) : Prop where
  read : List.Forall₂ (fun row t => ∀ t', Reads (Symbol.render row) t' ↔ t' = t) rows trees
  predicates : List.Forall₂
    (fun c row => Piece.Matches (r.writtenNames?.getD []) (r.writtenValues?.getD []) c.pieces row)
    (Condition.predicates conditions) (trees.flatMap Logic.atoms)
  /-- The truth of an atom is that of the predicate in its place. -/
  eval : ∀ truth truth',
    (∀ p ∈ (Condition.predicates conditions).zip (trees.flatMap Logic.atoms),
      truth' p.2 = truth p.1) →
    trees.all (Logic.eval truth') = conditions.all (Condition.eval truth)

variable {r : Request} {rows rows' : List (List Symbol)} {cs ds : List Condition}
  {ts us : List (Logic (List Symbol))}

theorem says_nil (r : Request) : r.Says [] [] [] := ⟨.nil, .nil, fun _ _ _ => rfl⟩

theorem Says.append (h : r.Says rows cs ts) (h' : r.Says rows' ds us) :
    r.Says (rows ++ rows') (cs ++ ds) (ts ++ us) := by
  have hpredicates : Condition.predicates (cs ++ ds) =
      Condition.predicates cs ++ Condition.predicates ds := List.flatMap_append
  refine ⟨List.rel_append h.read h'.read, ?_, ?_⟩
  · rw [hpredicates, List.flatMap_append]
    exact List.rel_append h.predicates h'.predicates
  · intro truth truth' hagree
    rw [hpredicates, List.flatMap_append, List.zip_append h.predicates.length_eq] at hagree
    rw [List.all_append, List.all_append,
      h.eval truth truth' fun p hp => hagree p (List.mem_append_left _ hp),
      h'.eval truth truth' fun p hp => hagree p (List.mem_append_right _ hp)]

/-- What stands for a conjunction says what the conjunction says. -/
theorem Says.of_conjoins {o : Option Condition} (ho : Condition.Conjoins o cs)
    (h : r.Says rows o.toList ts) :
    r.Says rows cs ts := by
  refine ⟨h.read, ?_, ?_⟩
  · rw [← ho.predicates]
    exact h.predicates
  · intro truth truth' hagree
    rw [← ho.predicates] at hagree
    rw [← ho.eval]
    exact h.eval truth truth' hagree

/-- A compiled condition says what the condition says. -/
theorem says_of_runFrom {c : Condition} {n m : Nat} {f : Fragment}
    (h : runFrom c.compile n = (.ok f, m))
    (hsends : Piece.Sends (r.writtenNames?.getD []) (r.writtenValues?.getD []) f) :
    ∃ t, r.Says [f.symbols] [c] [t] ∧ Derives false f.symbols t := by
  have hcompiled := Condition.compiled_iff.mp h
  obtain ⟨t, ht, hreads, hatoms, -, heval⟩ := hcompiled.read_back hsends
  obtain ⟨u, hu, hderives, -, -⟩ := hcompiled.reading
  -- Both trees are that of the same run.
  rw [ht] at hu
  cases hu
  refine ⟨t, ⟨.cons hreads .nil, ?_, ?_⟩, hderives⟩
  · simpa [Condition.predicates] using hatoms
  · intro truth truth' hagree
    have heval : t.eval truth' = c.eval truth :=
      heval truth truth' (by simpa [Condition.predicates, Logic.Agree] using hagree)
    simp [heval]

/-- What may be absent says what it says where it is there. -/
theorem says_of_runFrom_mapM {o : Option Condition} {n m : Nat} {f : Option Fragment}
    (h : runFrom (o.mapM Condition.compile) n = (.ok f, m))
    (hsends : ∀ g ∈ f, Piece.Sends (r.writtenNames?.getD []) (r.writtenValues?.getD []) g) :
    ∃ ts, r.Says (f.map Fragment.symbols).toList o.toList ts ∧
      List.Forall₂ (Derives false) (f.map Fragment.symbols).toList ts := by
  rcases Compile.runFrom_option_mapM_eq_ok.mp h with ⟨rfl, rfl, -⟩ | ⟨c, g, rfl, rfl, hg⟩
  · exact ⟨[], says_nil r, .nil⟩
  · obtain ⟨t, ht, hderives⟩ := says_of_runFrom hg (hsends g rfl)
    exact ⟨[t], ht, .cons hderives .nil⟩

/-- Where no placeholder occurs twice in what is derived, no atom does. -/
theorem nodup_atoms_of_derives (h : List.Forall₂ (Derives false) rows ts)
    (hnodup : (rows.flatMap Symbol.tokens).Nodup) : (ts.flatMap Logic.atoms).Nodup := by
  have hatoms : (∀ a ∈ ts.flatMap Logic.atoms, Atom a) ∧
      (ts.flatMap Logic.atoms).flatMap Symbol.tokens = rows.flatMap Symbol.tokens := by
    clear hnodup
    induction h with
    | nil => simp
    | cons hrow _ ih =>
      obtain ⟨hatom, htokens⟩ := ih
      rw [List.flatMap_cons, List.flatMap_cons, List.flatMap_append, hrow.tokens_atoms, htokens]
      exact ⟨List.forall_mem_append.mpr ⟨hrow.atom_of_mem, hatom⟩, rfl⟩
  rw [← hatoms.2] at hnodup
  exact nodup_of_nodup_tokens hatoms.1 hnodup

end Request

/-! ### Queries -/

namespace Query

variable {q : Query} {c : Condition}

theorem keyCondition_eq_ok : q.keyCondition = .ok c ↔ q.key = some c := by
  rw [keyCondition]
  cases q.key <;> simp

theorem filterCondition_eq_ok :
    q.filterCondition = .ok c ↔
      q.filter ≠ none ∧ Connective.and.combine q.key q.filter = some c := by
  rw [filterCondition, condition]
  cases hfilter : q.filter with
  | none => simp
  | some d =>
    cases hkey : q.key with
    | none => simp
    | some k => simp [Connective.combine]

end Query

namespace QueryPartition

/-- What is asked for apart from the key half of the query: its filter half, and both halves
of the further filter. -/
def remaining (q : QueryPartition) : List Condition :=
  q.query.filter.toList ++ q.filter.elim [] fun f => f.key.toList ++ f.filter.toList

/-- All that is asked for. -/
def conditions (q : QueryPartition) : List Condition := q.query.key.toList ++ q.remaining

/-- What is sent for a query is what the query asks for. -/
structure Selects (q : QueryPartition) (r : Request) : Prop where
  /-- The key condition is the key half of the query, alone. -/
  key : ∃ k row t, q.query.key = some k ∧ r.keyCondition = some row ∧ r.Says [row] [k] [t]
  /-- The filter is all the rest. -/
  filter : ∃ ts, r.Says r.filter.toList q.remaining ts
  absent : r.filter = none ↔ q.query.filter = none ∧ q.filter = none
  /-- Together they are all that is asked for, and no predicate is there twice. -/
  both : ∃ ts, r.Says (r.keyCondition.toList ++ r.filter.toList) q.conditions ts ∧
    (ts.flatMap Logic.atoms).Nodup

variable {q : QueryPartition} {s : Schema} {o : Option Condition}

/-- A further filter has to have a filter half. -/
theorem exists_filterCondition_iff :
    (∃ o, q.filterCondition = .ok o) ↔ ∀ f, q.filter = some f → f.filter ≠ none := by
  constructor
  · rintro ⟨o, ho⟩ f hf
    obtain ⟨explicit, hexplicit, -⟩ := bind_eq_ok.mp ho
    rw [hf, Option.mapM_some] at hexplicit
    obtain ⟨c, hc, -⟩ := map_eq_ok.mp hexplicit
    exact (Query.filterCondition_eq_ok.mp hc).1
  · intro h
    cases hq : q.filter with
    | none => exact ⟨_, bind_eq_ok.mpr ⟨none, by rw [hq]; rfl, rfl⟩⟩
    | some f =>
      obtain ⟨c, hc⟩ : ∃ c, f.filterCondition = .ok c := by
        obtain ⟨d, hd⟩ := Option.ne_none_iff_exists'.mp (h f hq)
        obtain ⟨c, hc⟩ : ∃ c, Connective.and.combine f.key f.filter = some c := by
          rw [hd]
          cases f.key with
          | none => exact ⟨d, rfl⟩
          | some k => exact ⟨.joined .and k d, rfl⟩
        exact ⟨c, Query.filterCondition_eq_ok.mpr ⟨h f hq, hc⟩⟩
      refine ⟨_, bind_eq_ok.mpr ⟨some c, ?_, rfl⟩⟩
      rw [hq, Option.mapM_some]
      exact map_eq_ok.mpr ⟨c, hc, rfl⟩

/-- The filter of a query is the conjunction of what is left. -/
theorem conjoins_remaining (h : q.filterCondition = .ok o) :
    Condition.Conjoins o q.remaining := by
  obtain ⟨explicit, hexplicit, ho⟩ := bind_eq_ok.mp h
  obtain rfl := pure_eq_ok.mp ho
  refine (Condition.conjoins_toList q.query.filter).combine ?_
  cases hq : q.filter with
  | none =>
    rw [hq] at hexplicit
    cases hexplicit
    exact Condition.conjoins_toList none
  | some f =>
    rw [hq, Option.mapM_some] at hexplicit
    obtain ⟨c, hc, rfl⟩ := map_eq_ok.mp hexplicit
    rw [← (Query.filterCondition_eq_ok.mp hc).2]
    exact (Condition.conjoins_toList f.key).combine (Condition.conjoins_toList f.filter)

/-- The filter is missing where neither the query nor a further filter asks for one. -/
theorem remaining_eq_nil_iff (h : ∀ f, q.filter = some f → f.filter ≠ none) :
    q.remaining = [] ↔ q.query.filter = none ∧ q.filter = none := by
  rw [remaining, List.append_eq_nil_iff]
  cases hq : q.filter with
  | none => simp
  | some f =>
    obtain ⟨d, hd⟩ := Option.ne_none_iff_exists'.mp (h f hq)
    simp [hd]

/-- The expressions of a query are compiled one after the other. -/
theorem runFrom_compile_eq_ok {k : Condition} {p f : Option Fragment} {g : Fragment} {n m : Nat} :
    runFrom (compile s o k) n = (.ok (p, f, g), m) ↔
      ∃ l j, runFrom s.compileProjection n = (.ok p, l) ∧
        runFrom (o.mapM Condition.compile) l = (.ok f, j) ∧ runFrom k.compile j = (.ok g, m) := by
  simp only [compile, Compile.runFrom_bind_eq_ok, Compile.runFrom_pure_eq_ok]
  constructor
  · rintro ⟨_, l, hp, _, j, hf, _, _, hg, ⟨⟩, rfl⟩
    exact ⟨l, j, hp, hf, hg⟩
  · rintro ⟨l, j, hp, hf, hg⟩
    exact ⟨_, l, hp, _, j, hf, _, _, hg, rfl, rfl⟩

/-- What the request of a query is made of. -/
theorem request_cases {r : Request} (hr : q.request s = .ok r) :
    ∃ k o p f g m, q.query.key = some k ∧ q.filterCondition = .ok o ∧
      runFrom (compile s o k) 0 = (.ok (p, f, g), m) ∧ r.keyCondition = some g.symbols ∧
      r.filter = f.map Fragment.symbols ∧
      (Call.query q).fragments s = .ok (p.toList ++ f.toList ++ [g]) := by
  obtain ⟨k, hk, hr⟩ := bind_eq_ok.mp hr
  obtain ⟨o, ho, hr⟩ := bind_eq_ok.mp hr
  obtain ⟨⟨p, f, g⟩, hresult, hr⟩ := bind_eq_ok.mp hr
  obtain rfl := pure_eq_ok.mp hr
  obtain ⟨m, hrun⟩ := Compile.result_eq_ok.mp hresult
  refine ⟨k, o, p, f, g, m, Query.keyCondition_eq_ok.mp hk, ho, hrun, rfl, rfl, ?_⟩
  exact bind_eq_ok.mpr ⟨k, hk, bind_eq_ok.mpr ⟨o, ho, bind_eq_ok.mpr ⟨_, hresult, rfl⟩⟩⟩

theorem exists_request {k : Condition} (hk : q.query.key = some k)
    (ho : q.filterCondition = .ok o) {x : Option Fragment × Option Fragment × Fragment} {m : Nat}
    (hx : runFrom (compile s o k) 0 = (.ok x, m)) : ∃ r, q.request s = .ok r := by
  have hkey := Query.keyCondition_eq_ok.mpr hk
  have hresult := Compile.result_eq_ok.mpr ⟨m, hx⟩
  simp only [request, hkey, ho, hresult, bind, Except.bind]
  exact ⟨_, rfl⟩

theorem forall_mem_conditions {k : Condition} (hk : q.query.key = some k) {P : Condition → Prop} :
    (∀ c ∈ q.conditions, P c) ↔ P k ∧ ∀ c ∈ q.remaining, P c := by
  rw [conditions, hk, List.forall_mem_append]
  simp

/-- **Which queries have a request**: those with a key half whose further filter, if there is
one, has a filter half, and whose halves all compile. -/
theorem exists_request_iff {draft : SchemaDraft} (h : draft.build = .ok s) :
    (∃ r, q.request s = .ok r) ↔
      q.query.key ≠ none ∧ (∀ f, q.filter = some f → f.filter ≠ none) ∧
        ∀ c ∈ q.conditions, c.Compiles := by
  rw [← exists_filterCondition_iff]
  constructor
  · rintro ⟨r, hr⟩
    obtain ⟨k, o, p, f, g, m, hk, ho, hrun, -⟩ := request_cases hr
    obtain ⟨l, j, -, hf, hg⟩ := runFrom_compile_eq_ok.mp hrun
    refine ⟨by simp [hk], ⟨o, ho⟩, (forall_mem_conditions hk).mpr ⟨?_, ?_⟩⟩
    · exact Condition.compiles_of_runFrom hg
    · refine (conjoins_remaining ho).compiles.mp fun c hc => ?_
      rcases Compile.runFrom_option_mapM_eq_ok.mp hf with ⟨rfl, -, -⟩ | ⟨d, e, rfl, -, he⟩
      · cases hc
      · cases hc
        exact Condition.compiles_of_runFrom he
  · rintro ⟨hkey, ⟨o, ho⟩, hcompiles⟩
    obtain ⟨k, hk⟩ := Option.ne_none_iff_exists'.mp hkey
    obtain ⟨hcompiles, hremaining⟩ := (forall_mem_conditions hk).mp hcompiles
    have hfilter := (conjoins_remaining ho).compiles.mpr hremaining
    obtain ⟨p, l, hp⟩ := Schema.exists_runFrom_compileProjection h 0
    obtain ⟨f, j, hf⟩ := Condition.exists_runFrom_mapM hfilter l
    obtain ⟨g, m, hg⟩ := hcompiles.exists_runFrom j
    exact exists_request hk ho (runFrom_compile_eq_ok.mpr ⟨l, j, hp, hf, hg⟩)

/-- **The request of a query selects what the query asks for.** -/
theorem selects_of_request {r : Request} (hr : q.request s = .ok r) : q.Selects r := by
  obtain ⟨k, o, p, f, g, m, hk, ho, hrun, hkey, hfilter, hfragments⟩ := request_cases hr
  have hsends := Call.sends_of_request (c := .query q) hr hfragments
  obtain ⟨l, j, -, hf, hg⟩ := runFrom_compile_eq_ok.mp hrun
  obtain ⟨t, ht, hderives⟩ := Request.says_of_runFrom hg (hsends g (by simp))
  obtain ⟨ts, hts, hderived⟩ := Request.says_of_runFrom_mapM hf fun e he =>
    hsends e (by simp [Option.mem_def.mp he])
  have hconjoins := conjoins_remaining ho
  have hremaining := hts.of_conjoins hconjoins
  rw [← hfilter] at hremaining hderived
  refine ⟨⟨k, _, t, hk, hkey, ht⟩, ⟨ts, hremaining⟩, ?_, t :: ts, ?_, ?_⟩
  · rw [← remaining_eq_nil_iff (exists_filterCondition_iff.mp ⟨o, ho⟩), ← hconjoins.absent,
      hfilter]
    rcases Compile.runFrom_option_mapM_eq_ok.mp hf with ⟨rfl, rfl, -⟩ | ⟨c, e, rfl, rfl, -⟩
    · simp
    · simp
  · rw [conditions, hk, hkey]
    exact ht.append hremaining
  · refine Request.nodup_atoms_of_derives (.cons hderives hderived) ?_
    -- Filter and key condition are numbered one after the other.
    have htokens := ((Condition.sequence_mapM hf).append (Condition.sequence_compile hg)).nodup
    rw [List.flatMap_append, List.nodup_append_comm] at htokens
    rw [hfilter, List.flatMap_cons]
    cases f with
    | none => simpa [Fragment.tokens] using htokens
    | some e => simpa [Fragment.tokens] using htokens

/-- **What a query asks for is what is sent.**

A query has a request if it has a key half, its further filter has a filter half, and all
halves compile.  The request has the key half as its key condition and the rest as its
filter, which is missing only where nothing else is asked for.  Both are read in one way, and
together they are true where all halves are: no predicate is missing, doubled or moved. -/
theorem request_spec {draft : SchemaDraft} (h : draft.build = .ok s) (q : QueryPartition) :
    ((∃ r, q.request s = .ok r) ↔
      q.query.key ≠ none ∧ (∀ f, q.filter = some f → f.filter ≠ none) ∧
        ∀ c ∈ q.conditions, c.Compiles) ∧
      ∀ r, q.request s = .ok r → q.Selects r :=
  ⟨exists_request_iff h, fun _ hr => selects_of_request hr⟩

/-- A query and a further filter with both halves, of which the filter halves are disjunctions:
these stay between parentheses, and the key half of the further filter is not a key condition. -/
theorem request_spec_disjunctions :
    let draft := (((SchemaDraft.new "table").declareKey "id" .unnamed).declareKey "at"
      .unnamed).declarePlain "a" (.named "A")
    let q : QueryPartition := {
      query := ⟨some (.compare (.path (.named "id")) .equal (.literal (.string "x"))),
        some (.or (.exists (.named "A")) (.exists (.named "b")))⟩
      filter := some ⟨some (.beginsWith (.named "at") (.literal (.string "y"))),
        some (.or (.notExists (.named "c")) (.exists (.named "d")))⟩ }
    ∃ s r, draft.build = .ok s ∧ q.request s = .ok r ∧
      r.keyCondition.map Symbol.render = some "#n9 = :v10" ∧
      r.filter.map Symbol.render =
        some ("(attribute_exists(#n3) OR attribute_exists(#n4)) AND (begins_with(#n5, :v6) AND " ++
          "(attribute_not_exists(#n7) OR attribute_exists(#n8)))") ∧
      q.Selects r := by
  intro draft q
  obtain ⟨s, hs⟩ : ∃ s, draft.build = .ok s := ⟨_, rfl⟩
  obtain ⟨r, hr⟩ : ∃ r, q.request s = .ok r := by
    cases hs
    exact ⟨_, rfl⟩
  refine ⟨s, r, hs, hr, ?_, ?_, (request_spec hs q).2 r hr⟩
  all_goals
    cases hs
    cases hr
    decide

end QueryPartition

end ItemStore
