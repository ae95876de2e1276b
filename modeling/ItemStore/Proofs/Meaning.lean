import Mathlib.Data.List.Forall2
import ItemStore.Proofs.Mention

/-!
# What an update says

The placeholders of a compiled expression are resolved through the names and the values
that are sent with it.  What is left says what the tree says, and the counter from which
it was numbered no longer shows.  An update says its clauses in a fixed order and within a
clause its actions in the order of the tree, so trees with the same actions in each clause
say the same.

## Main definitions

* `Meaning` — a symbol, or what its placeholder stands for.
* `Fragment.meaning` — the symbols of a fragment, resolved through what is sent with it.
* `Piece.meaning` — what a piece says, before it is numbered.
* `Piece.Matches` — symbols say what pieces say, resolved through what is sent.
* `Piece.Sends` — what is sent has the entries of a fragment.

## Main results

* `Piece.matches_of_assemble` — a numbered row says what its pieces say.
* `Update.meaning_of_runFrom` — so does an update; its tree does not matter beyond the
  actions of each clause.
-/

namespace ItemStore

open Compile (runFrom Each)

/-! ### Resolving placeholders -/

/-- A symbol, or what its placeholder stands for. -/
inductive Meaning
  | sign (s : Symbol)
  | name (name : String)
  | value (wire : Wire)

/-- A symbol, its placeholder looked up in what is sent. -/
def Symbol.resolve (names : Dict String String) (values : Item) : Symbol → Option Meaning
  | .name number => (names.get? (nameToken number)).map .name
  | .value number => (values.get? (valueToken number)).map .value
  | s => some (.sign s)

/-- The symbols of a fragment, resolved through what is sent with it. -/
def Fragment.meaning (f : Fragment) : Option (List Meaning) :=
  f.symbols.mapM (Symbol.resolve (writtenNames f.names) (writtenValues f.values))

namespace Piece

/-- What a piece says. -/
def meaning : Piece → Except Error Meaning
  | sign s _ => .ok (.sign s)
  | name n => .ok (.name n)
  | literal v => v.encode.map .value
  | fault e => .error e

/-- The symbols say what the pieces say. -/
def Matches (names : Dict String String) (values : Item) (ps : List Piece)
    (row : List Symbol) : Prop :=
  ∃ ms, ps.mapM meaning = .ok ms ∧ row.mapM (Symbol.resolve names values) = some ms

section Matches

variable {names : Dict String String} {values : Item}

theorem matches_nil : Matches names values [] [] := ⟨[], rfl, rfl⟩

theorem Matches.append {ps qs : List Piece} {row row' : List Symbol}
    (h : Matches names values ps row) (h' : Matches names values qs row') :
    Matches names values (ps ++ qs) (row ++ row') := by
  obtain ⟨ms, hms, hrow⟩ := h
  obtain ⟨ks, hks, hrow'⟩ := h'
  refine ⟨ms ++ ks, ?_, ?_⟩
  · rw [List.mapM_append, hms, hks]
    rfl
  · rw [List.mapM_append, hrow, hrow']
    rfl

theorem matches_sign (s : Symbol) (hs : s.IsSign) : Matches names values [sign s hs] [s] := by
  refine ⟨[.sign s], rfl, ?_⟩
  cases s with
  | name number => cases hs
  | value number => cases hs
  | _ => rfl

theorem Matches.cons_sign {s : Symbol} {ps : List Piece} {row : List Symbol}
    (h : Matches names values ps row) (hs : s.IsSign) :
    Matches names values (sign s hs :: ps) (s :: row) :=
  (matches_sign s hs).append h

/-- Rows one after the other, with a sign between them. -/
theorem matches_intercalate {s : Symbol} (hs : s.IsSign) {pieces : List (List Piece)}
    {rows : List (List Symbol)} (h : List.Forall₂ (Matches names values) pieces rows) :
    Matches names values ([sign s hs].intercalate pieces) ([s].intercalate rows) := by
  induction h with
  | nil => exact matches_nil
  | @cons ps row pieces rows hrow hrows ih =>
    cases hrows with
    | nil => simpa using hrow
    | cons _ _ =>
      rw [List.intercalate_cons_cons, List.intercalate_cons_cons]
      exact (hrow.append (matches_sign s hs)).append ih

end Matches

/-- What is sent has the entries of a fragment. -/
structure Sends (names : Dict String String) (values : Item) (f : Fragment) : Prop where
  names : ∀ k s, (k, s) ∈ f.names → names.get? (Symbol.nameToken k) = some s
  values : ∀ k w, (k, w) ∈ f.values → values.get? (Symbol.valueToken k) = some w

section Sends

variable {names : Dict String String} {values : Item} {f g : Fragment} {n l m : Nat}

/-- What is sent with a fragment has its entries. -/
theorem sends_of_drawn (hf : f.Drawn n m) :
    Sends (Fragment.writtenNames f.names) (Fragment.writtenValues f.values) f := by
  have htokens : f.tokens.Nodup := hf.tokens.nodup_iff.mpr List.nodup_range'
  constructor
  · intro k s hmem
    exact hf.bound.written_name htokens hmem
  · intro k w hmem
    exact hf.bound.written_value htokens hmem

theorem Sends.mono (h : Sends names values f) (hnames : g.names ⊆ f.names)
    (hvalues : g.values ⊆ f.values) : Sends names values g :=
  ⟨fun k s hk => h.names k s (hnames hk), fun k w hk => h.values k w (hvalues hk)⟩

theorem sends_append (hf : f.Numbered n l) (hg : g.Numbered l m) :
    Sends names values (f ++ g) ↔ Sends names values f ∧ Sends names values g := by
  rw [hf.append_eq_beside hg]
  constructor
  · intro h
    exact ⟨h.mono (List.subset_append_left _ _) (List.subset_append_left _ _),
      h.mono (List.subset_append_right _ _) (List.subset_append_right _ _)⟩
  · rintro ⟨hleft, hright⟩
    constructor
    · intro k s hk
      exact (List.mem_append.mp hk).elim (hleft.names k s) (hright.names k s)
    · intro k w hk
      exact (List.mem_append.mp hk).elim (hleft.values k w) (hright.values k w)

/-- Parentheses bind nothing. -/
theorem Sends.of_nested {c : Condition} (hf : f.Numbered n m)
    (h : Sends names values (c.nested f)) : Sends names values f := by
  unfold Condition.nested at h
  split at h
  · rw [Fragment.parenthesised] at h
    have hopening : (Fragment.symbol .opening).Numbered n n := Fragment.numbered_symbol n
    have hleft := ((sends_append (hopening.append hf) (Fragment.numbered_symbol m)).mp h).1
    exact ((sends_append hopening hf).mp hleft).2
  · exact h

/-- A connective binds nothing. -/
theorem Sends.of_joined {left right : Condition} {connective : Connective} (hf : f.Numbered n l)
    (hg : g.Numbered l m) (h : Sends names values
      (left.nested f ++ .symbol (.connective connective) ++ right.nested g)) :
    Sends names values f ∧ Sends names values g := by
  have hleft := Condition.numbered_nested hf left
  have hright := Condition.numbered_nested hg right
  have hsign : (Fragment.symbol (.connective connective)).Numbered l l :=
    Fragment.numbered_symbol l
  obtain ⟨hboth, hsendsg⟩ := (sends_append (hleft.append hsign) hright).mp h
  have hsendsf := ((sends_append hleft hsign).mp hboth).1
  exact ⟨hsendsf.of_nested hf, hsendsg.of_nested hg⟩

end Sends

/-- A row that can be numbered says what its pieces say. -/
theorem matches_of_assemble {ps : List Piece} {n m : Nat} {f : Fragment}
    (h : runFrom (assemble ps) n = (.ok f, m)) {names : Dict String String} {values : Item}
    (hsends : Sends names values f) : Matches names values ps f.symbols := by
  induction ps generalizing n f with
  | nil =>
    cases h
    exact matches_nil
  | cons p ps ih =>
    obtain ⟨g, l, hg, hrest⟩ := Compile.runFrom_bind_eq_ok.mp h
    obtain ⟨k, l', hk, hpure⟩ := Compile.runFrom_bind_eq_ok.mp hrest
    cases hpure
    have hrow : Matches names values ps k.symbols :=
      ih hk (hsends.mono (List.subset_append_right _ _) (List.subset_append_right _ _))
    cases p with
    | sign s hs =>
      cases hg
      exact hrow.cons_sign hs
    | name s =>
      cases hg
      have hname := hsends.names n s (List.mem_cons_self ..)
      have hhead : Matches names values [name s] [.name n] :=
        ⟨[.name s], rfl, by simp [Symbol.resolve, hname]⟩
      exact hhead.append hrow
    | literal v =>
      obtain ⟨w, hw, rfl, rfl⟩ := Compile.runFrom_value_eq_ok.mp hg
      have hvalue := hsends.values n w (List.mem_cons_self ..)
      have hhead : Matches names values [literal v] [.value n] := by
        refine ⟨[.value w], ?_, by simp [Symbol.resolve, hvalue]⟩
        rw [List.mapM_cons, List.mapM_nil, meaning, hw]
        rfl
      exact hhead.append hrow
    | fault e => cases hg

/-- A row whose pieces say something can be numbered from any counter. -/
theorem exists_runFrom_assemble {ps : List Piece} {ms : List Meaning}
    (h : ps.mapM meaning = .ok ms) (n : Nat) : ∃ f m, runFrom (assemble ps) n = (.ok f, m) := by
  induction ps generalizing ms n with
  | nil => exact ⟨.empty, n, rfl⟩
  | cons p ps ih =>
    rw [List.mapM_cons] at h
    obtain ⟨x, hx, h⟩ := bind_eq_ok.mp h
    obtain ⟨xs, hxs, -⟩ := bind_eq_ok.mp h
    obtain ⟨g, l, hg⟩ : ∃ g l, runFrom p.compile n = (.ok g, l) := by
      cases p with
      | sign s hs => exact ⟨_, _, rfl⟩
      | name s => exact ⟨_, _, rfl⟩
      | literal v =>
        obtain ⟨w, hw, -⟩ := map_eq_ok.mp hx
        exact ⟨_, _, Compile.runFrom_value_eq_ok.mpr ⟨w, hw, rfl, rfl⟩⟩
      | fault e => cases hx
    obtain ⟨k, m, hk⟩ := ih hxs l
    refine ⟨g.beside k, m, Compile.runFrom_bind_eq_ok.mpr ⟨g, l, hg, ?_⟩⟩
    exact Compile.runFrom_bind_eq_ok.mpr ⟨k, m, hk, rfl⟩

end Piece

/-! ### Updates -/

namespace Update

/-- Trees with the same actions in each clause have the same pieces. -/
theorem pieces_congr {u v : Update} (h : ∀ c, u.actionsOf c = v.actionsOf c) :
    u.pieces = v.pieces := by
  have hclause : u.clausePieces = v.clausePieces := by
    funext c
    simp only [clausePieces, h]
  simp only [pieces, clauses, h, hclause]

/-- An action of one of two such trees is one of the other. -/
theorem mem_actions_of_actionsOf_eq {u v : Update} (h : ∀ c, u.actionsOf c = v.actionsOf c)
    {a : UpdateAction} (ha : a ∈ u.actions) : a ∈ v.actions := by
  have hclause : a ∈ u.actionsOf a.clause := List.mem_filter.mpr ⟨ha, by simp⟩
  rw [h] at hclause
  exact List.mem_of_mem_filter hclause

/-- The symbols of an update, clause by clause. -/
theorem symbols_grouped (compiled : List (Clause × Fragment)) :
    (grouped compiled).symbols =
      [.space].intercalate ((Clause.all.filter fun c =>
        !(compiled.filter fun entry => entry.1 = c).isEmpty).map fun c =>
          .clause c :: .space ::
            [.comma].intercalate ((compiled.filter fun entry => entry.1 = c).map
              fun entry => entry.2.symbols)) := by
  have hclauses : ∀ cs : List Clause, (cs.filterMap (clauseOf compiled)).map Fragment.symbols =
      (cs.filter fun c => !(compiled.filter fun entry => entry.1 = c).isEmpty).map fun c =>
        .clause c :: .space ::
          [.comma].intercalate ((compiled.filter fun entry => entry.1 = c).map
            fun entry => entry.2.symbols) := by
    intro cs
    induction cs with
    | nil => rfl
    | cons c cs ih =>
      rw [List.filterMap_cons, clauseOf_eq]
      cases hempty : (compiled.filter fun entry => entry.1 = c).isEmpty with
      | true => simpa [hempty] using ih
      | false =>
        simp only [Bool.false_eq_true, if_false, List.map_cons, ih, List.filter_cons, hempty,
          Bool.not_false, if_true, Fragment.symbols_append, Fragment.symbols_join, List.map_map]
        rfl
  rw [grouped, Fragment.symbols_join, hclauses]

section Entries

variable {compiled : List (Clause × Fragment)} (hbound : ∀ entry ∈ compiled, entry.2.Bound)
include hbound

/-- A clause binds what its actions bind. -/
theorem entries_clauseOf {c : Clause} {f : Fragment} (hf : clauseOf compiled c = some f)
    (hnodup : f.tokens.Nodup) :
    f.names = (compiled.filter fun entry => entry.1 = c).flatMap (fun entry => entry.2.names) ∧
      f.values =
        (compiled.filter fun entry => entry.1 = c).flatMap fun entry => entry.2.values := by
  rw [clauseOf_eq] at hf
  split at hf
  · cases hf
  · cases hf
    have hactions : ∀ g ∈ (compiled.filter fun entry => entry.1 = c).map Prod.snd, g.Bound := by
      intro g hg
      obtain ⟨entry, hentry, rfl⟩ := List.mem_map.mp hg
      exact hbound entry (List.mem_of_mem_filter hentry)
    have hword : (Fragment.symbol (.clause c) ++ Fragment.symbol .space).Bound :=
      Fragment.Bound.append Fragment.bound_symbol Fragment.bound_symbol List.nodup_nil
    have hdistinct := hnodup
    rw [Fragment.tokens_append] at hdistinct
    have hrow := hdistinct.of_append_right
    rw [Fragment.tokens_join] at hrow
    have hjoin : (Fragment.join .comma _).Bound := Fragment.join_bound hactions hrow
    rw [hword.names_append hjoin hdistinct, hword.values_append hjoin hdistinct,
      Fragment.join_eq hactions hrow]
    simp only [List.flatMap_map]
    exact ⟨rfl, rfl⟩

/-- An update binds what its actions bind. -/
theorem subset_grouped (hnodup : (grouped compiled).tokens.Nodup) {entry : Clause × Fragment}
    (hentry : entry ∈ compiled) :
    entry.2.names ⊆ (grouped compiled).names ∧ entry.2.values ⊆ (grouped compiled).values := by
  have hdistinct : ((Clause.all.filterMap (clauseOf compiled)).flatMap Fragment.tokens).Nodup := by
    rwa [grouped, Fragment.tokens_join] at hnodup
  have hclauses : ∀ g ∈ Clause.all.filterMap (clauseOf compiled), g.Bound := by
    intro g hg
    obtain ⟨c, -, hc⟩ := List.mem_filterMap.mp hg
    exact bound_clauseOf hc hbound ((List.nodup_flatMap.mp hdistinct).1 g hg)
  have hown : entry ∈ compiled.filter fun e => e.1 = entry.1 :=
    List.mem_filter.mpr ⟨hentry, by simp⟩
  obtain ⟨f, hf⟩ : ∃ f, clauseOf compiled entry.1 = some f := by
    rw [clauseOf_eq, if_neg]
    · exact ⟨_, rfl⟩
    · intro hempty
      rw [List.isEmpty_iff.mp hempty] at hown
      cases hown
  have hmem : f ∈ Clause.all.filterMap (clauseOf compiled) :=
    List.mem_filterMap.mpr ⟨entry.1, by cases entry.1 <;> decide, hf⟩
  obtain ⟨hnames, hvalues⟩ :=
    entries_clauseOf hbound hf ((List.nodup_flatMap.mp hdistinct).1 f hmem)
  rw [grouped, Fragment.join_eq hclauses hdistinct]
  constructor
  · intro e he
    refine List.mem_flatMap.mpr ⟨f, hmem, ?_⟩
    rw [hnames]
    exact List.mem_flatMap.mpr ⟨entry, hown, he⟩
  · intro e he
    refine List.mem_flatMap.mpr ⟨f, hmem, ?_⟩
    rw [hvalues]
    exact List.mem_flatMap.mpr ⟨entry, hown, he⟩

end Entries

/-- Each compiled action says what its pieces say. -/
theorem matches_of_each {names : Dict String String} {values : Item}
    {actions : List UpdateAction} {compiled : List (Clause × Fragment)} {n m : Nat}
    (h : Each (fun a n (entry : Clause × Fragment) m =>
      entry.1 = a.clause ∧ a.Compiled n entry.2 m) actions n compiled m)
    (hsends : ∀ entry ∈ compiled, Piece.Sends names values entry.2) :
    List.Forall₂ (fun a entry => entry.1 = a.clause ∧
      Piece.Matches names values a.pieces entry.2.symbols) actions compiled := by
  induction h with
  | nil => exact .nil
  | cons ha _ ih =>
    obtain ⟨hown, hrest⟩ := List.forall_mem_cons.mp hsends
    have hrun := UpdateAction.compiled_iff.mpr ha.2
    rw [UpdateAction.compile_eq_assemble] at hrun
    exact .cons ⟨ha.1, Piece.matches_of_assemble hrun hown⟩ (ih hrest)

/-- What the actions of a compiled update compile to says what their pieces say, resolved
through what is sent with the update. -/
theorem rows_of_runFrom {u : Update} {n m : Nat} {f : Fragment}
    (h : runFrom u.compile n = (.ok f, m)) :
    ∃ compiled, f = grouped compiled ∧
      List.Forall₂ (fun a entry => entry.1 = a.clause ∧
        Piece.Matches (Fragment.writtenNames f.names) (Fragment.writtenValues f.values) a.pieces
          entry.2.symbols) u.actions compiled := by
  have hdrawn := drawn_of_runFrom h
  obtain ⟨compiled, hactions, rfl⟩ := runFrom_compile_eq_ok.mp h
  have hnodup : (grouped compiled).tokens.Nodup := hdrawn.tokens.nodup_iff.mpr List.nodup_range'
  have hbound : ∀ entry ∈ compiled, entry.2.Bound :=
    hactions.forall_mem fun _ _ _ _ ha => ha.2.numbered.bound
  refine ⟨compiled, rfl, matches_of_each hactions ?_⟩
  intro entry hentry
  obtain ⟨hnames, hvalues⟩ := subset_grouped hbound hnodup hentry
  exact (Piece.sends_of_drawn hdrawn).mono hnames hvalues

/-- A compiled update says what its pieces say. -/
theorem matches_of_runFrom {u : Update} {n m : Nat} {f : Fragment}
    (h : runFrom u.compile n = (.ok f, m)) :
    Piece.Matches (Fragment.writtenNames f.names) (Fragment.writtenValues f.values) u.pieces
      f.symbols := by
  obtain ⟨compiled, hf, hrows⟩ := rows_of_runFrom h
  -- Clause by clause, the actions are related to what they compile to.
  have hclause := fun c => List.rel_filter (p := fun a : UpdateAction => decide (a.clause = c))
    (q := fun entry : Clause × Fragment => decide (entry.1 = c))
    (fun a entry ha => by simp [ha.1]) hrows
  have hclauses : u.clauses =
      Clause.all.filter fun c => !(compiled.filter fun entry => entry.1 = c).isEmpty := by
    refine List.filter_congr fun c _ => ?_
    have hempty : (u.actionsOf c).isEmpty =
        (compiled.filter fun entry => entry.1 = c).isEmpty := by
      rw [Bool.eq_iff_iff, List.isEmpty_iff_length_eq_zero, List.isEmpty_iff_length_eq_zero,
        actionsOf, (hclause c).length_eq]
    rw [hempty]
  rw [pieces, congrArg Fragment.symbols hf, symbols_grouped, hclauses]
  refine Piece.matches_intercalate _ ?_
  rw [List.forall₂_map_left_iff, List.forall₂_map_right_iff, List.forall₂_same]
  intro c _
  refine Piece.Matches.cons_sign (Piece.Matches.cons_sign (Piece.matches_intercalate _ ?_) _) _
  rw [List.forall₂_map_left_iff, List.forall₂_map_right_iff]
  exact (hclause c).imp fun a entry ha => ha.2

/-- The actions of a compiled update say something. -/
theorem exists_meaning_of_runFrom {u : Update} {n m : Nat} {f : Fragment}
    (h : runFrom u.compile n = (.ok f, m)) :
    ∀ a ∈ u.actions, ∃ ms, a.pieces.mapM Piece.meaning = .ok ms := by
  obtain ⟨compiled, -, hrows⟩ := rows_of_runFrom h
  generalize u.actions = actions at hrows
  induction hrows with
  | nil => simp
  | cons ha _ ih =>
    obtain ⟨-, ms, hms, -⟩ := ha
    exact List.forall_mem_cons.mpr ⟨⟨ms, hms⟩, ih⟩

/-- An update whose actions say something compiles from any counter. -/
theorem exists_runFrom {u : Update}
    (h : ∀ a ∈ u.actions, ∃ ms, a.pieces.mapM Piece.meaning = .ok ms) (n : Nat) :
    ∃ f m, runFrom u.compile n = (.ok f, m) := by
  have hactions : ∀ a ∈ u.actions, ∀ n, ∃ entry m,
      runFrom (do return (a.clause, ← a.compile)) n = (.ok entry, m) := by
    intro a ha n
    obtain ⟨ms, hms⟩ := h a ha
    obtain ⟨f, m, hf⟩ := Piece.exists_runFrom_assemble hms n
    rw [← UpdateAction.compile_eq_assemble] at hf
    exact ⟨(a.clause, f), m, Compile.runFrom_bind_eq_ok.mpr ⟨f, m, hf, rfl⟩⟩
  obtain ⟨compiled, m, hcompiled⟩ := Compile.exists_runFrom_mapM hactions n
  rw [compile_eq_mapM]
  exact ⟨grouped compiled, m, Compile.runFrom_bind_eq_ok.mpr ⟨compiled, m, hcompiled, rfl⟩⟩

/-- What a compiled update says, and what that depends on. -/
theorem meaning_of_runFrom {u : Update} {n m : Nat} {f : Fragment}
    (h : runFrom u.compile n = (.ok f, m)) :
    (∃ row, u.pieces.mapM Piece.meaning = .ok row ∧ f.meaning = some row) ∧
      Symbol.scan f.text = some (f.symbols.filter (· ≠ .space)) ∧
      (∀ v : Update, v.actions = u.actions → runFrom v.compile n = (.ok f, m)) ∧
      ∀ v : Update, (∀ c, v.actionsOf c = u.actionsOf c) →
        ∀ k, ∃ g l, runFrom v.compile k = (.ok g, l) ∧ g.meaning = f.meaning := by
  refine ⟨matches_of_runFrom h, Symbol.scan_render (spaced_of_runFrom h), ?_, ?_⟩
  · intro v hv
    rw [← h, compile_eq_mapM, compile_eq_mapM, hv]
  · intro v hv k
    obtain ⟨row, hrow, hmeaning⟩ := matches_of_runFrom h
    have hactions : ∀ a ∈ v.actions, ∃ ms, a.pieces.mapM Piece.meaning = .ok ms := by
      intro a ha
      exact exists_meaning_of_runFrom h a (mem_actions_of_actionsOf_eq hv ha)
    obtain ⟨g, l, hg⟩ := exists_runFrom hactions k
    obtain ⟨row', hrow', hmeaning'⟩ := matches_of_runFrom hg
    rw [pieces_congr hv, hrow] at hrow'
    cases hrow'
    exact ⟨g, l, hg, hmeaning'.trans hmeaning.symm⟩

/-- Two removals around an assignment, and the same actions with the assignment first. -/
theorem meaning_of_runFrom_interleaved :
    let a : Update := .action (.remove (.named "a"))
    let b : Update := .action (.set (.named "b") (.literal (.bool true)))
    let c : Update := .action (.remove (.named "c"))
    let f : Fragment :=
      ⟨[.clause .set, .space, .name 1, .comparator .equal, .value 2, .space,
          .clause .remove, .space, .name 0, .comma, .name 3],
        [(1, "b"), (0, "a"), (3, "c")], [(2, .bool true)]⟩
    runFrom (both a (both b c)).compile 0 = (.ok f, 4) ∧
      f.text = "SET #n1 = :v2 REMOVE #n0, #n3" ∧
      f.meaning = some [.sign (.clause .set), .sign .space, .name "b", .sign (.comparator .equal),
        .value (.bool true), .sign .space, .sign (.clause .remove), .sign .space, .name "a",
        .sign .comma, .name "c"] ∧
      ∃ g l, runFrom (both b (both a c)).compile 7 = (.ok g, l) ∧ g.meaning = f.meaning := by
  intro a b c f
  have hrun : runFrom (both a (both b c)).compile 0 = (.ok f, 4) := rfl
  obtain ⟨⟨row, hrow, hmeaning⟩, -, -, hclauses⟩ := meaning_of_runFrom hrun
  refine ⟨hrun, by decide, ?_, hclauses _ ?_ 7⟩
  · rw [hmeaning]
    cases hrow
    rfl
  · intro clause
    cases clause <;> rfl

end Update

end ItemStore
