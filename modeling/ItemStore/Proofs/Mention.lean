import ItemStore.Proofs.Piece

/-!
# What the placeholders of an expression stand for

Operands, conditions and projections mention names and literals.  Read from the left,
the text of a compiled tree has one placeholder for each of them, in the order of the
tree.  The placeholders are numbered from the counter on, each is bound to what it
stands for, and nothing else is bound.

## Main definitions

* `Mention` — a name or a literal; `Operand.mentions` and its neighbours read a tree.
* `Mention.IsBound` — the placeholder of a mention is bound to it.
* `Expression` — the trees whose placeholders stand in the order of the tree.

## Main results

* `Fragment.lists_of_assemble` — a row of pieces lists its mentions.
* `Expression.lists_of_runFrom` — a compiled tree lists its mentions.
-/

namespace ItemStore

open Compile (runFrom)

/-- What a placeholder stands for: the name of an attribute or of a field, or a literal. -/
inductive Mention
  | name (name : String)
  | literal (value : Value)

namespace Mention

/-- The symbol of a mention's placeholder. -/
def symbol : Mention → Nat → Symbol
  | name _, number => .name number
  | literal _, number => .value number

/-- The placeholder of a mention. -/
def token : Mention → Nat → String
  | name _, number => Symbol.nameToken number
  | literal _, number => Symbol.valueToken number

/-- The placeholder of a mention is bound to it: to the name, or to the wire form of the
literal. -/
def IsBound (names : Dict String String) (values : Item) : Mention → Nat → Prop
  | name s, number => names.get? (Symbol.nameToken number) = some s
  | literal v, number => ∃ w, v.encode = .ok w ∧ values.get? (Symbol.valueToken number) = some w

theorem spelling_symbol (x : Mention) (number : Nat) :
    (x.symbol number).spelling = x.token number := by
  cases x <;> rfl

end Mention

/-! ### Reading trees from the left -/

/-- What a step mentions. -/
def PathStep.mention? : PathStep → Option Mention
  | .field name => some (.name name)
  | .index _ => none

/-- What a reference mentions: the attribute's effective name and the fields. -/
def Reference.mentions (r : Reference) : List Mention :=
  r.name?.toList.map .name ++ r.path.filterMap PathStep.mention?

/-- What an operand mentions. -/
def Operand.mentions : Operand → List Mention
  | .path reference => reference.mentions
  | .literal value => [.literal value]
  | .size reference => reference.mentions
  | .arithmetic left _ right => left.mentions ++ right.mentions
  | .ifNotExists reference default => reference.mentions ++ default.mentions
  | .listAppend left right => left.mentions ++ right.mentions

/-- What a condition mentions; the code of a type is a literal. -/
def Condition.mentions : Condition → List Mention
  | .compare left _ right => left.mentions ++ right.mentions
  | .between operand low high => operand.mentions ++ low.mentions ++ high.mentions
  | .beginsWith reference lead => reference.mentions ++ lead.mentions
  | .contains reference operand => reference.mentions ++ operand.mentions
  | .exists reference => reference.mentions
  | .notExists reference => reference.mentions
  | .hasType reference type => reference.mentions ++ [.literal (.string type.code)]
  | .among operand candidates => operand.mentions ++ candidates.flatMap Operand.mentions
  | .joined _ left right => left.mentions ++ right.mentions

/-- What a projection mentions. -/
def Projection.mentions (p : Projection) : List Mention :=
  p.references.flatMap Reference.mentions

/-! ### Rows of pieces -/

namespace Piece

/-- What a piece mentions. -/
def mention? : Piece → Option Mention
  | sign .. => none
  | name n => some (.name n)
  | literal v => some (.literal v)
  | fault _ => none

/-- What a row of pieces mentions. -/
def mentions (ps : List Piece) : List Mention := ps.filterMap mention?

@[simp] theorem mentions_nil : mentions [] = [] := rfl

@[simp] theorem mentions_sign (s : Symbol) (hs : s.IsSign) (ps : List Piece) :
    mentions (sign s hs :: ps) = mentions ps := rfl

@[simp] theorem mentions_name (n : String) (ps : List Piece) :
    mentions (name n :: ps) = .name n :: mentions ps := rfl

@[simp] theorem mentions_literal (v : Value) (ps : List Piece) :
    mentions (literal v :: ps) = .literal v :: mentions ps := rfl

@[simp] theorem mentions_fault (e : Error) (ps : List Piece) :
    mentions (fault e :: ps) = mentions ps := rfl

@[simp] theorem mentions_append (ps qs : List Piece) :
    mentions (ps ++ qs) = mentions ps ++ mentions qs := List.filterMap_append

@[simp] theorem mentions_parenthesised (ps : List Piece) :
    mentions (parenthesised ps) = mentions ps := by
  simp [parenthesised]

@[simp] theorem mentions_intercalate (s : Symbol) (hs : s.IsSign) (rows : List (List Piece)) :
    mentions ([sign s hs].intercalate rows) = rows.flatMap mentions := by
  induction rows with
  | nil => rfl
  | cons ps rows ih =>
    cases rows with
    | nil => simp
    | cons qs rows =>
      rw [List.intercalate_cons_cons, mentions_append, mentions_append, ih]
      simp

@[simp] theorem mentions_call (function : FunctionName) (arguments : List (List Piece)) :
    mentions (call function arguments) = arguments.flatMap mentions := by
  simp [call]

end Piece

open Piece (mentions_append mentions_call mentions_sign)

@[simp] theorem Reference.mentions_pieces (r : Reference) :
    Piece.mentions r.pieces = r.mentions := by
  have hsteps : ∀ steps : List PathStep,
      Piece.mentions (steps.flatMap PathStep.pieces) = steps.filterMap PathStep.mention? := by
    intro steps
    induction steps with
    | nil => rfl
    | cons step steps ih =>
      rw [List.flatMap_cons, Piece.mentions_append, ih]
      cases step <;> rfl
  unfold Reference.pieces Reference.mentions Reference.head
  cases r.name? <;> simp [hsteps]

@[simp] theorem Operand.mentions_pieces (o : Operand) : Piece.mentions o.pieces = o.mentions := by
  induction o with
  | path r => exact r.mentions_pieces
  | literal v => rfl
  | size r => simp [Operand.pieces, Operand.mentions]
  | arithmetic left o right ihl ihr => simp [Operand.pieces, Operand.mentions, ihl, ihr]
  | ifNotExists r default ih => simp [Operand.pieces, Operand.mentions, ih]
  | listAppend left right ihl ihr => simp [Operand.pieces, Operand.mentions, ihl, ihr]

theorem Condition.mentions_nestedPieces (c : Condition) (ps : List Piece) :
    Piece.mentions (c.nestedPieces ps) = Piece.mentions ps := by
  unfold Condition.nestedPieces
  split
  · exact Piece.mentions_parenthesised ps
  · rfl

@[simp] theorem Condition.mentions_pieces (c : Condition) :
    Piece.mentions c.pieces = c.mentions := by
  induction c with
  | among operand candidates =>
    rw [Condition.pieces]
    split <;> simp [Condition.mentions, List.flatMap_map]
  | joined c left right ihl ihr =>
    simp [Condition.pieces, Condition.mentions, mentions_nestedPieces, ihl, ihr]
  | _ => simp [Condition.pieces, Condition.mentions]

@[simp] theorem Projection.mentions_pieces (p : Projection) :
    Piece.mentions p.pieces = p.mentions := by
  simp [Projection.pieces, Projection.mentions, List.flatMap_map]

/-! ### Numbered rows list their mentions -/

open ItemStore.Symbol

/-- A fragment has, from the left, the placeholders of some mentions, numbered from `n` on
and below `m`, and an entry for each. -/
structure Fragment.Lists (f : Fragment) (n : Nat) (ms : List Mention) (m : Nat) : Prop where
  symbols : f.symbols.filter isPlaceholder = (ms.zipIdx n).map fun x => x.1.symbol x.2
  /-- Each name has its entry. -/
  names : ∀ s k, (.name s, k) ∈ ms.zipIdx n → (k, s) ∈ f.names
  /-- Each literal has its entry. -/
  values : ∀ v k, (.literal v, k) ∈ ms.zipIdx n → ∃ w, v.encode = .ok w ∧ (k, w) ∈ f.values
  stop : m = n + ms.length

namespace Fragment

theorem Lists.beside {f g : Fragment} {n l m : Nat} {ms ks : List Mention}
    (hf : f.Lists n ms l) (hg : g.Lists l ks m) : (f.beside g).Lists n (ms ++ ks) m := by
  obtain rfl := hf.stop
  refine ⟨?_, ?_, ?_, ?_⟩
  · rw [symbols_beside, List.filter_append, hf.symbols, hg.symbols, List.zipIdx_append,
      List.map_append]
  · intro s k hmem
    rw [List.zipIdx_append] at hmem
    rcases List.mem_append.mp hmem with hmem | hmem
    · exact List.mem_append_left _ (hf.names s k hmem)
    · exact List.mem_append_right _ (hg.names s k hmem)
  · intro v k hmem
    rw [List.zipIdx_append] at hmem
    rcases List.mem_append.mp hmem with hmem | hmem
    · obtain ⟨w, hw, hentry⟩ := hf.values v k hmem
      exact ⟨w, hw, List.mem_append_left _ hentry⟩
    · obtain ⟨w, hw, hentry⟩ := hg.values v k hmem
      exact ⟨w, hw, List.mem_append_right _ hentry⟩
  · rw [hg.stop, List.length_append, Nat.add_assoc]

/-- A piece that can be numbered lists what it mentions. -/
theorem lists_of_compile {p : Piece} {n m : Nat} {f : Fragment}
    (h : runFrom p.compile n = (.ok f, m)) : f.Lists n (Piece.mentions [p]) m := by
  cases p with
  | sign s hs =>
    cases h
    have hsymbol : ¬ s.isPlaceholder = true := by simp [isPlaceholder, show s.token? = none from hs]
    exact ⟨by simp [symbol, hsymbol], by simp, by simp, rfl⟩
  | name k =>
    cases h
    exact ⟨rfl, by simp [Fragment.name], by simp, rfl⟩
  | literal v =>
    obtain ⟨w, hw, rfl, rfl⟩ := Compile.runFrom_value_eq_ok.mp h
    refine ⟨rfl, by simp, ?_, rfl⟩
    intro v' k hmem
    simp only [Piece.mentions_literal, Piece.mentions_nil, List.zipIdx_cons, List.zipIdx_nil,
      List.mem_singleton, Prod.mk.injEq, Mention.literal.injEq] at hmem
    obtain ⟨rfl, rfl⟩ := hmem
    exact ⟨w, hw, List.mem_singleton_self _⟩
  | fault e => cases h

/-- A row that can be numbered lists what it mentions. -/
theorem lists_of_assemble {ps : List Piece} {n m : Nat} {f : Fragment}
    (h : runFrom (Piece.assemble ps) n = (.ok f, m)) : f.Lists n (Piece.mentions ps) m := by
  induction ps generalizing n f with
  | nil =>
    cases h
    exact ⟨rfl, by simp, by simp, rfl⟩
  | cons p ps ih =>
    obtain ⟨g, l, hg, hrest⟩ := Compile.runFrom_bind_eq_ok.mp h
    obtain ⟨k, l', hk, hpure⟩ := Compile.runFrom_bind_eq_ok.mp hrest
    cases hpure
    rw [← List.singleton_append, Piece.mentions_append]
    exact (lists_of_compile hg).beside (ih hk)

end Fragment

/-! ### Operands, conditions and projections -/

/-- A tree whose placeholders stand in the order in which they are drawn. -/
inductive Expression
  | operand (o : Operand)
  | condition (c : Condition)
  | projection (p : Projection)

namespace Expression

/-- The expression of a tree. -/
def compile : Expression → Compile Fragment
  | operand o => o.compile
  | condition c => c.compile
  | projection p => p.compile

/-- What a tree mentions, from the left. -/
def mentions : Expression → List Mention
  | operand o => o.mentions
  | condition c => c.mentions
  | projection p => p.mentions

variable {e : Expression} {n m : Nat} {f : Fragment}

theorem exists_pieces (e : Expression) :
    ∃ ps, e.compile = Piece.assemble ps ∧ Piece.mentions ps = e.mentions := by
  cases e with
  | operand o => exact ⟨_, o.compile_eq_assemble, o.mentions_pieces⟩
  | condition c => exact ⟨_, c.compile_eq_assemble, c.mentions_pieces⟩
  | projection p => exact ⟨_, p.compile_eq_assemble, p.mentions_pieces⟩

theorem numbered_of_runFrom (h : runFrom e.compile n = (.ok f, m)) : f.Numbered n m := by
  obtain ⟨ps, hps, -⟩ := e.exists_pieces
  rw [hps] at h
  exact Piece.numbered_of_assemble h

theorem spaced_of_runFrom (h : runFrom e.compile n = (.ok f, m)) : f.Spaced := by
  cases e with
  | operand o => exact (Operand.compiled_iff.mp h).spaced
  | condition c => exact (Condition.compiled_iff.mp h).spaced
  | projection p => exact Projection.spaced_of_runFrom h

/-- A compiled tree lists what it mentions: the placeholders in its text are those of the
mentions, in the order of the tree and numbered from the counter on; each is bound to what
it stands for, nothing else is bound, and the counter goes on by their number. -/
theorem lists_of_runFrom (h : runFrom e.compile n = (.ok f, m)) :
    placeholders f.text = (e.mentions.zipIdx n).map (fun x => x.1.token x.2) ∧
      (∀ x ∈ e.mentions.zipIdx n,
        x.1.IsBound (Fragment.writtenNames f.names) (Fragment.writtenValues f.values) x.2) ∧
      Dict.keys (Fragment.writtenNames f.names) = namePlaceholders f.text ∧
      Dict.keys (Fragment.writtenValues f.values) = valuePlaceholders f.text ∧
      m = n + (placeholders f.text).length := by
  have hspaced := spaced_of_runFrom h
  obtain ⟨ps, hps, hmentions⟩ := e.exists_pieces
  rw [hps] at h
  have hlists := Fragment.lists_of_assemble h
  have hnumbered := Piece.numbered_of_assemble h
  rw [hmentions] at hlists
  have htext : placeholders f.text = (e.mentions.zipIdx n).map fun x => x.1.token x.2 := by
    rw [Fragment.text, placeholders_render hspaced, hlists.symbols, List.map_map]
    simp only [Function.comp_def, Mention.spelling_symbol]
  have htokens : f.tokens.Nodup := by
    rw [hnumbered.tokens]
    exact List.nodup_range'
  refine ⟨htext, ?_, ?_, ?_, ?_⟩
  · rintro ⟨x, k⟩ hmem
    cases x with
    | name s => exact hnumbered.bound.written_name htokens (hlists.names s k hmem)
    | literal v =>
      obtain ⟨w, hw, hentry⟩ := hlists.values v k hmem
      exact ⟨w, hw, hnumbered.bound.written_value htokens hentry⟩
  · rw [Fragment.keys_writtenNames, hnumbered.bound.names]
    exact (namePlaceholders_render hspaced).symm
  · rw [Fragment.keys_writtenValues, hnumbered.bound.values]
    exact (valuePlaceholders_render hspaced).symm
  · rw [htext, List.length_map, List.length_zipIdx]
    exact hlists.stop

/-- A range, compiled from the counter 7: the path has a field and a position. -/
theorem lists_of_runFrom_between :
    let e := condition (.between (.path ⟨some "a", none, [.field "b", .index 2]⟩)
      (.literal (.string "x")) (.path (.named "c")))
    let f : Fragment :=
      ⟨[.name 7, .dot, .name 8, .index 2, .between, .value 9, .connective .and, .name 10],
        [(7, "a"), (8, "b"), (10, "c")], [(9, .string "x")]⟩
    runFrom e.compile 7 = (.ok f, 11) ∧ f.text = "#n7.#n8[2] BETWEEN :v9 AND #n10" ∧
      placeholders f.text = ["#n7", "#n8", ":v9", "#n10"] := by
  intro e f
  have hrun : runFrom e.compile 7 = (.ok f, 11) := rfl
  exact ⟨hrun, by decide, (lists_of_runFrom hrun).1.trans (by decide)⟩

end Expression

end ItemStore
