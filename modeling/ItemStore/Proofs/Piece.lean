import ItemStore.Proofs.Lexeme

/-!
# Expressions before they are numbered

Read from the left, a tree is a row of pieces: signs, names and literals, and a fault
where it has no expression.  Compiling the tree is going through the row.  A name and a
literal draw the next number, a sign stands for itself, and at a fault the run ends and
keeps the numbers it has drawn.  What is true of numbered rows is then proved once, by
induction on the row, and holds of operands, conditions, actions and projections alike.

## Main definitions

* `Piece` — a sign, a name, a literal or a fault.
* `Piece.assemble` — going through a row of pieces.
* `Operand.pieces`, `Condition.pieces` and their neighbours — the rows of trees; the row of an
  update, `Update.pieces`, has its actions clause by clause.

## Main results

* `Piece.numbered_of_assemble` — a row that can be numbered carries the numbers that
  were drawn, from the left.
* `Operand.compile_eq_assemble`, `Condition.compile_eq_assemble` and their neighbours —
  compiling is going through the pieces, in every run and also where it fails.
-/

namespace ItemStore

open Compile (runFrom)

/-! ### Fragments side by side -/

namespace Fragment

open ItemStore.Symbol

/-- Two fragments side by side, with all that either of them binds. -/
def beside (f g : Fragment) : Fragment :=
  ⟨f.symbols ++ g.symbols, f.names ++ g.names, f.values ++ g.values⟩

@[simp] theorem symbols_beside (f g : Fragment) :
    (f.beside g).symbols = f.symbols ++ g.symbols := rfl

@[simp] theorem names_beside (f g : Fragment) : (f.beside g).names = f.names ++ g.names := rfl

@[simp] theorem values_beside (f g : Fragment) : (f.beside g).values = f.values ++ g.values := rfl

@[simp] theorem empty_beside (f : Fragment) : empty.beside f = f := rfl

@[simp] theorem beside_empty (f : Fragment) : f.beside empty = f := by
  simp [beside, empty]

@[simp] theorem beside_assoc (f g h : Fragment) :
    (f.beside g).beside h = f.beside (g.beside h) := by
  simp [beside]

/-- Fragments that are numbered one after the other overwrite nothing of each other. -/
theorem Numbered.append_eq_beside {f g : Fragment} {n l m : Nat} (hf : f.Numbered n l)
    (hg : g.Numbered l m) : f ++ g = f.beside g := by
  have hdistinct : (f.tokens ++ g.tokens).Nodup := by
    rw [hf.tokens, hg.tokens, range'_append_sub hf.le hg.le]
    exact List.nodup_range'
  have hnames := hf.bound.names_append hg.bound hdistinct
  have hvalues := hf.bound.values_append hg.bound hdistinct
  show (⟨f.symbols ++ g.symbols, (f ++ g).names, (f ++ g).values⟩ : Fragment) = f.beside g
  rw [hnames, hvalues]
  rfl

theorem Numbered.beside {f g : Fragment} {n l m : Nat} (hf : f.Numbered n l)
    (hg : g.Numbered l m) : (f.beside g).Numbered n m :=
  hf.append_eq_beside hg ▸ hf.append hg

theorem Numbered.separated_eq {f g : Fragment} {s : Symbol} {n l m : Nat} (hf : f.Numbered n l)
    (hg : g.Numbered l m) (hs : s.IsSign := by exact rfl) :
    f ++ symbol s ++ g = f.beside ((symbol s).beside g) := by
  have hsign := numbered_symbol l hs
  rw [(hf.append hsign).append_eq_beside hg, hf.append_eq_beside hsign, beside_assoc]

theorem Numbered.parenthesised_eq {f : Fragment} {n m : Nat} (hf : f.Numbered n m) :
    f.parenthesised = (symbol .opening).beside (f.beside (symbol .closing)) := by
  have hopening : (symbol .opening).Numbered n n := numbered_symbol n
  rw [Fragment.parenthesised, (hopening.append hf).append_eq_beside (numbered_symbol m),
    hopening.append_eq_beside hf, beside_assoc]

theorem Numbered.call_one_eq {f : Fragment} {n m : Nat} (hf : f.Numbered n m)
    (function : FunctionName) :
    call function [f] = (symbol (.function function)).beside f.parenthesised :=
  (numbered_symbol n).append_eq_beside hf.parenthesised

theorem Numbered.call_two_eq {f g : Fragment} {n l m : Nat} (hf : f.Numbered n l)
    (hg : g.Numbered l m) (function : FunctionName) :
    call function [f, g] =
      (symbol (.function function)).beside (f ++ symbol .comma ++ g).parenthesised :=
  (numbered_symbol n).append_eq_beside (hf.separated hg).parenthesised

end Fragment

/-! ### Rows of pieces -/

theorem Symbol.IsSign.of_token? {s : Symbol} (h : s.token? = none) : s.IsSign := h

/-- A piece of an expression before it is numbered. -/
inductive Piece
  /-- A symbol that is no placeholder. -/
  | sign (s : Symbol) (isSign : s.IsSign := by exact .of_token? rfl)
  /-- The name of an attribute or of a field. -/
  | name (name : String)
  | literal (value : Value)
  /-- A place at which there is no expression. -/
  | fault (error : Error)

namespace Piece

open Fragment

/-- The run of one piece. -/
def compile : Piece → Compile Fragment
  | sign s _ => return .symbol s
  | name n => Compile.name n
  | literal v => Compile.value v.encode
  | fault e => throw e

/-- Going through a row of pieces from the left. -/
def assemble : List Piece → Compile Fragment
  | [] => return .empty
  | p :: ps => do
    let f ← p.compile
    let g ← assemble ps
    return f.beside g

/-- A row of pieces between parentheses. -/
def parenthesised (ps : List Piece) : List Piece := sign .opening :: ps ++ [sign .closing]

/-- A function applied to rows of pieces. -/
def call (function : FunctionName) (arguments : List (List Piece)) : List Piece :=
  sign (.function function) :: parenthesised ([sign .comma].intercalate arguments)

@[simp] theorem assemble_nil : assemble [] = pure .empty := rfl

theorem assemble_cons (p : Piece) (ps : List Piece) :
    assemble (p :: ps) = do
      let f ← p.compile
      let g ← assemble ps
      return f.beside g := rfl

@[simp] theorem assemble_sign (s : Symbol) (hs : s.IsSign) (ps : List Piece) :
    assemble (sign s hs :: ps) = (symbol s).beside <$> assemble ps := by
  simp [assemble_cons, compile]

@[simp] theorem assemble_fault (e : Error) (ps : List Piece) :
    assemble (fault e :: ps) = throw e := rfl

theorem assemble_append (ps qs : List Piece) :
    assemble (ps ++ qs) = do
      let f ← assemble ps
      let g ← assemble qs
      return f.beside g := by
  induction ps with
  | nil => simp only [List.nil_append, assemble_nil, pure_bind, empty_beside, bind_pure]
  | cons p ps ih =>
    simp only [List.cons_append, assemble_cons, ih, bind_assoc, pure_bind, beside_assoc]

theorem assemble_singleton (p : Piece) : assemble [p] = p.compile := by
  simp [assemble_cons]

theorem name_eq_assemble (n : String) : Compile.name n = assemble [name n] :=
  (assemble_singleton (name n)).symm

theorem value_eq_assemble (v : Value) : Compile.value v.encode = assemble [literal v] :=
  (assemble_singleton (literal v)).symm

/-- What a piece yields carries the number that was drawn for it. -/
theorem numbered_of_compile {p : Piece} {n m : Nat} {f : Fragment}
    (h : runFrom p.compile n = (.ok f, m)) : f.Numbered n m := by
  cases p with
  | sign s hs =>
    cases h
    exact numbered_symbol n hs
  | name k =>
    cases h
    exact numbered_name n k
  | literal v =>
    obtain ⟨w, -, rfl, rfl⟩ := Compile.runFrom_value_eq_ok.mp h
    exact numbered_value n w
  | fault e => cases h

/-- What a row yields carries, from the left, the numbers that were drawn. -/
theorem numbered_of_assemble {ps : List Piece} {n m : Nat} {f : Fragment}
    (h : runFrom (assemble ps) n = (.ok f, m)) : f.Numbered n m := by
  induction ps generalizing n f with
  | nil =>
    cases h
    exact numbered_empty _
  | cons p ps ih =>
    obtain ⟨g, l, hg, hrest⟩ := Compile.runFrom_bind_eq_ok.mp h
    obtain ⟨k, l', hk, hpure⟩ := Compile.runFrom_bind_eq_ok.mp hrest
    cases hpure
    exact (numbered_of_compile hg).beside (ih hk)

/-! ### Programs that go through rows -/

variable {α : Type}

theorem compile_ext {c d : Compile α} (h : ∀ n, runFrom c n = runFrom d n) : c = d := funext h

/-- What follows a row only has to agree on fragments that are numbered. -/
theorem runFrom_assemble_congr {ps : List Piece} {k k' : Fragment → Compile α} {n : Nat}
    (h : ∀ f m, f.Numbered n m → runFrom (k f) m = runFrom (k' f) m) :
    runFrom (assemble ps >>= k) n = runFrom (assemble ps >>= k') n := by
  rw [Compile.runFrom_bind, Compile.runFrom_bind]
  cases hrun : runFrom (assemble ps) n with
  | mk r m =>
    cases r with
    | error e => rfl
    | ok f => exact h f m (numbered_of_assemble hrun)

/-- What follows one row. -/
theorem assemble_one {ps : List Piece} {build build' : Fragment → Fragment}
    (h : ∀ {f : Fragment} {n m : Nat}, f.Numbered n m → build f = build' f) :
    (do let f ← assemble ps; return build f) = (do let f ← assemble ps; return build' f) := by
  refine compile_ext fun n => runFrom_assemble_congr fun f m hf => ?_
  rw [h hf]

/-- What follows two rows. -/
theorem assemble_two {ps qs : List Piece} {build build' : Fragment → Fragment → Fragment}
    (h : ∀ {f g : Fragment} {n l m : Nat}, f.Numbered n l → g.Numbered l m →
      build f g = build' f g) :
    (do let f ← assemble ps; let g ← assemble qs; return build f g) =
      (do let f ← assemble ps; let g ← assemble qs; return build' f g) := by
  refine compile_ext fun n => ?_
  refine runFrom_assemble_congr fun f l hf => runFrom_assemble_congr fun g m hg => ?_
  rw [h hf hg]

/-- Two rows with a sign between them. -/
theorem assemble_separated (ps qs : List Piece) (s : Symbol) (hs : s.IsSign) :
    (do let f ← assemble ps; let g ← assemble qs; return f ++ symbol s ++ g) =
      assemble (ps ++ sign s hs :: qs) := by
  rw [assemble_two fun hf hg => hf.separated_eq hg hs]
  simp [assemble_append]

theorem assemble_parenthesised (ps : List Piece) :
    (do let f ← assemble ps; return f.parenthesised) = assemble (parenthesised ps) := by
  rw [assemble_one fun hf => hf.parenthesised_eq]
  simp [parenthesised, assemble_append]

/-- Rows one after the other, with a sign between them. -/
theorem assemble_intercalate (s : Symbol) (hs : s.IsSign) (rows : List (List Piece)) :
    (do let fs ← rows.mapM assemble; return .join s fs) =
      assemble ([sign s hs].intercalate rows) := by
  induction rows with
  | nil => simp [join]
  | cons ps rows ih =>
    cases rows with
    | nil => simp [join]
    | cons qs rows =>
      rw [List.intercalate_cons_cons, List.append_assoc, List.singleton_append,
        ← assemble_separated, ← ih]
      simp [join_cons_cons]

theorem assemble_call_one (function : FunctionName) (ps : List Piece) :
    (do let f ← assemble ps; return .call function [f]) = assemble (call function [ps]) := by
  rw [assemble_one fun hf => hf.call_one_eq function, call, List.intercalate_singleton,
    assemble_sign, ← assemble_parenthesised]
  simp

theorem assemble_call_two (function : FunctionName) (ps qs : List Piece) :
    (do let f ← assemble ps; let g ← assemble qs; return .call function [f, g]) =
      assemble (call function [ps, qs]) := by
  rw [assemble_two fun hf hg => hf.call_two_eq hg function, call, assemble_sign,
    ← assemble_parenthesised, List.intercalate_cons_cons, List.intercalate_singleton,
    List.append_assoc, List.singleton_append, ← assemble_separated]
  simp

end Piece

/-! ### The pieces of trees -/

/-- The pieces of a step. -/
def PathStep.pieces : PathStep → List Piece
  | .field name => [.sign .dot, .name name]
  | .index position => [.sign (.index position)]

namespace Reference

/-- The first piece of a reference: the attribute's effective name, if it has one. -/
def head (r : Reference) : Piece :=
  match r.name? with
  | some name => .name name
  | none => .fault .unboundReference

/-- The pieces of a reference. -/
def pieces (r : Reference) : List Piece := r.head :: r.path.flatMap PathStep.pieces

end Reference

/-- The pieces of an operand. -/
def Operand.pieces : Operand → List Piece
  | .path reference => reference.pieces
  | .literal value => [.literal value]
  | .size reference => Piece.call .size [reference.pieces]
  | .arithmetic left operator right =>
    left.pieces ++ .sign (.arithmetic operator) :: right.pieces
  | .ifNotExists reference default =>
    Piece.call .ifNotExists [reference.pieces, default.pieces]
  | .listAppend left right => Piece.call .listAppend [left.pieces, right.pieces]

namespace Condition

/-- The pieces of a condition inside another one. -/
def nestedPieces (c : Condition) (ps : List Piece) : List Piece :=
  if c.isJoined then Piece.parenthesised ps else ps

/-- The pieces of a condition.  Where there is no candidate, the fault comes before the
operand. -/
def pieces : Condition → List Piece
  | .compare left comparator right =>
    left.pieces ++ .sign (.comparator comparator) :: right.pieces
  | .between operand low high =>
    operand.pieces ++ .sign .between :: (low.pieces ++ .sign (.connective .and) :: high.pieces)
  | .beginsWith reference lead => Piece.call .beginsWith [reference.pieces, lead.pieces]
  | .contains reference operand => Piece.call .contains [reference.pieces, operand.pieces]
  | .exists reference => Piece.call .attributeExists [reference.pieces]
  | .notExists reference => Piece.call .attributeNotExists [reference.pieces]
  | .hasType reference type =>
    Piece.call .attributeType [reference.pieces, [.literal (.string type.code)]]
  | .among operand candidates =>
    (if candidates.isEmpty then [.fault .noCandidates] else []) ++ (operand.pieces ++
      .sign .among ::
        Piece.parenthesised ([.sign .comma].intercalate (candidates.map Operand.pieces)))
  | .joined connective left right =>
    nestedPieces left left.pieces ++
      .sign (.connective connective) :: nestedPieces right right.pieces

end Condition

/-- The pieces of a projection. -/
def Projection.pieces (p : Projection) : List Piece :=
  [.sign .comma].intercalate (p.references.map Reference.pieces)

namespace UpdateAction

/-- The piece of a value that is taken as a set. -/
def elements (v : Value) : Piece :=
  match v.toSet with
  | .ok s => .literal s
  | .error e => .fault e

/-- The pieces of an action, without the word of its clause. -/
def pieces : UpdateAction → List Piece
  | .set reference operand =>
    reference.pieces ++ .sign (.comparator .equal) :: operand.pieces
  | .remove reference => reference.pieces
  | .add reference value => reference.pieces ++ [.sign .space, elements value]
  | .delete reference value => reference.pieces ++ [.sign .space, elements value]

end UpdateAction

namespace Update

/-- The actions of a clause, from left to right. -/
def actionsOf (u : Update) (c : Clause) : List UpdateAction :=
  u.actions.filter fun a => a.clause = c

/-- The clauses that an action belongs to, in the order in which they are written. -/
def clauses (u : Update) : List Clause := Clause.all.filter fun c => !(u.actionsOf c).isEmpty

/-- The pieces of a clause: its word, and its actions with commas between them. -/
def clausePieces (u : Update) (c : Clause) : List Piece :=
  .sign (.clause c) :: .sign .space ::
    [.sign .comma].intercalate ((u.actionsOf c).map UpdateAction.pieces)

/-- The pieces of an update, clause by clause. -/
def pieces (u : Update) : List Piece :=
  [.sign .space].intercalate (u.clauses.map u.clausePieces)

end Update

/-! ### Compiling is going through the pieces -/

open Piece

section

open Fragment

theorem Reference.compileSteps_eq_assemble (steps : List PathStep) :
    compileSteps steps = assemble (steps.flatMap PathStep.pieces) := by
  induction steps with
  | nil => rfl
  | cons step steps ih =>
    cases step with
    | field name =>
      have hstep : ∀ {f g : Fragment} {n l m : Nat}, f.Numbered n l → g.Numbered l m →
          symbol .dot ++ f ++ g = (symbol .dot).beside (f.beside g) := by
        intro f g n l m hf hg
        have hdot : (symbol .dot).Numbered n n := numbered_symbol n
        rw [(hdot.append hf).append_eq_beside hg, hdot.append_eq_beside hf, beside_assoc]
      rw [compileSteps, ih, name_eq_assemble, assemble_two hstep]
      simp [PathStep.pieces, assemble_cons (.name name)]
    | index position =>
      rw [compileSteps, ih, assemble_one fun hf => (numbered_symbol _).append_eq_beside hf]
      simp [PathStep.pieces]

/-- Compiling a reference is going through its pieces. -/
theorem Reference.compile_eq_assemble (r : Reference) : r.compile = assemble r.pieces := by
  unfold Reference.compile Reference.pieces Reference.head
  cases r.name? with
  | none => rfl
  | some name =>
    show (do
      let f ← Compile.name name
      let rest ← compileSteps r.path
      return f ++ rest) = assemble ([.name name] ++ r.path.flatMap PathStep.pieces)
    rw [compileSteps_eq_assemble, name_eq_assemble,
      assemble_two fun hf hg => hf.append_eq_beside hg, ← assemble_append]

/-- Compiling an operand is going through its pieces. -/
theorem Operand.compile_eq_assemble (o : Operand) : o.compile = assemble o.pieces := by
  induction o with
  | path r => exact r.compile_eq_assemble
  | literal v => exact value_eq_assemble v
  | size r =>
    rw [Operand.compile, r.compile_eq_assemble, assemble_call_one]
    rfl
  | arithmetic left o right ihl ihr =>
    rw [Operand.compile, ihl, ihr, assemble_separated]
    rfl
  | ifNotExists r default ih =>
    rw [Operand.compile, r.compile_eq_assemble, ih, assemble_call_two]
    rfl
  | listAppend left right ihl ihr =>
    rw [Operand.compile, ihl, ihr, assemble_call_two]
    rfl

theorem Condition.assemble_nestedPieces (c : Condition) (ps : List Piece) :
    (do let f ← assemble ps; return c.nested f) = assemble (c.nestedPieces ps) := by
  unfold nested nestedPieces
  split
  · exact assemble_parenthesised ps
  · simp

/-- Compiling a condition is going through its pieces. -/
theorem Condition.compile_eq_assemble (c : Condition) : c.compile = assemble c.pieces := by
  induction c with
  | compare left c right =>
    rw [Condition.compile, left.compile_eq_assemble, right.compile_eq_assemble,
      assemble_separated]
    rfl
  | between operand low high =>
    have hrange := assemble_separated (operand.pieces ++ .sign .between :: low.pieces) high.pieces
      (.connective .and) rfl
    rw [← assemble_separated] at hrange
    simp only [bind_assoc, pure_bind] at hrange
    rw [Condition.compile, operand.compile_eq_assemble, low.compile_eq_assemble,
      high.compile_eq_assemble, hrange]
    simp [pieces]
  | beginsWith r lead =>
    rw [Condition.compile, r.compile_eq_assemble, lead.compile_eq_assemble, assemble_call_two]
    rfl
  | contains r operand =>
    rw [Condition.compile, r.compile_eq_assemble, operand.compile_eq_assemble, assemble_call_two]
    rfl
  | «exists» r =>
    rw [Condition.compile, r.compile_eq_assemble, assemble_call_one]
    rfl
  | notExists r =>
    rw [Condition.compile, r.compile_eq_assemble, assemble_call_one]
    rfl
  | hasType r type =>
    rw [Condition.compile, r.compile_eq_assemble,
      show Compile.value (.ok (.string type.code)) = assemble [.literal (.string type.code)] from
        value_eq_assemble (.string type.code), assemble_call_two]
    rfl
  | among operand candidates =>
    rw [Condition.compile, pieces]
    split
    · rfl
    · have hamong := assemble_separated operand.pieces
        (Piece.parenthesised ([.sign .comma].intercalate (candidates.map Operand.pieces))) .among rfl
      rw [← assemble_parenthesised, ← assemble_intercalate, List.mapM_map] at hamong
      simp only [bind_assoc, pure_bind] at hamong
      rw [operand.compile_eq_assemble, funext Operand.compile_eq_assemble, List.nil_append]
      exact hamong
  | joined c left right ihl ihr =>
    have hjoined := assemble_separated (left.nestedPieces left.pieces)
      (right.nestedPieces right.pieces) (.connective c) rfl
    rw [← assemble_nestedPieces, ← assemble_nestedPieces] at hjoined
    simp only [bind_assoc, pure_bind] at hjoined
    rw [Condition.compile, ihl, ihr, hjoined]
    rfl

/-- Compiling a projection is going through its pieces. -/
theorem Projection.compile_eq_assemble (p : Projection) : p.compile = assemble p.pieces := by
  rw [Projection.compile, pieces, ← assemble_intercalate, List.mapM_map,
    funext Reference.compile_eq_assemble]
  rfl

theorem UpdateAction.compileSetAction_eq_assemble (r : Reference) (v : Value) :
    compileSetAction r v = assemble (r.pieces ++ [.sign .space, elements v]) := by
  rw [← assemble_separated, compileSetAction, r.compile_eq_assemble, elements]
  cases v.toSet with
  | error e => rfl
  | ok s => rw [← value_eq_assemble]

/-- Compiling an action is going through its pieces. -/
theorem UpdateAction.compile_eq_assemble (a : UpdateAction) : a.compile = assemble a.pieces := by
  cases a with
  | set r operand =>
    rw [UpdateAction.compile, r.compile_eq_assemble, operand.compile_eq_assemble,
      assemble_separated]
    rfl
  | remove r => exact r.compile_eq_assemble
  | add r v => exact compileSetAction_eq_assemble r v
  | delete r v => exact compileSetAction_eq_assemble r v

end

end ItemStore
