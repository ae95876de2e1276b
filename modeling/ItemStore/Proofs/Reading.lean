import ItemStore.Proofs.Grammar
import ItemStore.Proofs.Meaning

/-!
# How compiled conditions are read

The text of a compiled condition is read back as the tree of the condition, and in no
other way.  Parentheses stand only around joined conditions inside joined ones, which is
enough: the sides of a connective are then atoms and groups, and neither has a joint.  The
atoms that are read say the atoms of the condition, from left to right, once their
placeholders are resolved.

## Main definitions

* `Condition.logic` — the tree of a condition.
* `Condition.rows` — the tree with the symbols of each atom, as they are compiled.

## Main results

* `Condition.Compiled.induction_joined` — compiled conditions are atoms or joined.
* `Condition.Compiled.reading` — the symbols are derived as this tree only.
* `Condition.Compiled.reads_iff` — and so is the text.
* `Condition.Compiled.nodup_atoms` — different atoms have different symbols.
* `Condition.Compiled.matches_atoms` — the atoms say the atoms of the condition.
* `Condition.Compiled.read_back` — all this, under the names and the values that are sent.
-/

namespace ItemStore

open Grammar Fragment

namespace Condition

/-- The tree of a condition. -/
def logic : Condition → Logic Condition
  | .joined connective left right => .joined connective left.logic right.logic
  | c => .atom c

/-- The tree of a condition with the symbols of its atoms, compiled from the left. -/
def rows (c : Condition) : Compile (Logic (List Symbol)) :=
  c.logic.mapM fun a => do return (← a.compile).symbols

/-- The truth of a condition is that of its tree. -/
theorem eval_logic (truth : Condition → Bool) (c : Condition) :
    c.logic.eval truth = c.eval truth := by
  induction c with
  | joined connective left right ihl ihr =>
    rw [logic, Logic.eval, ihl, ihr, eval]
  | _ => rfl

theorem logic_of_not_isJoined {c : Condition} (h : c.isJoined = false) : c.logic = .atom c := by
  cases c with
  | joined connective left right => cases h
  | _ => rfl

theorem runFrom_rows_of_not_isJoined {c : Condition} {n m : Nat} {f : Fragment}
    (hc : c.isJoined = false) (h : c.Compiled n f m) :
    Compile.runFrom c.rows n = (.ok (.atom f.symbols), m) := by
  rw [rows, logic_of_not_isJoined hc]
  simp only [Logic.mapM, Compile.runFrom_bind, compiled_iff.mpr h, Compile.runFrom_pure]

end Condition

/-! ### The phrases of compiled operands -/

theorem Reference.StepsCompiled.phrase {steps : List PathStep} {n m : Nat} {f : Fragment}
    (h : Reference.StepsCompiled steps n f m) : Phrase .steps f.symbols := by
  induction h with
  | nil => exact .done
  | field _ ih => exact .field ih
  | index _ ih => exact .index ih

theorem Reference.Compiled.phrase {r : Reference} {n m : Nat} {f : Fragment}
    (h : r.Compiled n f m) : Phrase .operand f.symbols := by
  obtain ⟨name, g, -, hg, rfl⟩ := h
  exact .path hg.phrase

theorem Operand.Compiled.phrase {o : Operand} {n m : Nat} {f : Fragment}
    (h : o.Compiled n f m) : Phrase .operand f.symbols := by
  induction h with
  | path hr => exact hr.phrase
  | literal _ => exact .value
  | size hr => exact .call .size rfl (.one hr.phrase)
  | arithmetic _ _ ihf ihg => exact .arithmetic ihf ihg
  | ifNotExists hr _ ih => exact .call .ifNotExists rfl (.more hr.phrase (.one ih))
  | listAppend _ _ ihf ihg => exact .call .listAppend rfl (.more ihf (.one ihg))

/-- Candidates with commas between them are operands. -/
theorem Operand.phrase_of_each {os : List Operand} {n m : Nat} {fs : List Fragment}
    (hne : os ≠ []) (h : Compile.Each Operand.Compiled os n fs m) :
    Phrase (.operands fs.length) (Fragment.join .comma fs).symbols := by
  induction h with
  | nil => exact absurd rfl hne
  | cons ho hos ih =>
    cases hos with
    | nil => exact .one ho.phrase
    | cons ho' hos' => exact .more ho.phrase (ih (by simp))

/-- A compiled condition that is not joined is an atom. -/
theorem Condition.Compiled.atom {c : Condition} {n m : Nat} {f : Fragment}
    (hc : c.isJoined = false) (h : c.Compiled n f m) : Atom f.symbols := by
  cases h with
  | compare hf hg => exact .compare hf.phrase hg.phrase
  | between hf hg hh => exact .between hf.phrase hg.phrase hh.phrase
  | beginsWith hf hg => exact .test .beginsWith rfl (.more hf.phrase (.one hg.phrase))
  | contains hf hg => exact .test .contains rfl (.more hf.phrase (.one hg.phrase))
  | «exists» hf => exact .test .attributeExists rfl (.one hf.phrase)
  | notExists hf => exact .test .attributeNotExists rfl (.one hf.phrase)
  | hasType hf => exact .test .attributeType rfl (.more hf.phrase (.one .value))
  | among hne hf hgs => exact .among hf.phrase (Operand.phrase_of_each hne hgs)
  | joined _ _ => cases hc

/-! ### Reading the symbols -/

namespace Condition

/-- A part of a joined condition: it is derived tightly, read in one way, and has no joint. -/
structure Part (row : List Symbol) (t : Logic (List Symbol)) : Prop where
  /-- It may stand on a side of an `AND`. -/
  derives : ∀ tight, Derives tight row t
  decided : Decided row t
  solid : Solid row

theorem part_of_atom {row : List Symbol} (h : Atom row) : Part row (.atom row) :=
  ⟨fun _ => .atom h, h.decided, h.solid⟩

theorem part_of_group {row : List Symbol} {t : Logic (List Symbol)} (hderives : Derives false row t)
    (hdecided : Decided row t) : Part ([.opening] ++ row ++ [.closing]) t :=
  ⟨fun _ => .group hderives, hdecided.parenthesised hderives.inner,
    hderives.inner.parenthesised.solid⟩

/-- Two parts are read together as the tree of both. -/
theorem Part.derives_joined {p q : List Symbol} {s t : Logic (List Symbol)} (hp : Part p s)
    (hq : Part q t) (c : Connective) :
    Derives false (p ++ [.connective c] ++ q) (.joined c s t) := by
  cases c with
  | and => exact .and (hp.derives true) (hq.derives true)
  | or => exact .or (hp.derives false) (hq.derives false)

/-- What holds of compiled atoms and of two compiled conditions joined, if it holds of both, holds
of every compiled condition. -/
@[elab_as_elim]
theorem Compiled.induction_joined
    {motive : ∀ (c : Condition) (n : Nat) (f : Fragment) (m : Nat), c.Compiled n f m → Prop}
    (atom : ∀ {c n f m} (_ : c.isJoined = false) (h : c.Compiled n f m), motive c n f m h)
    (joined : ∀ (connective : Connective) {left right n l m f g} (hl : left.Compiled n f l)
      (hr : right.Compiled l g m), motive left n f l hl → motive right l g m hr →
        motive (.joined connective left right) n
          (left.nested f ++ symbol (.connective connective) ++ right.nested g) m (.joined hl hr))
    {c : Condition} {n : Nat} {f : Fragment} {m : Nat} (h : c.Compiled n f m) :
    motive c n f m h := by
  induction c generalizing n f m with
  | joined connective left right ihl ihr =>
    cases h with
    | joined hl hr => exact joined connective hl hr (ihl hl) (ihr hr)
  | _ => exact atom rfl h

/-- The symbols of a compiled condition are derived as its tree and as no other. -/
theorem Compiled.reading {c : Condition} {n m : Nat} {f : Fragment} (h : c.Compiled n f m) :
    ∃ t, Compile.runFrom c.rows n = (.ok t, m) ∧ Derives false f.symbols t ∧
      Decided f.symbols t ∧ Part (c.nested f).symbols t := by
  -- A side of a joined condition is nested, so the induction has to say that it is a part then.
  induction h using Compiled.induction_joined with
  | atom hc h =>
    have ha := h.atom hc
    refine ⟨_, runFrom_rows_of_not_isJoined hc h, .atom ha, ha.decided, ?_⟩
    simp only [nested, hc]
    exact part_of_atom ha
  | joined connective _ _ ihl ihr =>
    obtain ⟨s, hs, -, -, hp⟩ := ihl
    obtain ⟨t, ht, -, -, hq⟩ := ihr
    have hderives := hp.derives_joined hq connective
    have hdecided := hp.decided.joined hq.decided hp.solid hq.solid (c := connective)
    refine ⟨_, Logic.runFrom_mapM_joined hs ht, hderives, hdecided, ?_⟩
    exact part_of_group hderives hdecided

/-! ### Reading the text -/

/-- The text of a compiled condition is read as its tree and as no other. -/
theorem Compiled.reads_iff {c : Condition} {n m : Nat} {f : Fragment} (h : c.Compiled n f m) :
    ∃ t, Compile.runFrom c.rows n = (.ok t, m) ∧ ∀ t', Reads f.text t' ↔ t' = t := by
  obtain ⟨t, ht, hderives, hdecided, -⟩ := h.reading
  have hscan : Symbol.scan f.text = some f.symbols :=
    Fragment.scan_text h.spaced hderives.space_not_mem
  refine ⟨t, ht, ?_⟩
  intro t'
  constructor
  · rintro ⟨row, hrow, hderives'⟩
    rw [hscan] at hrow
    cases hrow
    exact hdecided false t' hderives'
  · rintro rfl
    exact ⟨f.symbols, hscan, hderives⟩

/-- The atoms of a compiled condition are pairwise different. -/
theorem Compiled.nodup_atoms {c : Condition} {n m : Nat} {f : Fragment} (h : c.Compiled n f m)
    {t : Logic (List Symbol)} (ht : Compile.runFrom c.rows n = (.ok t, m)) : t.atoms.Nodup := by
  obtain ⟨t', ht', hderives, -, -⟩ := h.reading
  obtain rfl : t' = t := by
    rw [ht] at ht'
    cases ht'
    rfl
  refine hderives.nodup_atoms ?_
  rw [show Symbol.tokens f.symbols = _ from h.numbered.tokens]
  exact List.nodup_range'

/-- The atoms of a compiled condition say the atoms of the condition, resolved through what is
sent with it. -/
theorem Compiled.matches_atoms {c : Condition} {n m : Nat} {f : Fragment}
    (h : c.Compiled n f m) {names : Dict String String} {values : Item}
    (hsends : Piece.Sends names values f) :
    ∃ t, Compile.runFrom c.rows n = (.ok t, m) ∧
      List.Forall₂ (fun a row => Piece.Matches names values a.pieces row) c.logic.atoms t.atoms := by
  induction h using Compiled.induction_joined with
  | atom hc h =>
    refine ⟨_, runFrom_rows_of_not_isJoined hc h, ?_⟩
    have hrun := compiled_iff.mpr h
    rw [compile_eq_assemble] at hrun
    rw [logic_of_not_isJoined hc]
    exact .cons (Piece.matches_of_assemble hrun hsends) .nil
  | joined connective hl hr ihl ihr =>
    obtain ⟨hsendsl, hsendsr⟩ := hsends.of_joined hl.numbered hr.numbered
    obtain ⟨s, hs, hatomsl⟩ := ihl hsendsl
    obtain ⟨t, ht, hatomsr⟩ := ihr hsendsr
    refine ⟨_, Logic.runFrom_mapM_joined hs ht, ?_⟩
    rw [logic, Logic.atoms, Logic.atoms]
    exact List.rel_append hatomsl hatomsr

/-- What a compiled condition is read as, under whatever names and values are sent for it. -/
theorem Compiled.read_back {c : Condition} {n m : Nat} {f : Fragment} (h : c.Compiled n f m)
    {names : Dict String String} {values : Item} (hsends : Piece.Sends names values f) :
    ∃ t, Compile.runFrom c.rows n = (.ok t, m) ∧ (∀ t', Reads f.text t' ↔ t' = t) ∧
      List.Forall₂ (fun a row => Piece.Matches names values a.pieces row) c.logic.atoms t.atoms ∧
      t.atoms.Nodup ∧
      ∀ truth truth', c.logic.Agree t truth truth' → t.eval truth' = c.eval truth := by
  obtain ⟨t, ht, hreads⟩ := h.reads_iff
  obtain ⟨u, hu, hatoms⟩ := h.matches_atoms hsends
  -- Both trees are that of the same run.
  rw [ht] at hu
  cases hu
  refine ⟨t, ht, hreads, hatoms, h.nodup_atoms ht, ?_⟩
  intro truth truth' hagree
  rw [Logic.eval_of_mapM ht hagree, eval_logic]

/-- **A condition is read back from its text.**

The text of a condition is read as the tree of the condition, with the symbols that its
atoms compile to, and as no other tree.  These symbols say the atoms of the condition, one
after the other, once the placeholders are resolved through the names and the values of the
expression.  They are pairwise different, so that every atom has a truth of its own, and the
text is true where the condition is. -/
theorem reads_compile {c : Condition} {n m : Nat} {f : Fragment}
    (h : Compile.runFrom c.compile n = (.ok f, m)) :
    ∃ t, Compile.runFrom c.rows n = (.ok t, m) ∧ (∀ t', Reads f.text t' ↔ t' = t) ∧
      List.Forall₂ (fun a row =>
        Piece.Matches (writtenNames f.names) (writtenValues f.values) a.pieces row)
        c.logic.atoms t.atoms ∧
      t.atoms.Nodup ∧
      ∀ truth truth', c.logic.Agree t truth truth' → t.eval truth' = c.eval truth := by
  have hcompiled := compiled_iff.mp h
  exact hcompiled.read_back (Piece.sends_of_drawn hcompiled.numbered.drawn)

/-- A range and a disjunction, joined: the first `AND` belongs to the range. -/
theorem reads_compile_between :
    let c : Condition :=
      .joined .and (.between (.path (.named "a")) (.literal (.bool false)) (.literal (.bool true)))
        (.joined .or (.exists (.named "b")) (.notExists (.named "c")))
    let f : Fragment :=
      ⟨[.name 0, .between, .value 1, .connective .and, .value 2, .connective .and, .opening,
          .function .attributeExists, .opening, .name 3, .closing, .connective .or,
          .function .attributeNotExists, .opening, .name 4, .closing, .closing],
        [(0, "a"), (3, "b"), (4, "c")], [(1, .bool false), (2, .bool true)]⟩
    Compile.runFrom c.compile 0 = (.ok f, 5) ∧
      f.text = "#n0 BETWEEN :v1 AND :v2 AND (attribute_exists(#n3) OR attribute_not_exists(#n4))" ∧
      ∃ t, Compile.runFrom c.rows 0 = (.ok t, 5) ∧ (∀ t', Reads f.text t' ↔ t' = t) ∧
        List.Forall₂ (fun a row =>
          Piece.Matches (writtenNames f.names) (writtenValues f.values) a.pieces row)
          c.logic.atoms t.atoms := by
  intro c f
  have hc : Compile.runFrom c.compile 0 = (.ok f, 5) := rfl
  obtain ⟨t, ht, hreads, hatoms, -⟩ := reads_compile hc
  exact ⟨hc, by decide, t, ht, hreads, hatoms⟩

end Condition

end ItemStore
