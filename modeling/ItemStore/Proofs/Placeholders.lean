import Mathlib.Data.List.Flatten
import Mathlib.Data.List.Perm.Basic
import Mathlib.Data.List.Nodup
import ItemStore.Proofs.Compile

/-!
# Placeholders and what they stand for

Putting fragments together writes the names and values of one over those of the other.
Nothing is lost there as long as no placeholder occurs twice, and none does: what is
compiled from one counter carries, from the left, exactly the numbers that were drawn.

## Main definitions

* `Symbol.tokens` — the numbers of the placeholders in a row of symbols.
* `Fragment.Bound` — a fragment binds the placeholders in it, in their order.
* `Fragment.Numbered n m` — moreover these are the numbers from `n` on and below `m`.

## Main results

* `Fragment.join_bound` — fragments without a placeholder in common lose nothing when
  they are put in a row.
* `Operand.Compiled.numbered`, `Condition.Compiled.numbered` and their neighbours.
* `Update.drawn_of_runFrom` — grouping by clause keeps the placeholders.
-/

namespace ItemStore

/-! ### Dictionaries without a key in common -/

namespace Dict

variable {κ α : Type} [DecidableEq κ]

omit [DecidableEq κ] in
@[simp] theorem keys_append (d e : Dict κ α) : keys (d ++ e) = keys d ++ keys e := by
  simp [keys]

/-- A key that is not there is written at the end. -/
theorem insert_of_not_mem {d : Dict κ α} {k : κ} (hk : k ∉ keys d) (v : α) :
    insert d k v = d ++ [(k, v)] := by
  induction d with
  | nil => rfl
  | cons e d ih =>
    obtain ⟨c, w⟩ := e
    rw [keys_cons, List.mem_cons, not_or] at hk
    rw [insert, if_neg (Ne.symm hk.1), ih hk.2]
    rfl

/-- Nothing is overwritten where no key has two entries. -/
theorem union_eq_append {d e : Dict κ α} (h : (keys d ++ keys e).Nodup) : union d e = d ++ e := by
  induction e generalizing d with
  | nil => simp
  | cons p e ih =>
    -- The key is written at the end, so the entries stay in order.
    have hp : p.1 ∉ keys d := by
      intro hmem
      exact (List.nodup_append.mp h).2.2 p.1 hmem p.1 (List.mem_cons_self ..) rfl
    rw [union_cons, insert_of_not_mem hp, ih, List.append_assoc]
    · rfl
    · simpa using h

/-- Dictionaries without a key in common are put together unchanged. -/
theorem foldl_union_eq_append {β : Type} (part : β → Dict κ α) {bs : List β} {d : Dict κ α}
    (h : (keys d ++ bs.flatMap fun b => keys (part b)).Nodup) :
    bs.foldl (fun d b => union d (part b)) d = d ++ bs.flatMap part := by
  induction bs generalizing d with
  | nil => simp
  | cons b bs ih =>
    rw [List.flatMap_cons, ← List.append_assoc] at h
    have hunion : union d (part b) = d ++ part b := union_eq_append h.of_append_left
    rw [List.foldl_cons, hunion, ih, List.flatMap_cons, List.append_assoc]
    rwa [keys_append]

end Dict

/-! ### The placeholders of a row -/

namespace Symbol

/-- The numbers of the placeholders in a row, from the left. -/
def tokens (row : List Symbol) : List Nat := row.filterMap token?

/-- The numbers of the placeholders of names, from the left. -/
def nameTokens (row : List Symbol) : List Nat := row.filterMap name?

/-- The numbers of the placeholders of values, from the left. -/
def valueTokens (row : List Symbol) : List Nat := row.filterMap value?

@[simp] theorem tokens_nil : tokens [] = [] := rfl

@[simp] theorem nameTokens_nil : nameTokens [] = [] := rfl

@[simp] theorem valueTokens_nil : valueTokens [] = [] := rfl

@[simp] theorem tokens_append (r s : List Symbol) : tokens (r ++ s) = tokens r ++ tokens s :=
  List.filterMap_append

@[simp] theorem nameTokens_append (r s : List Symbol) :
    nameTokens (r ++ s) = nameTokens r ++ nameTokens s :=
  List.filterMap_append

@[simp] theorem valueTokens_append (r s : List Symbol) :
    valueTokens (r ++ s) = valueTokens r ++ valueTokens s :=
  List.filterMap_append

/-- What is counted among less stands in a sublist of what is counted. -/
theorem filterMap_sublist_filterMap {p q : Symbol → Option Nat}
    (h : ∀ s n, p s = some n → q s = some n) (row : List Symbol) :
    (row.filterMap p).Sublist (row.filterMap q) := by
  induction row with
  | nil => exact .slnil
  | cons s row ih =>
    cases hp : p s with
    | none =>
      rw [List.filterMap_cons_none hp]
      exact ih.trans ((List.sublist_cons_self s row).filterMap q)
    | some n =>
      rw [List.filterMap_cons_some hp, List.filterMap_cons_some (h s n hp)]
      exact ih.cons_cons n

theorem nameTokens_sublist (row : List Symbol) : (nameTokens row).Sublist (tokens row) := by
  refine filterMap_sublist_filterMap (fun s n h => ?_) row
  cases s with
  | name number => exact h
  | _ => cases h

theorem valueTokens_sublist (row : List Symbol) : (valueTokens row).Sublist (tokens row) := by
  refine filterMap_sublist_filterMap (fun s n h => ?_) row
  cases s with
  | value number => exact h
  | _ => cases h

/-- A symbol that is no placeholder. -/
def IsSign (s : Symbol) : Prop := s.token? = none

theorem IsSign.name? {s : Symbol} (h : s.IsSign) : s.name? = none := by
  cases s with
  | name number => cases h
  | _ => rfl

theorem IsSign.value? {s : Symbol} (h : s.IsSign) : s.value? = none := by
  cases s with
  | value number => cases h
  | _ => rfl

theorem tokens_singleton {s : Symbol} (hs : s.IsSign := by exact rfl) : tokens [s] = [] := by
  rw [tokens, List.filterMap_cons, show s.token? = none from hs, List.filterMap_nil]

end Symbol

open ItemStore.Symbol

/-! ### What a fragment binds -/

namespace Fragment

/-- The numbers of the placeholders in a fragment, from the left. -/
def tokens (f : Fragment) : List Nat := Symbol.tokens f.symbols

/-- A fragment binds the placeholders in it, in the order in which they stand there. -/
structure Bound (f : Fragment) : Prop where
  names : f.names.keys = nameTokens f.symbols
  values : f.values.keys = valueTokens f.symbols

@[simp] theorem tokens_empty : empty.tokens = [] := rfl

@[simp] theorem tokens_append (f g : Fragment) : (f ++ g).tokens = f.tokens ++ g.tokens :=
  Symbol.tokens_append _ _

@[simp] theorem tokens_name (number : Nat) (n : String) : (name number n).tokens = [number] := rfl

@[simp] theorem tokens_value (number : Nat) (w : Wire) : (value number w).tokens = [number] := rfl

theorem tokens_symbol {s : Symbol} (hs : s.IsSign := by exact rfl) : (symbol s).tokens = [] :=
  tokens_singleton hs

theorem bound_empty : empty.Bound := ⟨rfl, rfl⟩

theorem bound_symbol {s : Symbol} (hs : s.IsSign := by exact rfl) : (symbol s).Bound := by
  constructor
  · simp [symbol, nameTokens, hs.name?]
  · simp [symbol, valueTokens, hs.value?]

theorem bound_name (number : Nat) (n : String) : (name number n).Bound := ⟨rfl, rfl⟩

theorem bound_value (number : Nat) (w : Wire) : (value number w).Bound := ⟨rfl, rfl⟩

section Append

variable {f g : Fragment} (hf : f.Bound) (hg : g.Bound) (hfg : (f.tokens ++ g.tokens).Nodup)
include hf hg hfg

/-- Fragments without a placeholder in common keep their names when they are put in a
row. -/
theorem Bound.names_append : (f ++ g).names = f.names ++ g.names := by
  rw [Fragment.names_append, Dict.union_eq_append]
  rw [hf.names, hg.names]
  exact hfg.sublist ((nameTokens_sublist f.symbols).append (nameTokens_sublist g.symbols))

/-- Fragments without a placeholder in common keep their values when they are put in a
row. -/
theorem Bound.values_append : (f ++ g).values = f.values ++ g.values := by
  rw [Fragment.values_append, Dict.union_eq_append]
  rw [hf.values, hg.values]
  exact hfg.sublist ((valueTokens_sublist f.symbols).append (valueTokens_sublist g.symbols))

theorem Bound.append : (f ++ g).Bound := by
  constructor
  · rw [hf.names_append hg hfg, Dict.keys_append, hf.names, hg.names, symbols_append,
      Symbol.nameTokens_append]
  · rw [hf.values_append hg hfg, Dict.keys_append, hf.values, hg.values, symbols_append,
      Symbol.valueTokens_append]

end Append

/-! ### Fragments in a row -/

theorem join_cons_cons (separator : Symbol) (f g : Fragment) (fs : List Fragment) :
    join separator (f :: g :: fs) = f ++ symbol separator ++ join separator (g :: fs) := rfl

theorem symbols_join (separator : Symbol) (fs : List Fragment) :
    (join separator fs).symbols = [separator].intercalate (fs.map symbols) := by
  induction fs with
  | nil => rfl
  | cons f fs ih =>
    cases fs with
    | nil => simp [join]
    | cons g fs =>
      rw [join_cons_cons, symbols_append, symbols_append, ih]
      simp [symbol]

theorem tokens_join {separator : Symbol} (fs : List Fragment)
    (hs : separator.IsSign := by exact rfl) : (join separator fs).tokens = fs.flatMap tokens := by
  induction fs with
  | nil => rfl
  | cons f fs ih =>
    cases fs with
    | nil => simp [join]
    | cons g fs =>
      rw [join_cons_cons, tokens_append, tokens_append, tokens_symbol hs, ih]
      simp

/-- Fragments without a placeholder in common lose nothing when they are put in a row. -/
theorem join_bound {separator : Symbol} {fs : List Fragment} (hfs : ∀ f ∈ fs, f.Bound)
    (hnodup : (fs.flatMap tokens).Nodup) (hs : separator.IsSign := by exact rfl) :
    (join separator fs).Bound := by
  induction fs with
  | nil => exact bound_empty
  | cons f fs ih =>
    cases fs with
    | nil => exact hfs f (List.mem_cons_self ..)
    | cons g fs =>
      have hf : f.Bound := hfs f (List.mem_cons_self ..)
      have hsplit : (f.tokens ++ (g :: fs).flatMap tokens).Nodup := by simpa using hnodup
      have hrest := ih (fun x hx => hfs x (List.mem_cons_of_mem _ hx)) hsplit.of_append_right
      rw [join_cons_cons]
      refine Bound.append (hf.append (bound_symbol hs) ?_) hrest ?_
      · rw [tokens_symbol hs, List.append_nil]
        exact hsplit.of_append_left
      · rw [tokens_append, tokens_symbol hs, List.append_nil, tokens_join _ hs]
        exact hsplit

/-- The symbols, names and values of such a row. -/
theorem join_eq {separator : Symbol} {fs : List Fragment} (hfs : ∀ f ∈ fs, f.Bound)
    (hnodup : (fs.flatMap tokens).Nodup) (hs : separator.IsSign := by exact rfl) :
    join separator fs =
      ⟨[separator].intercalate (fs.map symbols), fs.flatMap names, fs.flatMap values⟩ := by
  induction fs with
  | nil => rfl
  | cons f fs ih =>
    cases fs with
    | nil => simp [join]
    | cons g fs =>
      have hf : f.Bound := hfs f (List.mem_cons_self ..)
      have htail : ∀ x ∈ g :: fs, x.Bound := fun x hx => hfs x (List.mem_cons_of_mem _ hx)
      have hsplit : (f.tokens ++ (g :: fs).flatMap tokens).Nodup := by simpa using hnodup
      have hrest := ih htail hsplit.of_append_right
      have hrow : (join separator (g :: fs)).Bound :=
        join_bound htail hsplit.of_append_right hs
      have hdistinct : ((f ++ symbol separator).tokens ++
          (join separator (g :: fs)).tokens).Nodup := by
        rw [tokens_append, tokens_symbol hs, List.append_nil, tokens_join _ hs]
        exact hsplit
      have hstart : (f ++ symbol separator).Bound := by
        refine hf.append (bound_symbol hs) ?_
        rw [tokens_symbol hs, List.append_nil]
        exact hsplit.of_append_left
      show (⟨_, (f ++ symbol separator ++ join separator (g :: fs)).names,
        (f ++ symbol separator ++ join separator (g :: fs)).values⟩ : Fragment) = _
      rw [hstart.names_append hrow hdistinct, hstart.values_append hrow hdistinct, hrest]
      simp [symbol]

section All

variable {fs : List Fragment} (hfs : ∀ f ∈ fs, f.Bound)
include hfs

theorem keys_flatMap_names :
    Dict.keys (fs.flatMap names) = fs.flatMap fun f => nameTokens f.symbols := by
  rw [Dict.keys, List.map_flatMap]
  exact List.flatMap_congr fun f hf => (hfs f hf).names

theorem keys_flatMap_values :
    Dict.keys (fs.flatMap values) = fs.flatMap fun f => valueTokens f.symbols := by
  rw [Dict.keys, List.map_flatMap]
  exact List.flatMap_congr fun f hf => (hfs f hf).values

variable (hnodup : (fs.flatMap tokens).Nodup)
include hnodup

theorem nodup_keys_names : (Dict.keys (fs.flatMap names)).Nodup := by
  rw [keys_flatMap_names hfs]
  exact hnodup.sublist (.flatMap_right fs fun f _ => nameTokens_sublist f.symbols)

theorem nodup_keys_values : (Dict.keys (fs.flatMap values)).Nodup := by
  rw [keys_flatMap_values hfs]
  exact hnodup.sublist (.flatMap_right fs fun f _ => valueTokens_sublist f.symbols)

/-- The names of fragments without a placeholder in common are put together unchanged. -/
theorem allNames_eq_flatMap : allNames fs = fs.flatMap names := by
  refine Dict.foldl_union_eq_append names (d := []) ?_
  have hkeys := nodup_keys_names hfs hnodup
  rwa [Dict.keys, List.map_flatMap] at hkeys

/-- The values of fragments without a placeholder in common are put together unchanged. -/
theorem allValues_eq_flatMap : allValues fs = fs.flatMap values := by
  refine Dict.foldl_union_eq_append values (d := []) ?_
  have hkeys := nodup_keys_values hfs hnodup
  rwa [Dict.keys, List.map_flatMap] at hkeys

end All

/-! ### Fragments that are numbered from the left -/

/-- Two stretches of a count are one. -/
theorem range'_append_sub {n l m : Nat} (hnl : n ≤ l) (hlm : l ≤ m) :
    List.range' n (l - n) ++ List.range' l (m - l) = List.range' n (m - n) := by
  rw [show m - n = (l - n) + (m - l) by omega, ← List.range'_append_1,
    show n + (l - n) = l by omega]

/-- A fragment binds the placeholders in it, and these are, from the left, the numbers
from `n` on and below `m`. -/
structure Numbered (f : Fragment) (n m : Nat) : Prop where
  le : n ≤ m
  tokens : f.tokens = List.range' n (m - n)
  bound : f.Bound

theorem Numbered.append {f g : Fragment} {n l m : Nat} (hf : f.Numbered n l)
    (hg : g.Numbered l m) : (f ++ g).Numbered n m := by
  have hle := hf.le
  have hle' := hg.le
  have htokens : f.tokens ++ g.tokens = List.range' n (m - n) := by
    rw [hf.tokens, hg.tokens, range'_append_sub hle hle']
  refine ⟨Nat.le_trans hle hle', ?_, hf.bound.append hg.bound ?_⟩
  · rw [tokens_append, htokens]
  · rw [htokens]
    exact List.nodup_range'

theorem numbered_empty (n : Nat) : empty.Numbered n n := ⟨Nat.le_refl n, by simp, bound_empty⟩

theorem numbered_symbol {s : Symbol} (n : Nat) (hs : s.IsSign := by exact rfl) :
    (symbol s).Numbered n n :=
  ⟨Nat.le_refl n, by simp [tokens_symbol hs], bound_symbol hs⟩

theorem numbered_name (number : Nat) (n : String) : (name number n).Numbered number (number + 1) :=
  ⟨Nat.le_succ number, by simp, bound_name number n⟩

theorem numbered_value (number : Nat) (w : Wire) :
    (value number w).Numbered number (number + 1) :=
  ⟨Nat.le_succ number, by simp, bound_value number w⟩

/-- Two fragments with a sign between them. -/
theorem Numbered.separated {f g : Fragment} {s : Symbol} {n l m : Nat} (hf : f.Numbered n l)
    (hg : g.Numbered l m) (hs : s.IsSign := by exact rfl) : (f ++ symbol s ++ g).Numbered n m :=
  (hf.append (numbered_symbol l hs)).append hg

theorem Numbered.parenthesised {f : Fragment} {n m : Nat} (hf : f.Numbered n m) :
    f.parenthesised.Numbered n m :=
  ((numbered_symbol n).append hf).append (numbered_symbol m)

/-- A function of one argument. -/
theorem Numbered.call_one {f : Fragment} {n m : Nat} (hf : f.Numbered n m)
    (function : FunctionName) : (call function [f]).Numbered n m :=
  (numbered_symbol n).append hf.parenthesised

/-- A function of two arguments. -/
theorem Numbered.call_two {f g : Fragment} {n l m : Nat} (hf : f.Numbered n l)
    (hg : g.Numbered l m) (function : FunctionName) : (call function [f, g]).Numbered n m :=
  (numbered_symbol n).append (hf.separated hg).parenthesised

/-- Where the counter goes through fragments from the left, they carry the numbers that
were drawn. -/
theorem each_numbered {α β : Type} (part : β → Fragment) {as : List α} {bs : List β} {n m : Nat}
    (h : Compile.Each (fun _ n b m => (part b).Numbered n m) as n bs m) :
    n ≤ m ∧ (bs.flatMap fun b => (part b).tokens) = List.range' n (m - n) ∧
      ∀ b ∈ bs, (part b).Bound := by
  induction h with
  | nil => simp
  | @cons _ b _ bs n l m hb _ ih =>
    obtain ⟨hle', htokens, hbound⟩ := ih
    have hle := hb.le
    refine ⟨Nat.le_trans hle hle', ?_, ?_⟩
    · rw [List.flatMap_cons, hb.tokens, htokens, range'_append_sub hle hle']
    · intro x hx
      rcases List.mem_cons.mp hx with rfl | hx
      · exact hb.bound
      · exact hbound x hx

theorem numbered_join {α : Type} {separator : Symbol} {as : List α} {fs : List Fragment}
    {n m : Nat} (h : Compile.Each (fun _ n f m => f.Numbered n m) as n fs m)
    (hs : separator.IsSign := by exact rfl) : (join separator fs).Numbered n m := by
  obtain ⟨hle, htokens, hbound⟩ := each_numbered (fun f => f) h
  refine ⟨hle, ?_, join_bound hbound ?_ hs⟩
  · rw [tokens_join _ hs, htokens]
  · rw [htokens]
    exact List.nodup_range'

/-- A fragment binds the placeholders in it, and these are the numbers from `n` on and
below `m`, in any order. -/
structure Drawn (f : Fragment) (n m : Nat) : Prop where
  le : n ≤ m
  tokens : f.tokens.Perm (List.range' n (m - n))
  bound : f.Bound

theorem Numbered.drawn {f : Fragment} {n m : Nat} (h : f.Numbered n m) : f.Drawn n m :=
  ⟨h.le, .of_eq h.tokens, h.bound⟩

end Fragment

open Fragment

/-! ### What compilations yield -/

theorem Reference.StepsCompiled.numbered {steps : List PathStep} {n m : Nat} {f : Fragment}
    (h : Reference.StepsCompiled steps n f m) : f.Numbered n m := by
  induction h with
  | nil => exact numbered_empty _
  | field _ ih => exact ((numbered_symbol _).append (numbered_name _ _)).append ih
  | index _ ih => exact (numbered_symbol _).append ih

theorem Reference.Compiled.numbered {r : Reference} {n m : Nat} {f : Fragment}
    (h : r.Compiled n f m) : f.Numbered n m := by
  obtain ⟨name, g, -, hg, rfl⟩ := h
  exact (numbered_name n name).append hg.numbered

theorem Operand.Compiled.numbered {o : Operand} {n m : Nat} {f : Fragment}
    (h : o.Compiled n f m) : f.Numbered n m := by
  induction h with
  | path hr => exact hr.numbered
  | literal _ => exact numbered_value _ _
  | size hr => exact hr.numbered.call_one .size
  | arithmetic _ _ ihf ihg => exact ihf.separated ihg
  | ifNotExists hr _ ih => exact hr.numbered.call_two ih .ifNotExists
  | listAppend _ _ ihf ihg => exact ihf.call_two ihg .listAppend

theorem Condition.numbered_nested {f : Fragment} {n m : Nat} (h : f.Numbered n m)
    (c : Condition) : (c.nested f).Numbered n m := by
  unfold Condition.nested
  split
  · exact h.parenthesised
  · exact h

/-- What a condition compiles to carries, from the left, the numbers that were drawn. -/
theorem Condition.Compiled.numbered {c : Condition} {n m : Nat} {f : Fragment}
    (h : c.Compiled n f m) : f.Numbered n m := by
  induction h with
  | compare hf hg => exact hf.numbered.separated hg.numbered
  | between hf hg hh => exact (hf.numbered.separated hg.numbered).separated hh.numbered
  | beginsWith hf hg => exact hf.numbered.call_two hg.numbered .beginsWith
  | contains hf hg => exact hf.numbered.call_two hg.numbered .contains
  | «exists» hf => exact hf.numbered.call_one .attributeExists
  | notExists hf => exact hf.numbered.call_one .attributeNotExists
  | hasType hf => exact hf.numbered.call_two (numbered_value _ _) .attributeType
  | among _ hf hgs =>
    have hitems := hgs.imp fun _ _ _ _ ho => Operand.Compiled.numbered ho
    exact hf.numbered.separated (numbered_join hitems).parenthesised
  | joined _ _ ihf ihg =>
    exact (numbered_nested ihf _).separated (numbered_nested ihg _)

theorem UpdateAction.Compiled.numbered {a : UpdateAction} {n m : Nat} {f : Fragment}
    (h : a.Compiled n f m) : f.Numbered n m := by
  cases h with
  | set hf hg => exact hf.numbered.separated hg.numbered
  | remove hf => exact hf.numbered
  | add hf _ _ => exact hf.numbered.separated (numbered_value _ _)
  | delete hf _ _ => exact hf.numbered.separated (numbered_value _ _)

/-- What a projection compiles to carries, from the left, the numbers that were drawn. -/
theorem Projection.numbered_of_runFrom {p : Projection} {n m : Nat} {f : Fragment}
    (h : Compile.runFrom p.compile n = (.ok f, m)) : f.Numbered n m := by
  obtain ⟨fs, hfs, rfl⟩ := Projection.runFrom_compile_eq_ok.mp h
  exact numbered_join (hfs.imp fun _ _ _ _ hr => Reference.Compiled.numbered hr)

/-! ### Grouping by clause -/

namespace Update

theorem clauseOf_eq (compiled : List (Clause × Fragment)) (c : Clause) :
    clauseOf compiled c =
      if (compiled.filter fun entry => entry.1 = c).isEmpty then none
      else some (.symbol (.clause c) ++ .symbol .space ++
        .join .comma ((compiled.filter fun entry => entry.1 = c).map Prod.snd)) := by
  unfold clauseOf
  cases compiled.filter fun entry => entry.1 = c with
  | nil => rfl
  | cons entry entries => rfl

/-- The fragments of a clause carry the placeholders of its actions. -/
theorem tokens_clauseOf (compiled : List (Clause × Fragment)) (c : Clause) :
    ((clauseOf compiled c).toList.flatMap Fragment.tokens) =
      (compiled.filter fun entry => entry.1 = c).flatMap fun entry => entry.2.tokens := by
  rw [clauseOf_eq]
  split
  · next hempty =>
    rw [List.isEmpty_iff.mp hempty]
    rfl
  · rw [Option.toList_some, List.flatMap_singleton, Fragment.tokens_append,
      Fragment.tokens_append, tokens_symbol, tokens_symbol, tokens_join, List.flatMap_map]
    rfl

/-- The fragment of a clause binds what its actions bind. -/
theorem bound_clauseOf {compiled : List (Clause × Fragment)} {c : Clause} {f : Fragment}
    (hf : clauseOf compiled c = some f) (hbound : ∀ entry ∈ compiled, entry.2.Bound)
    (hnodup : f.tokens.Nodup) : f.Bound := by
  rw [clauseOf_eq] at hf
  split at hf
  · cases hf
  · cases hf
    have hword : (symbol (.clause c) ++ symbol .space).Bound :=
      Bound.append bound_symbol bound_symbol List.nodup_nil
    have hactions : ∀ g ∈ (compiled.filter fun entry => entry.1 = c).map Prod.snd, g.Bound := by
      intro g hg
      obtain ⟨entry, hentry, rfl⟩ := List.mem_map.mp hg
      exact hbound entry (List.mem_of_mem_filter hentry)
    rw [Fragment.tokens_append] at hnodup
    have hdistinct := hnodup.of_append_right
    rw [tokens_join] at hdistinct
    exact hword.append (join_bound hactions hdistinct) hnodup

/-- Every action belongs to one clause. -/
theorem flatMap_clause_perm {α : Type} (compiled : List (Clause × α)) :
    (Clause.all.flatMap fun c => compiled.filter fun entry => entry.1 = c).Perm compiled := by
  induction compiled with
  | nil => rfl
  | cons entry compiled ih =>
    refine .trans ?_ (ih.cons entry)
    obtain ⟨c, a⟩ := entry
    cases c with
    | set => simp [Clause.all]
    | add => simp [Clause.all, List.perm_middle]
    -- The entry is moved over those of the clauses before its own.
    | delete =>
      simp only [Clause.all, List.flatMap_cons]
      exact .trans (.append_left _ List.perm_middle) List.perm_middle
    | remove =>
      simp only [Clause.all, List.flatMap_cons]
      exact .trans (.append_left _ (.trans (.append_left _ List.perm_middle) List.perm_middle))
        List.perm_middle

/-- Grouping keeps the placeholders, in another order. -/
theorem tokens_grouped (compiled : List (Clause × Fragment)) :
    (grouped compiled).tokens.Perm (compiled.flatMap fun entry => entry.2.tokens) := by
  have hclauses : ∀ cs : List Clause, ((cs.filterMap (clauseOf compiled)).flatMap
      Fragment.tokens) = (cs.flatMap fun c => compiled.filter fun entry => entry.1 = c).flatMap
        fun entry => entry.2.tokens := by
    intro cs
    induction cs with
    | nil => rfl
    | cons c cs ih =>
      rw [List.flatMap_cons, List.flatMap_append, ← ih, ← tokens_clauseOf]
      cases hc : clauseOf compiled c with
      | none => simp [hc]
      | some f => simp [hc]
  unfold grouped
  rw [tokens_join, hclauses]
  exact (flatMap_clause_perm compiled).flatMap_right _

/-- What an update compiles to binds its placeholders, and these are the numbers that were
drawn. -/
theorem drawn_of_runFrom {u : Update} {n m : Nat} {f : Fragment}
    (h : Compile.runFrom u.compile n = (.ok f, m)) : f.Drawn n m := by
  obtain ⟨compiled, hactions, rfl⟩ := runFrom_compile_eq_ok.mp h
  obtain ⟨hle, htokens, hbound⟩ := each_numbered (fun entry : Clause × Fragment => entry.2)
    (hactions.imp fun _ _ _ _ ha => ha.2.numbered)
  -- The clauses have the numbers of the actions in another order, hence none in common.
  have hperm := tokens_grouped compiled
  rw [htokens] at hperm
  have hdistinct : ((Clause.all.filterMap (clauseOf compiled)).flatMap Fragment.tokens).Nodup := by
    have hjoined : (grouped compiled).tokens = _ := tokens_join _
    rw [← hjoined]
    exact hperm.nodup_iff.mpr List.nodup_range'
  refine ⟨hle, hperm, join_bound ?_ hdistinct⟩
  intro g hg
  obtain ⟨c, -, hc⟩ := List.mem_filterMap.mp hg
  exact bound_clauseOf hc hbound ((List.nodup_flatMap.mp hdistinct).1 g hg)

end Update

end ItemStore
