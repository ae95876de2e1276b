import Mathlib.Data.List.ReduceOption
import ItemStore.Proofs.Binding
import ItemStore.Proofs.Mention

/-!
# Counting from another number

A compilation draws its numbers from a counter that others may have used before it.  Where
the counter stands decides the numbers and nothing else: the same trees, compiled from a
number that is larger by `k`, fail with the same error or yield the same expressions with
every number larger by `k`, in the text and in what is bound.

## Main definitions

* `Symbol.renumber`, `Fragment.renumber` — other numbers for the placeholders.
* `renumberText`, `Written.renumber` — the same in a text, and in a fragment as it is written.
* `Compile.Shifted` — a compilation does from a larger number what another one does.
* `Compilation` — whatever is compiled by itself: a tree, an update or a query.

## Main results

* `Symbol.renumberText_render` — renumbering the symbols is renumbering their text.
* `Piece.shifted_assemble` — rows of pieces are compiled in the same way from every number.
* `Compilation.written_runFrom` — so is everything else.
-/

namespace ItemStore

open Compile (runFrom)

/-! ### Other numbers -/

namespace Dict

variable {κ κ' α : Type}

/-- The entries under other keys. -/
def mapKeys (g : κ → κ') (d : Dict κ α) : Dict κ' α := d.map fun e => (g e.1, e.2)

@[simp] theorem mapKeys_nil (g : κ → κ') : mapKeys g ([] : Dict κ α) = [] := rfl

@[simp] theorem mapKeys_cons (g : κ → κ') (e : κ × α) (d : Dict κ α) :
    mapKeys g (e :: d) = (g e.1, e.2) :: mapKeys g d := rfl

@[simp] theorem mapKeys_append (g : κ → κ') (d e : Dict κ α) :
    mapKeys g (d ++ e) = mapKeys g d ++ mapKeys g e := List.map_append

theorem mapKeys_mapKeys {κ'' : Type} (g : κ → κ') (h : κ' → κ'') (d : Dict κ α) :
    mapKeys h (mapKeys g d) = mapKeys (h ∘ g) d := by
  simp [mapKeys]

variable [DecidableEq κ] [DecidableEq κ']

theorem mapKeys_insert {g : κ → κ'} (hg : Function.Injective g) (d : Dict κ α) (k : κ) (v : α) :
    mapKeys g (insert d k v) = insert (mapKeys g d) (g k) v := by
  induction d with
  | nil => rfl
  | cons e d ih =>
    obtain ⟨c, w⟩ := e
    by_cases hc : c = k
    · simp [insert, hc]
    · simp [insert, hc, hg.ne hc, ih]

/-- Keys that stay apart are overwritten as before. -/
theorem mapKeys_union {g : κ → κ'} (hg : Function.Injective g) (d e : Dict κ α) :
    mapKeys g (union d e) = union (mapKeys g d) (mapKeys g e) := by
  induction e generalizing d with
  | nil => rfl
  | cons p e ih => rw [union_cons, ih, mapKeys_insert hg, mapKeys_cons, union_cons]

end Dict

namespace Symbol

/-- The symbol with another number, if it is a placeholder. -/
def renumber (ρ : Nat → Nat) : Symbol → Symbol
  | .name number => .name (ρ number)
  | .value number => .value (ρ number)
  | s => s

theorem renumber_of_isSign {s : Symbol} (hs : s.IsSign) (ρ : Nat → Nat) : s.renumber ρ = s := by
  cases s with
  | name number => cases hs
  | value number => cases hs
  | _ => rfl

theorem renumber_renumber (ρ σ : Nat → Nat) (s : Symbol) :
    (s.renumber ρ).renumber σ = s.renumber (σ ∘ ρ) := by
  cases s <;> rfl

end Symbol

namespace Fragment

/-- The fragment with other numbers, in its symbols and in what it binds. -/
def renumber (ρ : Nat → Nat) (f : Fragment) : Fragment :=
  ⟨f.symbols.map (Symbol.renumber ρ), f.names.mapKeys ρ, f.values.mapKeys ρ⟩

/-- The fragment with every number larger by `k`. -/
def shift (k : Nat) (f : Fragment) : Fragment := f.renumber (· + k)

theorem renumber_renumber (ρ σ : Nat → Nat) (f : Fragment) :
    (f.renumber ρ).renumber σ = f.renumber (σ ∘ ρ) := by
  simp only [renumber, List.map_map, Dict.mapKeys_mapKeys]
  congr 2
  exact funext fun s => s.renumber_renumber ρ σ

theorem renumber_symbol {s : Symbol} (ρ : Nat → Nat) (hs : s.IsSign := by exact rfl) :
    (symbol s).renumber ρ = symbol s := by
  simp [renumber, symbol, Symbol.renumber_of_isSign hs]

theorem renumber_beside (ρ : Nat → Nat) (f g : Fragment) :
    (f.beside g).renumber ρ = (f.renumber ρ).beside (g.renumber ρ) := by
  simp [renumber, beside]

section Injective

variable {ρ : Nat → Nat} (hρ : Function.Injective ρ)
include hρ

theorem renumber_append (f g : Fragment) :
    (f ++ g).renumber ρ = f.renumber ρ ++ g.renumber ρ := by
  show (⟨(f.symbols ++ g.symbols).map (Symbol.renumber ρ), (f.names.union g.names).mapKeys ρ,
    (f.values.union g.values).mapKeys ρ⟩ : Fragment) = _
  rw [List.map_append, Dict.mapKeys_union hρ, Dict.mapKeys_union hρ]
  rfl

theorem renumber_join {separator : Symbol} (fs : List Fragment)
    (hs : separator.IsSign := by exact rfl) :
    (join separator fs).renumber ρ = join separator (fs.map (renumber ρ)) := by
  induction fs with
  | nil => rfl
  | cons f fs ih =>
    cases fs with
    | nil => rfl
    | cons g fs =>
      rw [join_cons_cons, renumber_append hρ, renumber_append hρ, renumber_symbol ρ hs, ih]
      rfl

end Injective

end Fragment

namespace Update

variable {ρ : Nat → Nat} (hρ : Function.Injective ρ)
include hρ

theorem renumber_clauseOf (compiled : List (Clause × Fragment)) (c : Clause) :
    clauseOf (compiled.map (Prod.map id (Fragment.renumber ρ))) c =
      (clauseOf compiled c).map (Fragment.renumber ρ) := by
  have hfilter : (compiled.map (Prod.map id (Fragment.renumber ρ))).filter (fun e => e.1 = c) =
      (compiled.filter fun e => e.1 = c).map (Prod.map id (Fragment.renumber ρ)) :=
    List.filter_map
  rw [clauseOf_eq, clauseOf_eq, hfilter, List.isEmpty_map]
  split
  · rfl
  · rw [Option.map_some, Fragment.renumber_append hρ, Fragment.renumber_append hρ,
      Fragment.renumber_symbol, Fragment.renumber_symbol, Fragment.renumber_join hρ,
      List.map_map, List.map_map]
    rfl

/-- Grouping does not look at the numbers. -/
theorem renumber_grouped (compiled : List (Clause × Fragment)) :
    (grouped compiled).renumber ρ =
      grouped (compiled.map (Prod.map id (Fragment.renumber ρ))) := by
  rw [grouped, grouped, Fragment.renumber_join hρ, List.map_filterMap]
  simp only [renumber_clauseOf hρ]

end Update

/-! ### Other numbers in a text -/

namespace Lexeme

/-- A lexeme with another number, if it is a placeholder. -/
def renumber (ρ : Nat → Nat) : List Char → List Char
  | '#' :: 'n' :: digits => '#' :: 'n' :: Nat.toDigits 10 (ρ (Symbol.numberOf digits))
  | ':' :: 'v' :: digits => ':' :: 'v' :: Nat.toDigits 10 (ρ (Symbol.numberOf digits))
  | cs => cs

/-- A text, given as characters, with other numbers in its placeholders. -/
def renumberAll (ρ : Nat → Nat) (cs : List Char) : List Char :=
  (cs.splitBy joins).flatMap (renumber ρ)

theorem renumberAll_append (ρ : Nat → Nat) {cs ds : List Char}
    (h : ∀ a ∈ cs.getLast?, ∀ b ∈ ds.head?, joins a b = false) :
    renumberAll ρ (cs ++ ds) = renumberAll ρ cs ++ renumberAll ρ ds := by
  unfold renumberAll
  rw [List.splitBy_append h, List.flatMap_append]

theorem renumber_of_not_mem (ρ : Nat → Nat) {cs : List Char} (h : '#' ∉ cs ∧ ':' ∉ cs) :
    renumber ρ cs = cs := by
  unfold renumber
  split
  · exact absurd (List.mem_cons_self ..) h.1
  · exact absurd (List.mem_cons_self ..) h.2
  · rfl

/-- Nothing is changed where no placeholder begins. -/
theorem renumberAll_of_not_mem (ρ : Nat → Nat) {cs : List Char}
    (h : '#' ∉ cs ∧ ':' ∉ cs) : renumberAll ρ cs = cs := by
  have hruns : (cs.splitBy joins).map (renumber ρ) = (cs.splitBy joins).map id := by
    refine List.map_congr_left fun run hrun => ?_
    have hmem : ∀ c ∈ run, c ∈ cs := by
      intro c hc
      rw [← List.flatten_splitBy joins cs]
      exact List.mem_flatten_of_mem hrun hc
    exact renumber_of_not_mem ρ ⟨fun hc => h.1 (hmem _ hc), fun hc => h.2 (hmem _ hc)⟩
  rw [renumberAll, List.flatMap_def, hruns, List.map_id, List.flatten_splitBy]

/-- A placeholder is one lexeme. -/
theorem renumberAll_token (ρ : Nat → Nat) {a b : Char} (ha : isWord a) (hb : isWord b) (n : Nat) :
    renumberAll ρ (a :: b :: Nat.toDigits 10 n) = renumber ρ (a :: b :: Nat.toDigits 10 n) := by
  have hchain := Symbol.isChain_token ha hb n
  rw [renumberAll, List.splitBy_of_isChain (by simp) hchain, List.flatMap_singleton]

end Lexeme

/-- A text with other numbers in its placeholders. -/
def renumberText (ρ : Nat → Nat) (text : String) : String :=
  String.ofList (Lexeme.renumberAll ρ text.toList)

namespace Symbol

open Lexeme

theorem renumberAll_text (ρ : Nat → Nat) (s : Symbol) :
    renumberAll ρ s.text.toList = (s.renumber ρ).text.toList := by
  cases s with
  | name number =>
    show renumberAll ρ (nameToken number).toList = (nameToken (ρ number)).toList
    rw [toList_nameToken, toList_nameToken, renumberAll_token ρ rfl rfl]
    simp only [Lexeme.renumber, numberOf_toDigits]
  | value number =>
    show renumberAll ρ (valueToken number).toList = (valueToken (ρ number)).toList
    rw [toList_valueToken, toList_valueToken, renumberAll_token ρ rfl rfl]
    simp only [Lexeme.renumber, numberOf_toDigits]
  | index position =>
    have hdigits : ∀ {c : Char}, c ∈ Nat.toDigits 10 position → c.isDigit := fun hc =>
      Nat.isDigit_of_mem_toDigits (by decide) (by decide) hc
    have hmem : ∀ {c : Char}, ¬c.isDigit → c ∉ ['[', ']'] →
        c ∉ (text (.index position)).toList := by
      intro c hdigit hbracket hc
      rw [toList_text_index, List.mem_cons, List.mem_append] at hc
      rcases hc with rfl | hc | hc
      · exact hbracket (by decide)
      · exact hdigit (hdigits hc)
      · exact hbracket (List.mem_cons_of_mem _ hc)
    exact renumberAll_of_not_mem ρ ⟨hmem (by decide) (by decide), hmem (by decide) (by decide)⟩
  | comparator c => exact renumberAll_of_not_mem ρ (by cases c <;> decide)
  | connective c => exact renumberAll_of_not_mem ρ (by cases c <;> decide)
  | arithmetic o => exact renumberAll_of_not_mem ρ (by cases o <;> decide)
  | function f => exact renumberAll_of_not_mem ρ (by cases f <;> decide)
  | clause c => exact renumberAll_of_not_mem ρ (by cases c <;> decide)
  | _ => exact renumberAll_of_not_mem ρ (by decide)

/-- Renumbering the symbols is renumbering their text. -/
theorem renumberText_render (ρ : Nat → Nat) {row : List Symbol} (h : Spaced row) :
    renumberText ρ (render row) = render (row.map (Symbol.renumber ρ)) := by
  have hchars : renumberAll ρ (row.flatMap fun s => s.text.toList) =
      row.flatMap fun s => (s.renumber ρ).text.toList := by
    induction row with
    | nil => rfl
    | cons s row ih =>
      obtain ⟨hhead, htail⟩ := List.isChain_cons.mp h
      rw [List.flatMap_cons, renumberAll_append ρ (cut_text hhead), ih htail, renumberAll_text]
      rfl
  rw [renumberText, toList_render, hchars, ← String.toList_inj, String.toList_ofList,
    toList_render, List.flatMap_map]

/-- The position of a list element is no number of a placeholder. -/
example : renumberText (· + 90) "#n9.#n10[9] = :v11" = "#n99.#n100[9] = :v101" := by decide

theorem renumberText_nameToken (ρ : Nat → Nat) (number : Nat) :
    renumberText ρ (nameToken number) = nameToken (ρ number) := by
  simpa [render, text, Symbol.renumber] using
    renumberText_render ρ (spaced_singleton (.name number))

theorem renumberText_valueToken (ρ : Nat → Nat) (number : Nat) :
    renumberText ρ (valueToken number) = valueToken (ρ number) := by
  simpa [render, text, Symbol.renumber] using
    renumberText_render ρ (spaced_singleton (.value number))

end Symbol

/-- A fragment as it is written: its text, and its names and values by placeholder. -/
structure Written where
  text : String
  names : Dict String String
  values : Item

namespace Written

/-- The fragment with other numbers, in its text and in what it binds. -/
def renumber (ρ : Nat → Nat) (w : Written) : Written :=
  ⟨renumberText ρ w.text, w.names.mapKeys (renumberText ρ), w.values.mapKeys (renumberText ρ)⟩

end Written

namespace Fragment

/-- The fragment as it is written. -/
def written (f : Fragment) : Written := ⟨f.text, writtenNames f.names, writtenValues f.values⟩

/-- A fragment with other numbers is written with other numbers. -/
theorem written_renumber (ρ : Nat → Nat) {f : Fragment} (hf : f.Spaced) :
    (f.renumber ρ).written = f.written.renumber ρ := by
  have hnames : renumberText ρ ∘ Symbol.nameToken = Symbol.nameToken ∘ ρ :=
    funext fun k => Symbol.renumberText_nameToken ρ k
  have hvalues : renumberText ρ ∘ Symbol.valueToken = Symbol.valueToken ∘ ρ :=
    funext fun k => Symbol.renumberText_valueToken ρ k
  unfold written Written.renumber
  congr 1
  · exact (Symbol.renumberText_render ρ hf).symm
  · show Dict.mapKeys Symbol.nameToken (Dict.mapKeys ρ f.names) =
      Dict.mapKeys (renumberText ρ) (Dict.mapKeys Symbol.nameToken f.names)
    rw [Dict.mapKeys_mapKeys, Dict.mapKeys_mapKeys, hnames]
  · show Dict.mapKeys Symbol.valueToken (Dict.mapKeys ρ f.values) =
      Dict.mapKeys (renumberText ρ) (Dict.mapKeys Symbol.valueToken f.values)
    rw [Dict.mapKeys_mapKeys, Dict.mapKeys_mapKeys, hvalues]

/-- One shift of a fragment is written like another, up to the numbers. -/
theorem written_shift {f : Fragment} {m : Nat} (hf : (f.shift m).Spaced) (n : Nat) :
    (f.shift n).written = (f.shift m).written.renumber fun number => number + n - m := by
  rw [← written_renumber _ hf, shift, shift, renumber_renumber]
  congr 2
  funext number
  simp only [Function.comp_apply]
  omega

end Fragment

/-! ### Compilations that start elsewhere -/

namespace Compile

variable {α β : Type} {k : Nat} {s : α → α} {t : β → β}

/-- Started at a number that is larger by `k`, the second compilation does what the first
one does: it fails with the same error or yields the same, changed by `s`, and the counter
ends at a number that is larger by `k`. -/
def Shifted (k : Nat) (s : α → α) (c d : Compile α) : Prop :=
  ∀ n, runFrom d (n + k) = ((runFrom c n).1.map s, (runFrom c n).2 + k)

theorem shifted_pure (k : Nat) (s : α → α) (a : α) : Shifted k s (pure a) (pure (s a)) :=
  fun _ => rfl

/-- Of two steps, the second one goes on with what the first one yields. -/
theorem Shifted.bind {c d : Compile α} {g g' : α → Compile β} (hc : Shifted k s c d)
    (hg : ∀ a, Shifted k t (g a) (g' (s a))) : Shifted k t (c >>= g) (d >>= g') := by
  intro n
  rw [runFrom_bind, runFrom_bind, hc n]
  rcases runFrom c n with ⟨r, l⟩
  cases r with
  | error e => rfl
  | ok a => exact hg a l

theorem Shifted.map {c d : Compile α} {g g' : α → β} (hc : Shifted k s c d)
    (hg : ∀ a, g' (s a) = t (g a)) :
    Shifted k t (do return g (← c)) (do return g' (← d)) := by
  refine hc.bind fun a => ?_
  rw [hg]
  exact shifted_pure k t (g a)

theorem shifted_mapM {ι : Type} {g : ι → Compile α} {as : List ι}
    (h : ∀ a ∈ as, Shifted k s (g a) (g a)) :
    Shifted k (List.map s) (as.mapM g) (as.mapM g) := by
  induction as with
  | nil => exact shifted_pure k (List.map s) []
  | cons a as ih =>
    obtain ⟨hhead, htail⟩ := List.forall_mem_cons.mp h
    rw [List.mapM_cons]
    exact hhead.bind fun b => (ih htail).map fun _ => rfl

theorem shifted_option_mapM {ι : Type} {g : ι → Compile α} {o : Option ι}
    (h : ∀ a ∈ o, Shifted k s (g a) (g a)) :
    Shifted k (Option.map s) (o.mapM g) (o.mapM g) := by
  cases o with
  | none => exact shifted_pure k (Option.map s) none
  | some a =>
    rw [Option.mapM_some, map_eq_pure_bind]
    exact (h a rfl).map fun _ => rfl

/-- What is so compiled from one number decides what is compiled from every other one. -/
theorem runFrom_of_shifted {shift : Nat → α → α} {c : Compile α}
    (h : ∀ k, Shifted k (shift k) c c) (n : Nat) :
    runFrom c n = ((runFrom c 0).1.map (shift n), (runFrom c 0).2 + n) := by
  have hrun := h n 0
  rwa [Nat.zero_add] at hrun

end Compile

open Compile (Shifted shifted_pure shifted_mapM shifted_option_mapM)

namespace Piece

open Fragment

theorem shifted_compile (k : Nat) (p : Piece) : Shifted k (shift k) p.compile p.compile := by
  intro n
  cases p with
  | sign s hs =>
    simp only [compile, Compile.runFrom_pure, Except.map, shift, renumber_symbol _ hs]
  | name s =>
    simp only [compile, Compile.runFrom_name, Except.map, Nat.add_right_comm]
    rfl
  | literal v =>
    rw [compile, Compile.runFrom_value, Compile.runFrom_value, Nat.add_right_comm]
    cases v.encode with
    | error e => rfl
    | ok w => rfl
  | fault e => rfl

/-- Rows of pieces are compiled in the same way from every number. -/
theorem shifted_assemble (k : Nat) (ps : List Piece) :
    Shifted k (shift k) (assemble ps) (assemble ps) := by
  induction ps with
  | nil => exact shifted_pure k (shift k) .empty
  | cons p ps ih =>
    rw [assemble_cons]
    exact (shifted_compile k p).bind fun f => ih.map fun g => (renumber_beside _ f g).symm

end Piece

theorem Expression.shifted_compile (k : Nat) (e : Expression) :
    Shifted k (Fragment.shift k) e.compile e.compile := by
  obtain ⟨ps, hps, -⟩ := e.exists_pieces
  rw [hps]
  exact Piece.shifted_assemble k ps

theorem Update.shifted_compile (k : Nat) (u : Update) :
    Shifted k (Fragment.shift k) u.compile u.compile := by
  have hactions : ∀ a ∈ u.actions, Shifted k (Prod.map id (Fragment.shift k))
      (do return (a.clause, ← a.compile)) (do return (a.clause, ← a.compile)) := by
    intro a _
    rw [a.compile_eq_assemble]
    exact (Piece.shifted_assemble k a.pieces).map fun _ => rfl
  rw [u.compile_eq_mapM]
  exact (shifted_mapM hactions).map fun compiled =>
    (renumber_grouped (fun _ _ h => Nat.add_right_cancel h) compiled).symm

/-! ### Whatever is compiled by itself -/

/-- Whatever is compiled by itself: a tree, an update or a query. -/
inductive Compilation
  | expression (e : Expression)
  | update (u : Update)
  | query (q : Query)

namespace Compilation

/-- The expressions of a compilation.  A tree and an update have one, and a query has one
for each half, if the half is there. -/
def compile : Compilation → Compile (List (Option Fragment))
  | expression e => do return [some (← e.compile)]
  | update u => do return [some (← u.compile)]
  | query q => do
    let compiled ← q.compile
    return [compiled.key, compiled.filter]

/-- Whatever is compiled is compiled in the same way from every number. -/
theorem shifted_compile (k : Nat) (c : Compilation) :
    Shifted k (List.map (Option.map (Fragment.shift k))) c.compile c.compile := by
  cases c with
  | expression e => exact (e.shifted_compile k).map fun _ => rfl
  | update u => exact (u.shifted_compile k).map fun _ => rfl
  | query q =>
    have hhalf : ∀ half : Option Condition, Shifted k (Option.map (Fragment.shift k))
        (half.mapM Condition.compile) (half.mapM Condition.compile) := fun half =>
      shifted_option_mapM fun c _ => Expression.shifted_compile k (.condition c)
    simp only [compile, Query.compile, bind_assoc, pure_bind]
    exact (hhalf q.key).bind fun key => (hhalf q.filter).map fun _ => rfl

/-- The expressions that are there are compiled one after the other. -/
theorem sequence_of_runFrom {c : Compilation} {n m : Nat} {places : List (Option Fragment)}
    (h : runFrom c.compile n = (.ok places, m)) :
    Fragment.Sequence n places.reduceOption m := by
  cases c with
  | expression e =>
    obtain ⟨f, l, hf, hpure⟩ := Compile.runFrom_bind_eq_ok.mp h
    cases hpure
    exact .single (Expression.numbered_of_runFrom hf).drawn (Expression.spaced_of_runFrom hf)
  | update u =>
    obtain ⟨f, l, hf, hpure⟩ := Compile.runFrom_bind_eq_ok.mp h
    cases hpure
    exact Update.sequence_compile hf
  | query q =>
    obtain ⟨compiled, l, hcompiled, hpure⟩ := Compile.runFrom_bind_eq_ok.mp h
    cases hpure
    simp only [Query.compile, Compile.runFrom_bind_eq_ok, Compile.runFrom_pure_eq_ok] at hcompiled
    obtain ⟨key, i, hkey, filter, j, hfilter, rfl, rfl⟩ := hcompiled
    have hhalves := (Condition.sequence_mapM hkey).append (Condition.sequence_mapM hfilter)
    cases key <;> cases filter <;> exact hhalves

/-- **What was compiled before does not matter.**

From two numbers, the same compilation fails with the same error or yields the same
expressions as they are written, up to the numbers: in the text, in the names and in the
values, each number is as much larger as the one start is than the other.  It draws equally
many. -/
theorem written_runFrom (c : Compilation) (m n : Nat) :
    (runFrom c.compile n).1.map (List.map (Option.map Fragment.written)) =
        (runFrom c.compile m).1.map (List.map (Option.map fun f =>
          f.written.renumber fun number => number + n - m)) ∧
      (∀ places, (runFrom c.compile m).1 = .ok places →
        ∀ f ∈ places.reduceOption, ∀ number ∈ f.tokens, m ≤ number) ∧
      ∃ drawn, (runFrom c.compile m).2 = m + drawn ∧ (runFrom c.compile n).2 = n + drawn := by
  have hruns := Compile.runFrom_of_shifted fun k => c.shifted_compile k
  have hm := hruns m
  have hn := hruns n
  clear hruns
  generalize runFrom c.compile 0 = start at hm hn
  obtain ⟨r, drawn⟩ := start
  refine ⟨?_, ?_, drawn, by rw [hm, Nat.add_comm], by rw [hn, Nat.add_comm]⟩
  · rw [hm, hn]
    cases r with
    | error e => rfl
    | ok places =>
      have hsequence := sequence_of_runFrom hm
      rw [List.reduceOption_map] at hsequence
      simp only [Except.map, List.map_map, Except.ok.injEq]
      refine List.map_congr_left fun place hplace => ?_
      cases place with
      | none => rfl
      | some f =>
        have hmem := List.mem_map_of_mem (f := Fragment.shift m)
          (List.reduceOption_mem_iff.mpr hplace)
        simp only [Function.comp_apply, Option.map_some,
          Fragment.written_shift (hsequence.mem _ hmem).2 n]
  · intro places hplaces f hf number hnumber
    exact ((sequence_of_runFrom (Prod.ext hplaces rfl)).bounds f hf number hnumber).1

end Compilation

end ItemStore
