import ItemStore.Proofs.Lexeme

/-!
# The grammar of condition expressions

A condition expression joins atoms by `AND` and `OR`.  An atom is a comparison, a range, a
membership test or a function call; `AND` binds tighter than `OR`, and parentheses group.
The grammar leaves open how a chain of one connective is grouped, and does not say which
`AND` belongs to a range.

A reading is found out by walking through the row of symbols with the number of open
parentheses and whether a range still waits for its `AND`.  A *joint* is a connective that
is met outside all parentheses and does not belong to a range.  Atoms and groups have no
joint, so a row of two such parts around a connective can be taken apart in one way only.

## Main definitions

* `Logic` — trees of `AND` and `OR` over atoms.
* `Grammar.Phrase`, `Grammar.Atom` — the rows of operands and of atoms.
* `Grammar.Derives` — the rows of conditions, with their trees.
* `Grammar.Reads` — the trees as which a text can be read.
* `Grammar.joints` — the number of joints of a row.

## Main results

* `Grammar.eq_of_joint_eq` — a row is taken apart at its only joint.
* `Grammar.Decided.joined` — two parts without a joint decide how they are read together.
-/

namespace ItemStore

/-! ### Trees -/

/-- A tree of connectives over atoms. -/
inductive Logic (α : Type)
  | atom (a : α)
  | joined (connective : Connective) (left right : Logic α)
  deriving DecidableEq

namespace Logic

variable {α β : Type}

/-- The atoms, from left to right. -/
def atoms : Logic α → List α
  | .atom a => [a]
  | .joined _ left right => left.atoms ++ right.atoms

/-- The truth of a tree, given that of the atoms. -/
def eval (truth : α → Bool) : Logic α → Bool
  | .atom a => truth a
  | .joined connective left right => connective.eval (left.eval truth) (right.eval truth)

/-- Compile the atoms from the left; the tree stays. -/
def mapM (g : α → Compile β) : Logic α → Compile (Logic β)
  | .atom a => do return .atom (← g a)
  | .joined connective left right => do
    let l ← left.mapM g
    let r ← right.mapM g
    return .joined connective l r

theorem runFrom_mapM_joined {g : α → Compile β} {connective : Connective} {left right : Logic α}
    {s t : Logic β} {n l m : Nat} (hs : Compile.runFrom (left.mapM g) n = (.ok s, l))
    (ht : Compile.runFrom (right.mapM g) l = (.ok t, m)) :
    Compile.runFrom ((Logic.joined connective left right).mapM g) n =
      (.ok (.joined connective s t), m) := by
  simp only [mapM, Compile.runFrom_bind, hs, ht, Compile.runFrom_pure]

theorem length_atoms_of_mapM {g : α → Compile β} {s : Logic α} {t : Logic β} {n m : Nat}
    (h : Compile.runFrom (s.mapM g) n = (.ok t, m)) : t.atoms.length = s.atoms.length := by
  induction s generalizing t n m with
  | atom a =>
    simp only [mapM, Compile.runFrom_bind_eq_ok, Compile.runFrom_pure_eq_ok] at h
    obtain ⟨b, l, -, rfl, -⟩ := h
    rfl
  | joined connective left right ihl ihr =>
    simp only [mapM, Compile.runFrom_bind_eq_ok, Compile.runFrom_pure_eq_ok] at h
    obtain ⟨l, i, hl, r, j, hr, rfl, -⟩ := h
    rw [atoms, atoms, List.length_append, List.length_append, ihl hl, ihr hr]

/-- The atoms of two trees are true together, from left to right. -/
def Agree (s : Logic α) (t : Logic β) (truth : α → Bool) (truth' : β → Bool) : Prop :=
  ∀ p ∈ s.atoms.zip t.atoms, truth' p.2 = truth p.1

/-- Pairwise different labels can be given any truth. -/
theorem exists_label {γ : Type} {l : List γ} {label : γ → β} (hnodup : (l.map label).Nodup)
    (truth : γ → Bool) : ∃ truth' : β → Bool, ∀ x ∈ l, truth' (label x) = truth x := by
  classical
  refine ⟨fun b => decide (∃ x ∈ l, label x = b ∧ truth x = true), ?_⟩
  intro x hx
  have hiff : (∃ y ∈ l, label y = label x ∧ truth y = true) ↔ truth x = true := by
    constructor
    · rintro ⟨y, hy, hyx, htruth⟩
      -- No other item has the label of `x`.
      rwa [List.inj_on_of_nodup_map hnodup hy hx hyx] at htruth
    · intro htruth
      exact ⟨x, hx, rfl, htruth⟩
  simp only [hiff, Bool.decide_eq_true]

/-- Pairwise different atoms can be made to agree with any others. -/
theorem exists_agree {s : Logic α} {t : Logic β} (hlength : t.atoms.length ≤ s.atoms.length)
    (ht : t.atoms.Nodup) (truth : α → Bool) : ∃ truth', s.Agree t truth truth' := by
  have hnodup : ((s.atoms.zip t.atoms).map Prod.snd).Nodup := by
    rwa [List.map_snd_zip hlength]
  exact exists_label hnodup fun p => truth p.1

/-- A compiled tree is true where the tree is, if its atoms are. -/
theorem eval_of_mapM {g : α → Compile β} {s : Logic α} {t : Logic β} {n m : Nat}
    (h : Compile.runFrom (s.mapM g) n = (.ok t, m)) {truth : α → Bool} {truth' : β → Bool}
    (hatoms : s.Agree t truth truth') : t.eval truth' = s.eval truth := by
  induction s generalizing t n m with
  | atom a =>
    simp only [mapM, Compile.runFrom_bind_eq_ok, Compile.runFrom_pure_eq_ok] at h
    obtain ⟨b, l, -, rfl, -⟩ := h
    exact hatoms (a, b) (by simp [atoms])
  | joined connective left right ihl ihr =>
    simp only [mapM, Compile.runFrom_bind_eq_ok, Compile.runFrom_pure_eq_ok] at h
    obtain ⟨l, i, hl, r, j, hr, rfl, -⟩ := h
    rw [Agree, atoms, atoms, List.zip_append (length_atoms_of_mapM hl).symm] at hatoms
    rw [eval, eval, ihl hl fun p hp => hatoms p (List.mem_append_left _ hp),
      ihr hr fun p hp => hatoms p (List.mem_append_right _ hp)]

end Logic

/-! ### The grammar -/

/-- The number of arguments of a function. -/
def FunctionName.arity : FunctionName → Nat
  | .size => 1
  | .attributeExists => 1
  | .attributeNotExists => 1
  | _ => 2

/-- Whether a function is a test, and not part of an operand. -/
def FunctionName.isTest : FunctionName → Bool
  | .size => false
  | .ifNotExists => false
  | .listAppend => false
  | _ => true

namespace Grammar

/-- The kinds of phrases inside an atom. -/
inductive Kind
  | steps
  | operand
  /-- A number of operands with commas between them. -/
  | operands (count : Nat)

/-- The rows of a kind of phrase. -/
inductive Phrase : Kind → List Symbol → Prop
  | done : Phrase .steps []
  | field {number : Nat} {row : List Symbol} :
    Phrase .steps row → Phrase .steps ([.dot, .name number] ++ row)
  | index {position : Nat} {row : List Symbol} :
    Phrase .steps row → Phrase .steps ([.index position] ++ row)
  | path {number : Nat} {row : List Symbol} :
    Phrase .steps row → Phrase .operand ([.name number] ++ row)
  | value {number : Nat} : Phrase .operand [.value number]
  /-- A function of operands that is no test. -/
  | call (function : FunctionName) {row : List Symbol} :
    function.isTest = false → Phrase (.operands function.arity) row →
      Phrase .operand ([.function function] ++ ([.opening] ++ row ++ [.closing]))
  | arithmetic {o : Arithmetic} {left right : List Symbol} :
    Phrase .operand left → Phrase .operand right →
      Phrase .operand (left ++ [.arithmetic o] ++ right)
  | one {row : List Symbol} : Phrase .operand row → Phrase (.operands 1) row
  | more {count : Nat} {row rest : List Symbol} :
    Phrase .operand row → Phrase (.operands count) rest →
      Phrase (.operands (count + 1)) (row ++ [.comma] ++ rest)

/-- The rows of atoms. -/
inductive Atom : List Symbol → Prop
  | compare {c : Comparator} {left right : List Symbol} :
    Phrase .operand left → Phrase .operand right → Atom (left ++ [.comparator c] ++ right)
  | between {row low high : List Symbol} :
    Phrase .operand row → Phrase .operand low → Phrase .operand high →
      Atom (row ++ [.between] ++ low ++ [.connective .and] ++ high)
  | among {count : Nat} {row candidates : List Symbol} :
    Phrase .operand row → Phrase (.operands count) candidates →
      Atom (row ++ [.among] ++ ([.opening] ++ candidates ++ [.closing]))
  /-- A function that is a test. -/
  | test (function : FunctionName) {row : List Symbol} :
    function.isTest → Phrase (.operands function.arity) row →
      Atom ([.function function] ++ ([.opening] ++ row ++ [.closing]))

/-- The rows of conditions, with their trees.  A tight row has no `OR` outside
parentheses: such are the sides of an `AND`. -/
inductive Derives : Bool → List Symbol → Logic (List Symbol) → Prop
  | atom {tight : Bool} {row : List Symbol} : Atom row → Derives tight row (.atom row)
  /-- A condition between parentheses. -/
  | group {tight : Bool} {row : List Symbol} {t : Logic (List Symbol)} :
    Derives false row t → Derives tight ([.opening] ++ row ++ [.closing]) t
  /-- Both of two conditions. -/
  | and {tight : Bool} {left right : List Symbol} {s t : Logic (List Symbol)} :
    Derives true left s → Derives true right t →
      Derives tight (left ++ [.connective .and] ++ right) (.joined .and s t)
  /-- At least one of two conditions. -/
  | or {left right : List Symbol} {s t : Logic (List Symbol)} :
    Derives false left s → Derives false right t →
      Derives false (left ++ [.connective .or] ++ right) (.joined .or s t)

/-- A text can be read as a tree. -/
def Reads (text : String) (t : Logic (List Symbol)) : Prop :=
  ∃ row, Symbol.scan text = some row ∧ Derives false row t

/-! ### Blanks -/

theorem Phrase.space_not_mem {kind : Kind} {row : List Symbol} (h : Phrase kind row) :
    .space ∉ row := by
  induction h with
  | done => simp
  | value => simp
  | one _ ih => exact ih
  | field _ ih => simpa using ih
  | index _ ih => simpa using ih
  | path _ ih => simpa using ih
  | call _ _ _ ih => simpa using ih
  | arithmetic _ _ ihl ihr => simpa using ⟨ihl, ihr⟩
  | more _ _ ih ihs => simpa using ⟨ih, ihs⟩

theorem Atom.space_not_mem {row : List Symbol} (h : Atom row) : .space ∉ row := by
  cases h with
  | compare hl hr => simpa using ⟨hl.space_not_mem, hr.space_not_mem⟩
  | between hx hl hh => simpa using ⟨hx.space_not_mem, hl.space_not_mem, hh.space_not_mem⟩
  | among hx hs => simpa using ⟨hx.space_not_mem, hs.space_not_mem⟩
  | test _ _ hs => simpa using hs.space_not_mem

/-- The blanks of a condition are those around its words. -/
theorem Derives.space_not_mem {tight : Bool} {row : List Symbol} {t : Logic (List Symbol)}
    (h : Derives tight row t) : .space ∉ row := by
  induction h with
  | atom ha => exact ha.space_not_mem
  | group _ ih => simpa using ih
  | and _ _ ihl ihr => simpa using ⟨ihl, ihr⟩
  | or _ _ ihl ihr => simpa using ⟨ihl, ihr⟩

/-! ### Placeholders -/

open ItemStore.Symbol

theorem Phrase.tokens_ne_nil {kind : Kind} {row : List Symbol} (h : Phrase kind row)
    (hkind : kind ≠ .steps) : tokens row ≠ [] := by
  induction h with
  | done => exact absurd rfl hkind
  | field _ _ => exact absurd rfl hkind
  | index _ _ => exact absurd rfl hkind
  | path _ _ => simp [tokens, token?]
  | value => simp [tokens, token?]
  | call _ _ _ ih => simpa [tokens, token?] using ih (by simp)
  | arithmetic _ _ ihl _ =>
    have hl := ihl (by simp)
    simp [hl]
  | one _ ih => exact ih (by simp)
  | more _ _ ih _ =>
    have hrow := ih (by simp)
    simp [hrow]

theorem Atom.tokens_ne_nil {row : List Symbol} (h : Atom row) : tokens row ≠ [] := by
  cases h with
  | compare hl _ => simp [hl.tokens_ne_nil (by simp)]
  | between hx _ _ => simp [hx.tokens_ne_nil (by simp)]
  | among hx _ => simp [hx.tokens_ne_nil (by simp)]
  | test _ _ hs => simpa [tokens, token?] using hs.tokens_ne_nil (by simp)

theorem Derives.atom_of_mem {tight : Bool} {row : List Symbol} {t : Logic (List Symbol)}
    (h : Derives tight row t) : ∀ a ∈ t.atoms, Atom a := by
  induction h with
  | atom ha =>
    intro a hmem
    obtain rfl := List.mem_singleton.mp hmem
    exact ha
  | group _ ih => exact ih
  | and _ _ ihl ihr => exact fun a ha => (List.mem_append.mp ha).elim (ihl a) (ihr a)
  | or _ _ ihl ihr => exact fun a ha => (List.mem_append.mp ha).elim (ihl a) (ihr a)

/-- The placeholders of a condition are those of its atoms, from the left. -/
theorem Derives.tokens_atoms {tight : Bool} {row : List Symbol} {t : Logic (List Symbol)}
    (h : Derives tight row t) : t.atoms.flatMap tokens = tokens row := by
  induction h with
  | atom _ => simp [Logic.atoms]
  | group _ ih =>
    rw [ih, tokens_append, tokens_append, tokens_singleton, tokens_singleton, List.nil_append,
      List.append_nil]
  | and _ _ ihl ihr =>
    rw [Logic.atoms, List.flatMap_append, ihl, ihr, tokens_append, tokens_append,
      tokens_singleton, List.append_nil]
  | or _ _ ihl ihr =>
    rw [Logic.atoms, List.flatMap_append, ihl, ihr, tokens_append, tokens_append,
      tokens_singleton, List.append_nil]

/-- Atoms in which no placeholder occurs twice are pairwise different. -/
theorem nodup_of_nodup_tokens {rows : List (List Symbol)} (hatoms : ∀ a ∈ rows, Atom a)
    (hnodup : (rows.flatMap tokens).Nodup) : rows.Nodup := by
  refine (List.nodup_flatMap.mp hnodup).2.imp_of_mem ?_
  rintro a b ha _ hdisjoint rfl
  -- Equal atoms would have a placeholder in common.
  obtain ⟨k, hk⟩ := List.exists_mem_of_ne_nil _ (hatoms a ha).tokens_ne_nil
  exact hdisjoint hk hk

/-- Where no placeholder occurs twice, no atom does. -/
theorem Derives.nodup_atoms {tight : Bool} {row : List Symbol} {t : Logic (List Symbol)}
    (h : Derives tight row t) (hnodup : (tokens row).Nodup) : t.atoms.Nodup := by
  rw [← h.tokens_atoms] at hnodup
  exact nodup_of_nodup_tokens h.atom_of_mem hnodup

/-! ### Joints -/

/-- Where a walk through a row stands: how many parentheses are open, and whether a range
outside all parentheses waits for its `AND`. -/
structure Place where
  depth : Nat
  pending : Bool

/-- Outside all parentheses and ranges. -/
def Place.top : Place := ⟨0, false⟩

/-- The place after a symbol. -/
def Place.after : Place → Symbol → Place
  | ⟨depth, pending⟩, .opening => ⟨depth + 1, pending⟩
  | ⟨depth, pending⟩, .closing => ⟨depth - 1, pending⟩
  | ⟨0, _⟩, .between => ⟨0, true⟩
  | ⟨0, _⟩, .connective .and => ⟨0, false⟩
  | place, _ => place

/-- Whether a symbol is a connective outside all parentheses that belongs to no range. -/
def Place.isJoint : Place → Symbol → Bool
  | ⟨0, _⟩, .connective .or => true
  | ⟨0, pending⟩, .connective .and => !pending
  | _, _ => false

/-- The place after a row. -/
def Place.walk (place : Place) (row : List Symbol) : Place := row.foldl Place.after place

/-- The number of joints of a row, from a place on. -/
def joints : Place → List Symbol → Nat
  | _, [] => 0
  | place, s :: row => (if place.isJoint s then 1 else 0) + joints (place.after s) row

@[simp] theorem walk_nil (place : Place) : place.walk [] = place := rfl

@[simp] theorem walk_cons (place : Place) (s : Symbol) (row : List Symbol) :
    place.walk (s :: row) = (place.after s).walk row := rfl

@[simp] theorem walk_append (place : Place) (r t : List Symbol) :
    place.walk (r ++ t) = (place.walk r).walk t :=
  List.foldl_append

@[simp] theorem joints_nil (place : Place) : joints place [] = 0 := rfl

theorem joints_cons (place : Place) (s : Symbol) (row : List Symbol) :
    joints place (s :: row) = (if place.isJoint s then 1 else 0) + joints (place.after s) row :=
  rfl

@[simp] theorem joints_append (place : Place) (r t : List Symbol) :
    joints place (r ++ t) = joints place r + joints (place.walk r) t := by
  induction r generalizing place with
  | nil => simp
  | cons s r ih => rw [List.cons_append, joints_cons, ih, joints_cons, walk_cons, Nat.add_assoc]

/-- A connective at the top is a joint and leads back to the top. -/
@[simp] theorem isJoint_top (c : Connective) : Place.top.isJoint (.connective c) = true := by
  cases c <;> rfl

@[simp] theorem after_top (c : Connective) : Place.top.after (.connective c) = .top := by
  cases c <;> rfl

/-- A row that leads back to the top without a joint. -/
structure Solid (row : List Symbol) : Prop where
  walk : Place.top.walk row = .top
  joints : joints .top row = 0

/-- A row that leads back to where it started, from everywhere, without a joint. -/
structure Quiet (row : List Symbol) : Prop where
  walk : ∀ place : Place, place.walk row = place
  joints : ∀ place, Grammar.joints place row = 0

/-- A row that, inside parentheses, leads back to where it started without a joint. -/
structure Inner (row : List Symbol) : Prop where
  walk : ∀ depth pending, Place.walk ⟨depth + 1, pending⟩ row = ⟨depth + 1, pending⟩
  joints : ∀ depth pending, Grammar.joints ⟨depth + 1, pending⟩ row = 0

theorem Quiet.solid {row : List Symbol} (h : Quiet row) : Solid row := ⟨h.walk _, h.joints _⟩

theorem Quiet.inner {row : List Symbol} (h : Quiet row) : Inner row :=
  ⟨fun _ _ => h.walk _, fun _ _ => h.joints _⟩

theorem Quiet.append {r t : List Symbol} (hr : Quiet r) (ht : Quiet t) : Quiet (r ++ t) :=
  ⟨fun place => by rw [walk_append, hr.walk, ht.walk],
    fun place => by rw [joints_append, hr.joints, hr.walk, ht.joints]⟩

theorem Inner.append {r t : List Symbol} (hr : Inner r) (ht : Inner t) : Inner (r ++ t) :=
  ⟨fun depth pending => by rw [walk_append, hr.walk, ht.walk],
    fun depth pending => by rw [joints_append, hr.joints, hr.walk, ht.joints]⟩

/-- Parentheses hide what is inside them. -/
theorem Inner.parenthesised {row : List Symbol} (h : Inner row) :
    Quiet ([.opening] ++ row ++ [.closing]) := by
  constructor
  · rintro ⟨depth, pending⟩
    rw [walk_append, walk_append]
    -- Past the opening parenthesis the depth is positive, where `row` is known.
    show (Place.walk ⟨depth + 1, pending⟩ row).after .closing = _
    rw [h.walk]
    rfl
  · rintro ⟨depth, pending⟩
    rw [joints_append, joints_append]
    show _ + Grammar.joints ⟨depth + 1, pending⟩ row +
      Grammar.joints (Place.walk ⟨depth + 1, pending⟩ row) _ = 0
    rw [h.joints, h.walk]
    cases depth <;> rfl

/-- Inside parentheses connectives and ranges do not count. -/
theorem inner_singleton {s : Symbol} (hopening : s ≠ .opening) (hclosing : s ≠ .closing) :
    Inner [s] := by
  constructor
  · intro depth pending
    cases s with
    | opening => exact absurd rfl hopening
    | closing => exact absurd rfl hclosing
    | connective c => cases c <;> rfl
    | _ => rfl
  · intro depth pending
    cases s with
    | connective c => cases c <;> rfl
    | _ => rfl

theorem quiet_nil : Quiet [] := ⟨fun _ => rfl, fun _ => rfl⟩

/-- The symbols that neither open nor close anything and join nothing. -/
def IsPlain : Symbol → Prop
  | .opening => False
  | .closing => False
  | .between => False
  | .connective _ => False
  | _ => True

theorem quiet_singleton {s : Symbol} (hs : IsPlain s := by exact trivial) : Quiet [s] := by
  constructor
  · rintro ⟨depth, pending⟩
    cases s with
    | opening => exact hs.elim
    | closing => exact hs.elim
    | between => exact hs.elim
    | connective c => exact hs.elim
    | _ => cases depth <;> rfl
  · rintro ⟨depth, pending⟩
    cases s with
    | connective c => exact hs.elim
    | _ => cases depth <;> rfl

/-- The phrases inside an atom join nothing. -/
theorem Phrase.quiet {kind : Kind} {row : List Symbol} (h : Phrase kind row) : Quiet row := by
  induction h with
  | done => exact quiet_nil
  | field _ ih =>
    exact (Quiet.append quiet_singleton quiet_singleton).append ih
  | index _ ih => exact Quiet.append quiet_singleton ih
  | path _ ih => exact Quiet.append quiet_singleton ih
  | value => exact quiet_singleton
  | call _ _ _ ih => exact Quiet.append quiet_singleton ih.inner.parenthesised
  | arithmetic _ _ ihl ihr => exact (ihl.append quiet_singleton).append ihr
  | one _ ih => exact ih
  | more _ _ ih ihs => exact (ih.append quiet_singleton).append ihs

/-- The `AND` of a range is no joint. -/
theorem Atom.solid {row : List Symbol} (h : Atom row) : Solid row := by
  cases h with
  | compare hl hr => exact ((hl.quiet.append quiet_singleton).append hr.quiet).solid
  | between hx hl hh =>
    -- The wait that starts at `BETWEEN` ends at the `AND` of the range.
    constructor
    · simp only [walk_append, hx.quiet.walk, walk_cons, walk_nil, hl.quiet.walk, hh.quiet.walk]
      rfl
    · simp only [joints_append, walk_append, hx.quiet.walk, hx.quiet.joints, walk_cons, walk_nil,
        hl.quiet.walk, hl.quiet.joints, hh.quiet.joints]
      rfl
  | among hx hs =>
    exact ((hx.quiet.append quiet_singleton).append hs.quiet.inner.parenthesised).solid
  | test _ _ hs => exact (Quiet.append quiet_singleton hs.quiet.inner.parenthesised).solid

theorem Atom.inner {row : List Symbol} (h : Atom row) : Inner row := by
  cases h with
  | compare hl hr => exact ((hl.quiet.append quiet_singleton).append hr.quiet).inner
  | between hx hl hh =>
    refine (((hx.quiet.inner.append ?_).append hl.quiet.inner).append ?_).append hh.quiet.inner
    · exact inner_singleton (by simp) (by simp)
    · exact inner_singleton (by simp) (by simp)
  | among hx hs =>
    exact ((hx.quiet.append quiet_singleton).append hs.quiet.inner.parenthesised).inner
  | test _ _ hs => exact (Quiet.append quiet_singleton hs.quiet.inner.parenthesised).inner

theorem Derives.inner {tight : Bool} {row : List Symbol} {t : Logic (List Symbol)}
    (h : Derives tight row t) : Inner row := by
  induction h with
  | atom ha => exact ha.inner
  | group _ ih => exact ih.parenthesised.inner
  | and _ _ ihl ihr =>
    exact (ihl.append (inner_singleton (by simp) (by simp))).append ihr
  | or _ _ ihl ihr =>
    exact (ihl.append (inner_singleton (by simp) (by simp))).append ihr

/-- A condition leads back to the top. -/
theorem Derives.walk_top {tight : Bool} {row : List Symbol} {t : Logic (List Symbol)}
    (h : Derives tight row t) : Place.top.walk row = .top := by
  induction h with
  | atom ha => exact ha.solid.walk
  | group hrow _ => exact hrow.inner.parenthesised.walk _
  | and _ _ ihl ihr => rw [walk_append, walk_append, ihl, walk_cons, after_top, walk_nil, ihr]
  | or _ _ ihl ihr => rw [walk_append, walk_append, ihl, walk_cons, after_top, walk_nil, ihr]

/-! ### Taking rows apart -/

/-- What leads to the top and is followed by a connective is followed by a joint. -/
theorem joints_pos {l r : List Symbol} (hl : Place.top.walk l = .top) (c : Connective) :
    0 < joints .top (l ++ [.connective c] ++ r) := by
  rw [joints_append, joints_append, hl, joints_cons, isJoint_top, if_pos rfl]
  omega

/-- A row with one joint is taken apart at it. -/
theorem eq_of_joint_eq {p q l r : List Symbol} {c d : Connective} (hp : Solid p) (hq : Solid q)
    (hl : Place.top.walk l = .top)
    (h : p ++ [.connective c] ++ q = l ++ [.connective d] ++ r) : p = l ∧ c = d ∧ q = r := by
  rw [List.append_assoc, List.append_assoc, List.append_eq_append_iff] at h
  rcases h with ⟨x, rfl, hx⟩ | ⟨x, rfl, hx⟩
  · cases x with
    | nil => simpa using hx
    | cons s x =>
      -- The second connective would be a joint of `q`.
      obtain ⟨rfl, rfl⟩ : .connective c = s ∧ q = x ++ [.connective d] ++ r := by simpa using hx
      have hx : Place.top.walk x = .top := by
        rwa [walk_append, hp.walk, walk_cons, after_top] at hl
      have hpos := joints_pos (r := r) hx d
      rw [hq.joints] at hpos
      exact absurd hpos (Nat.lt_irrefl 0)
  · cases x with
    | nil => simpa [eq_comm] using hx
    | cons s x =>
      -- The second connective would be a joint of `p`.
      obtain ⟨rfl, rfl⟩ : .connective d = s ∧ r = x ++ [.connective c] ++ q := by simpa using hx
      have hpos := joints_pos (r := x) hl d
      rw [List.append_assoc, List.singleton_append, hp.joints] at hpos
      exact absurd hpos (Nat.lt_irrefl 0)

/-- A row without a joint is not two conditions, joined. -/
theorem Solid.ne_joined {row l r : List Symbol} (h : Solid row) (hl : Place.top.walk l = .top)
    (c : Connective) : row ≠ l ++ [.connective c] ++ r := by
  rintro rfl
  have hpos := joints_pos (r := r) hl c
  rw [h.joints] at hpos
  exact Nat.lt_irrefl 0 hpos

theorem Phrase.head_isWord {row : List Symbol} (h : Phrase .operand row) :
    ∃ s rest, row = s :: rest ∧ s.isWord := by
  generalize hkind : Kind.operand = kind at h
  induction h with
  | path _ _ => exact ⟨_, _, rfl, rfl⟩
  | value => exact ⟨_, _, rfl, rfl⟩
  | call _ _ _ _ => exact ⟨_, _, rfl, rfl⟩
  | arithmetic _ _ ihl _ =>
    obtain ⟨s, rest, rfl, hs⟩ := ihl rfl
    exact ⟨s, _, rfl, hs⟩
  | _ => cases hkind

/-- An atom does not start with a parenthesis. -/
theorem Atom.ne_opening {row : List Symbol} (h : Atom row) (rest : List Symbol) :
    row ≠ .opening :: rest := by
  have hword : ∃ s rest, row = s :: rest ∧ s.isWord := by
    cases h with
    | compare hl _ =>
      obtain ⟨s, rest, rfl, hs⟩ := hl.head_isWord
      exact ⟨s, _, rfl, hs⟩
    | between hx _ _ =>
      obtain ⟨s, rest, rfl, hs⟩ := hx.head_isWord
      exact ⟨s, _, rfl, hs⟩
    | among hx _ =>
      obtain ⟨s, rest, rfl, hs⟩ := hx.head_isWord
      exact ⟨s, _, rfl, hs⟩
    | test _ _ _ => exact ⟨_, _, rfl, rfl⟩
  obtain ⟨s, tail, rfl, hs⟩ := hword
  intro heq
  cases heq
  cases hs

/-! ### Unique readings -/

/-- A row can be read as one tree only. -/
def Decided (row : List Symbol) (t : Logic (List Symbol)) : Prop :=
  ∀ tight t', Derives tight row t' → t' = t

/-- An atom is read as an atom. -/
theorem Atom.decided {row : List Symbol} (h : Atom row) : Decided row (.atom row) := by
  intro tight t ht
  cases ht with
  | atom _ => rfl
  | group _ => exact absurd rfl (h.ne_opening _)
  | and hl _ => exact absurd rfl (h.solid.ne_joined hl.walk_top .and)
  | or hl _ => exact absurd rfl (h.solid.ne_joined hl.walk_top .or)

/-- A group is read as what is inside it. -/
theorem Decided.parenthesised {row : List Symbol} {t : Logic (List Symbol)}
    (h : Decided row t) (hrow : Inner row) : Decided ([.opening] ++ row ++ [.closing]) t := by
  intro tight t' ht'
  generalize hwhole : [.opening] ++ row ++ [.closing] = whole at ht'
  -- A group has no joint at which it could be taken apart.
  have hsolid := hrow.parenthesised.solid
  rw [hwhole] at hsolid
  cases ht' with
  | atom ha => exact absurd (by simpa using hwhole.symm) (ha.ne_opening _)
  | group hinner =>
    obtain rfl : row = _ := by simpa using hwhole
    exact h false t' hinner
  | and hl _ => exact absurd rfl (hsolid.ne_joined hl.walk_top .and)
  | or hl _ => exact absurd rfl (hsolid.ne_joined hl.walk_top .or)

/-- Two parts without a joint decide how they are read together. -/
theorem Decided.joined {p q : List Symbol} {s t : Logic (List Symbol)} {c : Connective}
    (hs : Decided p s) (ht : Decided q t) (hp : Solid p) (hq : Solid q) :
    Decided (p ++ [.connective c] ++ q) (.joined c s t) := by
  intro tight t' ht'
  -- The row has a joint, so it is no atom and no group; and it has only one.
  generalize hwhole : p ++ [.connective c] ++ q = whole at ht'
  cases ht' with
  | atom ha => exact absurd hwhole.symm (ha.solid.ne_joined hp.walk c)
  | group hinner =>
    exact absurd hwhole.symm (hinner.inner.parenthesised.solid.ne_joined hp.walk c)
  | and hl hr =>
    obtain ⟨rfl, rfl, rfl⟩ := eq_of_joint_eq hp hq hl.walk_top hwhole
    rw [hs _ _ hl, ht _ _ hr]
  | or hl hr =>
    obtain ⟨rfl, rfl, rfl⟩ := eq_of_joint_eq hp hq hl.walk_top hwhole
    rw [hs _ _ hl, ht _ _ hr]

end Grammar

end ItemStore
