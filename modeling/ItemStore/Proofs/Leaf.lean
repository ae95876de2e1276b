import ItemStore.Proofs.Halves

/-!
# Where the leaves of a query go

A query is written as a tree of connectives over leaves: predicates on attributes,
conditions that are assigned to a half by hand, and queries without a condition.  Each
half is the tree without the leaves of the other one.  What is left of a tree keeps its
leaves in their order, and two of them are joined by the connective that joined them in
the tree.

## Main definitions

* `Logic.filterMap` — a tree without the atoms that a function maps to nothing.
* `Logic.links` — the pairs of atoms of a tree, with the connective that joins each.
* `Leaf` — what a query is built from; `Logic.leafQuery` the query of a tree of leaves.

## Main results

* `Logic.atoms_filterMap`, `Logic.links_filterMap` — what is left of a tree.
* `Logic.leafQuery_halves` — the halves of a query.
-/

namespace ItemStore

namespace Logic

variable {α β : Type}

/-! ### Deleting atoms -/

/-- The tree without the atoms that are mapped to nothing; a connective with one side left
is that side, and one without a side is nothing. -/
def filterMap (f : α → Option β) : Logic α → Option (Logic β)
  | .atom a => (f a).map .atom
  | .joined connective left right =>
    match left.filterMap f, right.filterMap f with
    | some l, some r => some (.joined connective l r)
    | some l, none => some l
    | none, r => r

/-- The pairs of an atom and a later one, with the connective that joins them: the lowest
one that has both of them beneath it. -/
def links : Logic α → List (α × Connective × α)
  | .atom _ => []
  | .joined connective left right =>
    left.links ++ (left.atoms.flatMap fun a => right.atoms.map fun b => (a, connective, b)) ++
      right.links

/-- What a pair of atoms is mapped to, if neither is mapped to nothing. -/
def link (f : α → Option β) (x : α × Connective × α) : Option (β × Connective × β) :=
  match f x.1, f x.2.2 with
  | some a, some b => some (a, x.2.1, b)
  | _, _ => none

/-- The atoms that are left, in their order. -/
theorem atoms_filterMap (f : α → Option β) (t : Logic α) :
    (t.filterMap f).elim [] atoms = t.atoms.filterMap f := by
  induction t with
  | atom a => cases h : f a <;> simp [filterMap, atoms, h]
  | joined connective left right ihl ihr =>
    rw [atoms, List.filterMap_append, ← ihl, ← ihr, filterMap]
    cases left.filterMap f <;> cases right.filterMap f <;> simp [atoms]

/-- The pairs that are left between two rows. -/
theorem filterMap_link_pairs (f : α → Option β) (connective : Connective) (as bs : List α) :
    (as.flatMap fun a => bs.map fun b => (a, connective, b)).filterMap (link f) =
      (as.filterMap f).flatMap fun a => (bs.filterMap f).map fun b => (a, connective, b) := by
  induction as with
  | nil => rfl
  | cons a as ih =>
    rw [List.flatMap_cons, List.filterMap_append, ih, List.filterMap_map]
    cases ha : f a with
    | none =>
      have hrow : bs.filterMap (link f ∘ fun b => (a, connective, b)) = [] :=
        List.filterMap_eq_nil_iff.mpr fun b _ => by simp [link, ha]
      rw [hrow, List.filterMap_cons_none ha, List.nil_append]
    | some x =>
      have hlink : (link f ∘ fun b => (a, connective, b)) =
          fun b => (f b).map fun y => (x, connective, y) := by
        funext b
        cases hb : f b <;> simp [link, ha, hb]
      rw [hlink, List.filterMap_cons_some ha, List.flatMap_cons, List.map_filterMap]

/-- The pairs that are left, with their connectives. -/
theorem links_filterMap (f : α → Option β) (t : Logic α) :
    (t.filterMap f).elim [] links = t.links.filterMap (link f) := by
  induction t with
  | atom a => cases h : f a <;> simp [filterMap, links, h]
  | joined connective left right ihl ihr =>
    rw [links, List.filterMap_append, List.filterMap_append, filterMap_link_pairs, ← ihl, ← ihr,
      ← atoms_filterMap, ← atoms_filterMap, filterMap]
    cases left.filterMap f <;> cases right.filterMap f <;> simp [links]

end Logic

/-! ### Leaves -/

namespace Predicate

/-- The attribute that a predicate is about. -/
def subject : Predicate → Attribute
  | .compare a .. => a
  | .between a .. => a
  | .beginsWith a _ => a
  | .contains a _ => a
  | .isPresent a => a
  | .isMissing a => a
  | .hasType a _ => a
  | .among a _ => a
  | .compareSize a .. => a
  | .sizeBetween a .. => a

/-- Whether a key can be searched by a predicate. -/
def isSearch : Predicate → Bool
  | .compare _ comparator _ =>
    comparator ∈ [Comparator.equal, .less, .lessOrEqual, .greater, .greaterOrEqual]
  | .between .. => true
  | .beginsWith .. => true
  | _ => false

/-- A predicate selects by key if it is about a key and a key can be searched by it. -/
theorem isKey_eq (p : Predicate) : p.isKey = (p.subject.kind = .key && p.isSearch) := by
  cases p with
  | compare a comparator operand =>
    have hcomparator : decide (comparator ≠ .notEqual) =
        (Predicate.compare a comparator operand).isSearch := by
      cases comparator <;> rfl
    rw [isKey, hcomparator]
    rfl
  | between a low high => exact (Bool.and_true _).symm
  | beginsWith a lead => exact (Bool.and_true _).symm
  | _ => exact (Bool.and_false _).symm

end Predicate

/-- A leaf of a query. -/
inductive Leaf
  | predicate (p : Predicate)
  /-- A condition in the key half. -/
  | key (c : Condition)
  /-- A condition in the filter half. -/
  | filter (c : Condition)
  /-- A condition that is taken as a query. -/
  | plain (c : Condition)
  /-- A query without a condition. -/
  | empty

namespace Leaf

/-- The query of a leaf. -/
def query : Leaf → Query
  | predicate p => p.query
  | key c => .ofKey c
  | filter c => .ofFilter c
  | plain c => .ofFilter c
  | empty => .empty

/-- The condition of a leaf. -/
def condition? : Leaf → Option Condition
  | predicate p => some p.condition
  | key c => some c
  | filter c => some c
  | plain c => some c
  | empty => none

/-- Whether a leaf selects by key. -/
def isKey : Leaf → Bool
  | predicate p => p.subject.kind = .key && p.isSearch
  | key _ => true
  | _ => false

/-- The condition of a leaf that selects by key. -/
def keyCondition? (l : Leaf) : Option Condition := if l.isKey then l.condition? else none

/-- The condition of a leaf that does not select by key. -/
def filterCondition? (l : Leaf) : Option Condition := if l.isKey then none else l.condition?

/-- A leaf stands in one half of its query. -/
theorem query_eq (l : Leaf) : l.query = ⟨l.keyCondition?, l.filterCondition?⟩ := by
  cases l with
  | predicate p =>
    rw [query, p.query_eq, p.isKey_eq, keyCondition?, filterCondition?, isKey]
    split <;> rfl
  | _ => rfl

/-- The condition of a leaf stands in one half. -/
theorem toList_halves (l : Leaf) :
    l.keyCondition?.toList ++ l.filterCondition?.toList = l.condition?.toList := by
  unfold keyCondition? filterCondition?
  split <;> simp

end Leaf

namespace Logic

/-- The query of a tree of leaves. -/
def leafQuery : Logic Leaf → Query
  | .atom l => l.query
  | .joined connective left right => .joined connective left.leafQuery right.leafQuery

/-- The condition of a tree of conditions. -/
def merged : Logic Condition → Condition
  | .atom c => c
  | .joined connective left right => .joined connective left.merged right.merged

/-- Deleting leaves and joining what is left is joining what is left of the sides. -/
theorem merged_filterMap_joined (f : Leaf → Option Condition) (connective : Connective)
    (left right : Logic Leaf) :
    ((joined connective left right).filterMap f).map merged =
      connective.combine ((left.filterMap f).map merged) ((right.filterMap f).map merged) := by
  rw [filterMap]
  cases left.filterMap f <;> cases right.filterMap f <;> rfl

/-- The halves of a query are its tree without the leaves of the other half. -/
theorem leafQuery_eq (t : Logic Leaf) :
    t.leafQuery = ⟨(t.filterMap Leaf.keyCondition?).map merged,
      (t.filterMap Leaf.filterCondition?).map merged⟩ := by
  induction t with
  | atom l =>
    rw [leafQuery, l.query_eq, filterMap, filterMap]
    cases l.keyCondition? <;> cases l.filterCondition? <;> rfl
  | joined connective left right ihl ihr =>
    rw [leafQuery, ihl, ihr, merged_filterMap_joined, merged_filterMap_joined]
    rfl

/-- A half of a query is the tree without the leaves that a function maps to nothing: it has
the conditions of the other leaves, each once and in their order, and any two of them are
joined by the connective that joined the leaves. -/
structure Leaves (t : Logic Leaf) (f : Leaf → Option Condition) (half : Option Condition) :
    Prop where
  tree : half = (t.filterMap f).map merged
  atoms : (t.filterMap f).elim [] atoms = t.atoms.filterMap f
  links : (t.filterMap f).elim [] links = t.links.filterMap (link f)

/-- The conditions of the leaves are those of the two halves. -/
theorem filterMap_halves_perm (leaves : List Leaf) :
    (leaves.filterMap Leaf.keyCondition? ++ leaves.filterMap Leaf.filterCondition?).Perm
      (leaves.filterMap Leaf.condition?) := by
  simp only [List.filterMap_eq_flatMap_toList, ← Leaf.toList_halves]
  exact List.flatMap_append_perm leaves _ _

/-- Each half of a query is its tree without the leaves of the other half, and each
condition of a leaf stands in one of them; an empty query does not change one that it is
joined with; and a predicate stands in the key half if it is about a key and a key can be
searched by it. -/
theorem leafQuery_halves (t : Logic Leaf) :
    t.Leaves Leaf.keyCondition? t.leafQuery.key ∧
      t.Leaves Leaf.filterCondition? t.leafQuery.filter ∧
      (t.atoms.filterMap Leaf.keyCondition? ++ t.atoms.filterMap Leaf.filterCondition?).Perm
        (t.atoms.filterMap Leaf.condition?) ∧
      (∀ l : Leaf, l.keyCondition?.toList ++ l.filterCondition?.toList = l.condition?.toList) ∧
      (∀ (connective : Connective) (q : Query),
        q.joined connective .empty = q ∧ Query.empty.joined connective q = q) ∧
      ∀ p : Predicate, p.query =
        if p.subject.kind = .key ∧ p.isSearch then .ofKey p.condition
        else .ofFilter p.condition := by
  have hquery := t.leafQuery_eq
  refine ⟨⟨congrArg Query.key hquery, t.atoms_filterMap _, t.links_filterMap _⟩,
    ⟨congrArg Query.filter hquery, t.atoms_filterMap _, t.links_filterMap _⟩,
    filterMap_halves_perm t.atoms, Leaf.toList_halves, ?_, ?_⟩
  · intro connective q
    simp [Query.joined, Query.empty]
  · intro p
    rw [p.query_eq, p.isKey_eq]
    simp

/-- Both halves of a disjunction lose its connective where each has one side. -/
example (c d : Condition) :
    (joined .or (.atom (.key c)) (.joined .and (.atom .empty) (.atom (.plain d)))).leafQuery =
      ⟨some c, some d⟩ := rfl

end Logic

end ItemStore
