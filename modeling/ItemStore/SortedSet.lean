/-!
# Sorted sets

A set is kept as the strictly ascending list of its elements.  The order may identify
elements that are not the same (two notations of one number): of such a pair the set
holds one, the one written last.

## Main definitions

* `SortedSet` — a strictly ascending list.
* `SortedSet.insert`, `SortedSet.ofList` — writing one element, and many.
* `SortedSet.same` — equality up to the order's own equality of elements.
-/

namespace ItemStore

open Std

/-- A finite set, as the strictly ascending list of its elements. -/
structure SortedSet (α : Type) [Ord α] where
  elements : List α
  /-- Each element lies below every later one. -/
  ascending : elements.Pairwise fun a b => compare a b = .lt

namespace SortedSet

variable {α : Type} [Ord α]

/-- Write an element into an ascending list, in place of an equal one. -/
def insertInto (a : α) : List α → List α
  | [] => [a]
  | b :: l =>
    match compare a b with
    | .lt => a :: b :: l
    | .eq => a :: l
    | .gt => b :: insertInto a l

theorem mem_insertInto {a x : α} {l : List α} (h : x ∈ insertInto a l) : x = a ∨ x ∈ l := by
  induction l with
  | nil => simpa [insertInto] using h
  | cons b l ih =>
    simp only [insertInto] at h
    split at h <;> grind

theorem pairwise_insertInto [TransOrd α] (a : α) {l : List α}
    (h : l.Pairwise fun a b => compare a b = .lt) :
    (insertInto a l).Pairwise fun a b => compare a b = .lt := by
  induction l with
  | nil => simp [insertInto]
  | cons b l ih =>
    obtain ⟨hb, hl⟩ := List.pairwise_cons.1 h
    simp only [insertInto]
    split
    · next hab =>
      refine List.pairwise_cons.2 ⟨fun x hx => ?_, h⟩
      rcases List.mem_cons.1 hx with rfl | hx
      · exact hab
      · exact TransCmp.lt_trans hab (hb x hx)
    · next hab =>
      exact List.pairwise_cons.2 ⟨fun x hx => TransCmp.lt_of_eq_of_lt hab (hb x hx), hl⟩
    · next hab =>
      refine List.pairwise_cons.2 ⟨fun x hx => ?_, ih hl⟩
      rcases mem_insertInto hx with rfl | hx
      · exact OrientedCmp.lt_of_gt hab
      · exact hb x hx

/-- The empty set. -/
def empty : SortedSet α := ⟨[], .nil⟩

/-- Add an element, in place of an equal one. -/
def insert [TransOrd α] (s : SortedSet α) (a : α) : SortedSet α :=
  ⟨insertInto a s.elements, pairwise_insertInto a s.ascending⟩

/-- The set of a sequence's elements; of several equal ones the last is kept. -/
def ofList [TransOrd α] (l : List α) : SortedSet α := l.foldl insert empty

/-- Whether the set has no element. -/
def isEmpty (s : SortedSet α) : Bool := s.elements.isEmpty

/-- Equality of sets, elements being equal when the order says so. -/
def same (s t : SortedSet α) : Bool :=
  s.elements.length == t.elements.length &&
    (s.elements.zip t.elements).all fun p => compare p.1 p.2 == .eq

@[simp] theorem elements_empty : (empty : SortedSet α).elements = [] := rfl

@[simp] theorem elements_insert [TransOrd α] (s : SortedSet α) (a : α) :
    (s.insert a).elements = insertInto a s.elements := rfl

@[simp] theorem ofList_nil [TransOrd α] : ofList ([] : List α) = empty := rfl

/-- A set is determined by the list of its elements. -/
theorem ext {s t : SortedSet α} (h : s.elements = t.elements) : s = t := by
  cases s
  cases t
  simp_all

instance [DecidableEq α] : DecidableEq (SortedSet α) := fun s t =>
  decidable_of_iff (s.elements = t.elements) ⟨ext, fun h => h ▸ rfl⟩

instance : Inhabited (SortedSet α) := ⟨empty⟩

section Written

variable [TransOrd α]

/-- An element above all others is written at the end. -/
theorem insertInto_eq_append {a : α} {l : List α} (h : ∀ b ∈ l, compare b a = .lt) :
    insertInto a l = l ++ [a] := by
  induction l with
  | nil => rfl
  | cons b l ih =>
    have hgt : compare a b = .gt := OrientedCmp.gt_of_lt (h b (List.mem_cons_self ..))
    rw [insertInto, hgt]
    exact congrArg (b :: ·) (ih fun c hc => h c (List.mem_cons_of_mem _ hc))

theorem elements_foldl_insert {l : List α} :
    ∀ {s : SortedSet α}, (s.elements ++ l).Pairwise (fun a b => compare a b = .lt) →
      (l.foldl insert s).elements = s.elements ++ l := by
  induction l with
  | nil => intro s _; simp
  | cons a l ih =>
    intro s h
    have hbelow : ∀ b ∈ s.elements, compare b a = .lt := fun b hb =>
      (List.pairwise_append.1 h).2.2 b hb a (List.mem_cons_self ..)
    have hinsert : (s.insert a).elements = s.elements ++ [a] := insertInto_eq_append hbelow
    rw [List.foldl_cons, ih, hinsert, List.append_assoc, List.singleton_append]
    rwa [hinsert, List.append_assoc, List.singleton_append]

/-- An ascending list is written as it stands. -/
theorem elements_ofList {l : List α} (h : l.Pairwise fun a b => compare a b = .lt) :
    (ofList l).elements = l :=
  elements_foldl_insert (s := empty) h

/-- A set is the set of its elements. -/
theorem ofList_elements (s : SortedSet α) : ofList s.elements = s :=
  ext (elements_ofList s.ascending)

theorem mem_foldl_insert {l : List α} {x : α} :
    ∀ {s : SortedSet α}, x ∈ (l.foldl insert s).elements → x ∈ s.elements ∨ x ∈ l := by
  induction l with
  | nil => intro s h; exact .inl h
  | cons a l ih =>
    intro s h
    rcases ih h with h | h
    · rcases mem_insertInto h with rfl | h
      · exact .inr (List.mem_cons_self ..)
      · exact .inl h
    · exact .inr (List.mem_cons_of_mem _ h)

/-- A set has no other elements than were written. -/
theorem mem_of_mem_ofList {l : List α} {x : α} (h : x ∈ (ofList l).elements) : x ∈ l := by
  rcases mem_foldl_insert (s := empty) h with h | h
  · cases h
  · exact h

end Written

end SortedSet

end ItemStore
