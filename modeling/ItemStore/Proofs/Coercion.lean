import Mathlib.Data.Set.List
import ItemStore.Proofs.Attributes
import ItemStore.Proofs.Stored

/-!
# Sequences that become sets

A list or a tuple is taken as the set of its elements if it has any and they are all texts, all
numbers or all byte strings.  The first element decides which of these it is, and the others have
to follow; so whether there is a set, and which one, depends on what the elements are and not on
their order or on how often they occur.

Elements are equal as values are: two notations of one number are one element of a set.  The set
keeps one of them, so it has an element equal to each of the sequence, and none that the sequence
does not have.

## Main definitions

* `ElementType` — the types of elements; `Value.elementType?` and `Value.setType?` are the types of
  an element and of the elements of a set.
* `Value.members` — the elements of a sequence or of a set.
* `Value.SetOf` — a set of the elements of one type.

## Main results

* `SortedSet.forall₂_of_exists` — ascending lists with equal elements are equal element by element.
* `Value.setOfItems_eq_ok` — which sequences become which sets.
* `Value.toSet_cases` — what becomes of a value that is taken as a set.
-/

namespace ItemStore

open Std

/-! ### Sets with equal elements -/

namespace SortedSet

variable {α : Type} [Ord α] [TransOrd α]

/-- Of two ascending lists with equal elements, the least elements are equal. -/
theorem compare_heads {a b : α} {l l' : List α}
    (ha : ∀ x ∈ l, compare a x = .lt) (hb : ∀ y ∈ l', compare b y = .lt)
    (hl : ∃ y ∈ b :: l', compare a y = .eq) (hl' : ∃ x ∈ a :: l, compare x b = .eq) :
    compare a b = .eq := by
  obtain ⟨y, hy, hay⟩ := hl
  obtain ⟨x, hx, hxb⟩ := hl'
  rcases List.mem_cons.mp hy with rfl | hy
  · exact hay
  rcases List.mem_cons.mp hx with rfl | hx
  · exact hxb
  -- Otherwise each of the two would lie below the other.
  have hba : compare b a = .lt := TransCmp.lt_of_lt_of_eq (hb y hy) (OrientedCmp.eq_symm hay)
  have hab : compare a b = .lt := TransCmp.lt_of_lt_of_eq (ha x hx) hxb
  exact absurd hba (OrientedCmp.not_lt_of_lt hab)

/-- **Ascending lists with equal elements are equal element by element.** -/
theorem forall₂_of_exists {l l' : List α} (hascending : l.Pairwise fun a b => compare a b = .lt)
    (hascending' : l'.Pairwise fun a b => compare a b = .lt)
    (hl : ∀ x ∈ l, ∃ y ∈ l', compare x y = .eq) (hl' : ∀ y ∈ l', ∃ x ∈ l, compare x y = .eq) :
    List.Forall₂ (fun a b => compare a b = .eq) l l' := by
  induction l generalizing l' with
  | nil =>
    cases l' with
    | nil => exact .nil
    | cons b l' =>
      obtain ⟨x, hx, -⟩ := hl' b (List.mem_cons_self ..)
      cases hx
  | cons a l ih =>
    cases l' with
    | nil =>
      obtain ⟨y, hy, -⟩ := hl a (List.mem_cons_self ..)
      cases hy
    | cons b l' =>
      obtain ⟨ha, htail⟩ := List.pairwise_cons.mp hascending
      obtain ⟨hb, htail'⟩ := List.pairwise_cons.mp hascending'
      have hheads := compare_heads ha hb (hl a (List.mem_cons_self ..))
        (hl' b (List.mem_cons_self ..))
      refine .cons hheads (ih htail htail' ?_ ?_)
      · intro x hx
        obtain ⟨y, hy, hxy⟩ := hl x (List.mem_cons_of_mem _ hx)
        rcases List.mem_cons.mp hy with rfl | hy
        · have hxa : compare a x = .eq := TransCmp.eq_trans hheads (OrientedCmp.eq_symm hxy)
          rw [ha x hx] at hxa
          cases hxa
        · exact ⟨y, hy, hxy⟩
      · intro y hy
        obtain ⟨x, hx, hxy⟩ := hl' y (List.mem_cons_of_mem _ hy)
        rcases List.mem_cons.mp hx with rfl | hx
        · have hby : compare b y = .eq := TransCmp.eq_trans (OrientedCmp.eq_symm hheads) hxy
          rw [hb y hy] at hby
          cases hby
        · exact ⟨x, hx, hxy⟩

/-- A set has an element equal to another one if the sequence that was written has. -/
theorem exists_ofList_iff {l : List α} {x : α} :
    (∃ y ∈ (ofList l).elements, compare y x = .eq) ↔ ∃ y ∈ l, compare y x = .eq := by
  constructor
  · rintro ⟨y, hy, heq⟩
    exact ⟨y, mem_of_mem_ofList hy, heq⟩
  · rintro ⟨y, hy, heq⟩
    obtain ⟨z, hz, hzy⟩ := exists_mem_ofList hy
    exact ⟨z, hz, TransCmp.eq_trans hzy heq⟩

/-- **Order and repetition do not matter** for the set of a sequence. -/
theorem same_ofList {l l' : List α} (h : ∀ a, a ∈ l ↔ a ∈ l') : (ofList l).same (ofList l') := by
  refine same_iff.mpr (forall₂_of_exists (ofList l).ascending (ofList l').ascending ?_ ?_)
  · intro x hx
    obtain ⟨y, hy, heq⟩ := exists_mem_ofList ((h x).mp (mem_of_mem_ofList hx))
    exact ⟨y, hy, OrientedCmp.eq_symm heq⟩
  · intro y hy
    exact exists_mem_ofList ((h y).mpr (mem_of_mem_ofList hy))

theorem same_ofList_of_map {β : Type} {form : α → β} (hform : Function.Injective form)
    {l l' : List α} (h : ∀ b, b ∈ l.map form ↔ b ∈ l'.map form) :
    (ofList l).same (ofList l') := by
  apply same_ofList
  intro a
  rw [← List.mem_map_of_injective hform, h, List.mem_map_of_injective hform]

end SortedSet

/-! ### Elements of one type -/

/-- The types of elements that a set can have. -/
inductive ElementType
  | text
  | number
  | bytes
  deriving DecidableEq

namespace Value

/-- The type of a value that can be an element of a set. -/
def elementType? : Value → Option ElementType
  | .string _ => some .text
  | .number _ => some .number
  | .bytes _ => some .bytes
  | _ => none

theorem elementType?_eq_text {v : Value} : v.elementType? = some .text ↔ ∃ s, string s = v := by
  cases v <;> simp [elementType?]

theorem elementType?_eq_number {v : Value} :
    v.elementType? = some .number ↔ ∃ n, number n = v := by
  cases v <;> simp [elementType?]

theorem elementType?_eq_bytes {v : Value} : v.elementType? = some .bytes ↔ ∃ b, bytes b = v := by
  cases v <;> simp [elementType?]

/-- The type of the elements of a set. -/
def setType? : Value → Option ElementType
  | .stringSet _ => some .text
  | .numberSet _ => some .number
  | .binarySet _ => some .bytes
  | _ => none

/-- The elements of a sequence or of a set. -/
def members : Value → List Value
  | .list items => items
  | .tuple items => items
  | .stringSet s => s.elements.map .string
  | .numberSet s => s.elements.map .number
  | .binarySet s => s.elements.map .bytes
  | _ => []

/-- A list or a tuple. -/
def IsSequence : Value → Prop
  | .list _ => True
  | .tuple _ => True
  | _ => False

/-- The second value is the set of the items, which are of one type. -/
inductive SetOf : List Value → Value → Prop
  | texts (l : List String) : SetOf (l.map .string) (.stringSet (.ofList l))
  | numbers (l : List Number) : SetOf (l.map .number) (.numberSet (.ofList l))
  | byteStrings (l : List Bytes) : SetOf (l.map .bytes) (.binarySet (.ofList l))

/-! ### Collecting the elements -/

section Collect

variable {α : Type} {read? : Value → Option α} {items : List Value}

/-- An element that is read as one of a type. -/
def element (read? : Value → Option α) (v : Value) : Except Error α :=
  match read? v with
  | some a => .ok a
  | none => .error (.mixedSet v)

theorem element_eq_ok {v : Value} {a : α} : element read? v = .ok a ↔ read? v = some a := by
  unfold element
  cases read? v <;> simp

theorem kind_of_element {v : Value} {e : Error} (h : element read? v = .error e) :
    e.kind = .unsupportedValue := by
  unfold element at h
  cases hread : read? v with
  | some a =>
    rw [hread] at h
    cases h
  | none =>
    rw [hread] at h
    cases h
    rfl

/-- Elements are collected one by one. -/
theorem collect_eq_mapM : collect read? items = items.mapM (element read?) := by
  induction items with
  | nil => rfl
  | cons v items ih =>
    rw [collect, List.mapM_cons, ih, element]
    cases read? v with
    | none => rfl
    | some a =>
      cases items.mapM (element read?) with
      | error e => rfl
      | ok as => rfl

theorem kind_of_collect {e : Error} (h : collect read? items = .error e) :
    e.kind = .unsupportedValue := by
  rw [collect_eq_mapM] at h
  obtain ⟨_, v, _, _, -, -, hv⟩ := exists_of_mapM_eq_error h
  exact kind_of_element hv

/-- What is collected are just the elements, if they are all of the type. -/
theorem collect_eq_ok {form : α → Value} (h : ∀ v a, read? v = some a ↔ v = form a)
    {l : List α} : collect read? items = .ok l ↔ items = l.map form := by
  rw [collect_eq_mapM, mapM_eq_ok]
  simp only [element_eq_ok, h]
  rw [← List.forall₂_map_right_iff (R := fun v w => v = w), List.forall₂_eq_eq_eq]

end Collect

theorem asString?_eq_some (v : Value) (s : String) : v.asString? = some s ↔ v = .string s := by
  cases v <;> simp [asString?]

theorem asNumber?_eq_some (v : Value) (n : Number) : v.asNumber? = some n ↔ v = .number n := by
  cases v <;> simp [asNumber?]

theorem asBytes?_eq_some (v : Value) (b : Bytes) : v.asBytes? = some b ↔ v = .bytes b := by
  cases v <;> simp [asBytes?]

/-- **Which sequences become which sets.** -/
theorem setOfItems_eq_ok {items : List Value} {s : Value} :
    setOfItems items = .ok s ↔ items ≠ [] ∧ SetOf items s := by
  constructor
  · intro h
    cases items with
    | nil => cases h
    | cons first items =>
      refine ⟨List.cons_ne_nil _ _, ?_⟩
      cases first with
      | string t =>
        obtain ⟨l, hl, rfl⟩ := map_eq_ok.mp h
        rw [(collect_eq_ok asString?_eq_some).mp hl]
        exact .texts l
      | number n =>
        obtain ⟨l, hl, rfl⟩ := map_eq_ok.mp h
        rw [(collect_eq_ok asNumber?_eq_some).mp hl]
        exact .numbers l
      | bytes b =>
        obtain ⟨l, hl, rfl⟩ := map_eq_ok.mp h
        rw [(collect_eq_ok asBytes?_eq_some).mp hl]
        exact .byteStrings l
      | _ => cases h
  · rintro ⟨hne, hset⟩
    cases hset with
    | texts l =>
      obtain ⟨t, l, rfl⟩ := List.exists_cons_of_ne_nil (mt List.map_eq_nil_iff.mpr hne)
      exact map_eq_ok.mpr ⟨_, (collect_eq_ok asString?_eq_some).mpr rfl, rfl⟩
    | numbers l =>
      obtain ⟨n, l, rfl⟩ := List.exists_cons_of_ne_nil (mt List.map_eq_nil_iff.mpr hne)
      exact map_eq_ok.mpr ⟨_, (collect_eq_ok asNumber?_eq_some).mpr rfl, rfl⟩
    | byteStrings l =>
      obtain ⟨b, l, rfl⟩ := List.exists_cons_of_ne_nil (mt List.map_eq_nil_iff.mpr hne)
      exact map_eq_ok.mpr ⟨_, (collect_eq_ok asBytes?_eq_some).mpr rfl, rfl⟩

/-- Whatever is wrong with a sequence, it is a value that is not supported. -/
theorem kind_of_setOfItems {items : List Value} {e : Error} (h : setOfItems items = .error e) :
    e.kind = .unsupportedValue := by
  cases items with
  | nil =>
    cases h
    rfl
  | cons first items =>
    cases first with
    | string t => exact kind_of_collect (map_eq_error.mp h)
    | number n => exact kind_of_collect (map_eq_error.mp h)
    | bytes b => exact kind_of_collect (map_eq_error.mp h)
    | _ =>
      cases h
      rfl

theorem kind_of_toSet {v : Value} {e : Error} (h : v.toSet = .error e) :
    e.kind = .unsupportedValue := by
  cases v with
  | list items => exact kind_of_setOfItems h
  | tuple items => exact kind_of_setOfItems h
  | _ => cases h

/-! ### Forms of elements -/

/-- A form of values that equality compares by their order, and with no values of another form. -/
structure ElementForm {α : Type} [Ord α] (form : α → Value) : Prop where
  same_iff : ∀ a b, (form a).same (form b) ↔ compare a b = .eq
  exists_form : ∀ a x, (form a).same x → ∃ b, x = form b

theorem elementForm_string : ElementForm Value.string where
  same_iff a b := by rw [same, beq_iff_eq, LawfulEqOrd.compare_eq_iff_eq]
  exists_form a x h := by
    cases x with
    | string b => exact ⟨b, rfl⟩
    | _ => cases h

theorem elementForm_number : ElementForm Value.number where
  same_iff a b := by rw [same, beq_iff_eq]
  exists_form a x h := by
    cases x with
    | number b => exact ⟨b, rfl⟩
    | _ => cases h

theorem elementForm_bytes : ElementForm Value.bytes where
  same_iff a b := by rw [same, beq_iff_eq, LawfulEqOrd.compare_eq_iff_eq]
  exists_form a x h := by
    cases x with
    | bytes b => exact ⟨b, rfl⟩
    | _ => cases h

namespace ElementForm

variable {α : Type} [Ord α] {form : α → Value} (hform : ElementForm form)
include hform

/-- No two elements of a set are equal. -/
theorem pairwise (s : SortedSet α) :
    (s.elements.map form).Pairwise fun x y => x.same y = false := by
  rw [List.pairwise_map]
  refine s.ascending.imp fun {a b} hab => ?_
  rw [Bool.eq_false_iff, ne_eq, hform.same_iff, hab]
  exact Ordering.noConfusion

/-- The set has an element equal to a value if the sequence has. -/
theorem exists_same_iff [TransOrd α] (l : List α) (x : Value) :
    (∃ y ∈ (SortedSet.ofList l).elements.map form, y.same x) ↔ ∃ y ∈ l.map form, y.same x := by
  simp only [List.mem_map, exists_exists_and_eq_and]
  by_cases hx : ∃ b, x = form b
  · obtain ⟨b, rfl⟩ := hx
    simp only [hform.same_iff]
    exact SortedSet.exists_ofList_iff
  · have hnone : ∀ a, ¬ (form a).same x := fun a h => hx (hform.exists_form a x h)
    exact iff_of_false (fun ⟨a, _, h⟩ => hnone a h) fun ⟨a, _, h⟩ => hnone a h

end ElementForm

/-! ### The set of a sequence -/

namespace SetOf

variable {items items' : List Value} {s s' : Value}

theorem not_isSequence (h : SetOf items s) : ¬ s.IsSequence := by
  cases h with
  | texts l => exact id
  | numbers l => exact id
  | byteStrings l => exact id

/-- The items are of the type of the set's elements. -/
theorem elementType (h : SetOf items s) : ∀ x ∈ items, x.elementType? = s.setType? := by
  cases h with
  | texts l => exact List.forall_mem_map.mpr fun _ _ => rfl
  | numbers l => exact List.forall_mem_map.mpr fun _ _ => rfl
  | byteStrings l => exact List.forall_mem_map.mpr fun _ _ => rfl

theorem exists_setType (h : SetOf items s) : ∃ t, s.setType? = some t := by
  cases h with
  | texts l => exact ⟨_, rfl⟩
  | numbers l => exact ⟨_, rfl⟩
  | byteStrings l => exact ⟨_, rfl⟩

/-- Nothing is an element that is no item. -/
theorem members_subset (h : SetOf items s) : ∀ y ∈ s.members, y ∈ items := by
  cases h with
  | texts l => exact fun y hy => List.map_subset _ (fun _ => SortedSet.mem_of_mem_ofList) hy
  | numbers l => exact fun y hy => List.map_subset _ (fun _ => SortedSet.mem_of_mem_ofList) hy
  | byteStrings l => exact fun y hy => List.map_subset _ (fun _ => SortedSet.mem_of_mem_ofList) hy

theorem exists_same_iff (h : SetOf items s) (x : Value) :
    (∃ y ∈ s.members, y.same x) ↔ ∃ y ∈ items, y.same x := by
  cases h with
  | texts l => exact elementForm_string.exists_same_iff l x
  | numbers l => exact elementForm_number.exists_same_iff l x
  | byteStrings l => exact elementForm_bytes.exists_same_iff l x

theorem pairwise (h : SetOf items s) : s.members.Pairwise fun x y => x.same y = false := by
  cases h with
  | texts l => exact elementForm_string.pairwise _
  | numbers l => exact elementForm_number.pairwise _
  | byteStrings l => exact elementForm_bytes.pairwise _

/-- The same items, in any order and as often as may be, are equal sets. -/
theorem same (h : SetOf items s) (h' : SetOf items' s') (hne : items ≠ [])
    (hitems : ∀ x, x ∈ items ↔ x ∈ items') : s.same s' := by
  have htype : s.setType? = s'.setType? := by
    obtain ⟨x, hx⟩ := List.exists_mem_of_ne_nil items hne
    rw [← h.elementType x hx, h'.elementType x ((hitems x).mp hx)]
  cases h with
  | texts l =>
    cases h' with
    | texts l' => exact SortedSet.same_ofList_of_map (fun _ _ => Value.string.inj) hitems
    | numbers l' => cases htype
    | byteStrings l' => cases htype
  | numbers l =>
    cases h' with
    | texts l' => cases htype
    | numbers l' => exact SortedSet.same_ofList_of_map (fun _ _ => Value.number.inj) hitems
    | byteStrings l' => cases htype
  | byteStrings l =>
    cases h' with
    | texts l' => cases htype
    | numbers l' => cases htype
    | byteStrings l' => exact SortedSet.same_ofList_of_map (fun _ _ => Value.bytes.inj) hitems

end SetOf

/-- Items of one form are read off one by one. -/
theorem exists_eq_map {α : Type} {form : α → Value} {items : List Value}
    (h : ∀ x ∈ items, ∃ a, form a = x) : ∃ l : List α, l.map form = items := by
  have hrange : items ∈ Set.range (List.map form) := by
    rw [Set.range_list_map]
    exact h
  exact hrange

/-- Items that are all of one type have a set. -/
theorem exists_setOf_iff {items : List Value} :
    (∃ s, SetOf items s) ↔ ∃ t, ∀ x ∈ items, x.elementType? = some t := by
  constructor
  · rintro ⟨s, h⟩
    obtain ⟨t, ht⟩ := h.exists_setType
    refine ⟨t, ?_⟩
    rw [← ht]
    exact h.elementType
  · rintro ⟨t, ht⟩
    cases t with
    | text =>
      obtain ⟨l, rfl⟩ := exists_eq_map fun x hx => elementType?_eq_text.mp (ht x hx)
      exact ⟨_, .texts l⟩
    | number =>
      obtain ⟨l, rfl⟩ := exists_eq_map fun x hx => elementType?_eq_number.mp (ht x hx)
      exact ⟨_, .numbers l⟩
    | bytes =>
      obtain ⟨l, rfl⟩ := exists_eq_map fun x hx => elementType?_eq_bytes.mp (ht x hx)
      exact ⟨_, .byteStrings l⟩

/-! ### Values that are taken as sets -/

variable {v v' s s' : Value}

theorem toSet_of_not_isSequence (h : ¬ v.IsSequence) : v.toSet = .ok v := by
  cases v with
  | list items => exact absurd trivial h
  | tuple items => exact absurd trivial h
  | _ => rfl

theorem toSet_of_isSequence (h : v.IsSequence) : v.toSet = setOfItems v.members := by
  cases v with
  | list items => rfl
  | tuple items => rfl
  | _ => exact h.elim

theorem toSet_eq_ok (h : v.IsSequence) :
    v.toSet = .ok s ↔ v.members ≠ [] ∧ SetOf v.members s := by
  rw [toSet_of_isSequence h, setOfItems_eq_ok]

theorem exists_toSet_iff (h : v.IsSequence) : (∃ s, v.toSet = .ok s) ↔
    v.members ≠ [] ∧ ∃ t, ∀ x ∈ v.members, x.elementType? = some t := by
  simp only [toSet_eq_ok h, exists_and_left, exists_setOf_iff]

/-- Taking a value as a set a second time changes nothing. -/
theorem toSet_toSet (h : v.toSet = .ok s) : s.toSet = .ok s := by
  by_cases hv : v.IsSequence
  · exact toSet_of_not_isSequence ((toSet_eq_ok hv).mp h).2.not_isSequence
  · rw [toSet_of_not_isSequence hv] at h
    cases h
    exact toSet_of_not_isSequence hv

/-- **What becomes of a value that is taken as a set.**

* A value that is no sequence stays as it is.
* A sequence has a set if, and only if, it has an element and all its elements are texts, all are
  numbers or all are byte strings.  The set has elements of this type; it has one equal to a value
  if, and only if, the sequence has; it has none that the sequence does not have, and no two that
  are equal.
* What is taken as a set again stays as it is.
* Sequences of the same elements, in any order and as often as may be, both have sets or both have
  none, and the sets are equal. -/
theorem toSet_cases (v : Value) :
    (¬ v.IsSequence → v.toSet = .ok v) ∧
    (v.IsSequence →
      ((∃ s, v.toSet = .ok s) ↔
        v.members ≠ [] ∧ ∃ t, ∀ x ∈ v.members, x.elementType? = some t) ∧
      (∀ s, v.toSet = .ok s →
        (∀ t, s.setType? = some t ↔ ∀ x ∈ v.members, x.elementType? = some t) ∧
        (∀ x, (∃ y ∈ s.members, y.same x) ↔ ∃ y ∈ v.members, y.same x) ∧
        (∀ y ∈ s.members, y ∈ v.members) ∧
        s.members.Pairwise fun x y => x.same y = false) ∧
      ∀ v' : Value, v'.IsSequence → (∀ x, x ∈ v.members ↔ x ∈ v'.members) →
        ((∃ s, v.toSet = .ok s) ↔ ∃ s', v'.toSet = .ok s') ∧
        ∀ s s', v.toSet = .ok s → v'.toSet = .ok s' → s.same s') ∧
    ∀ s, v.toSet = .ok s → s.toSet = .ok s := by
  refine ⟨toSet_of_not_isSequence, fun hv => ⟨exists_toSet_iff hv, ?_, ?_⟩, fun s => toSet_toSet⟩
  · intro s hs
    obtain ⟨hne, hset⟩ := (toSet_eq_ok hv).mp hs
    refine ⟨?_, hset.exists_same_iff, hset.members_subset, hset.pairwise⟩
    intro t
    constructor
    · intro ht
      rw [← ht]
      exact hset.elementType
    · intro ht
      obtain ⟨x, hx⟩ := List.exists_mem_of_ne_nil _ hne
      rw [← hset.elementType x hx]
      exact ht x hx
  · intro v' hv' hmembers
    constructor
    · have hnil : v.members = [] ↔ v'.members = [] := by
        simp only [List.eq_nil_iff_forall_not_mem, hmembers]
      simp only [exists_toSet_iff hv, exists_toSet_iff hv', ne_eq, hnil, hmembers]
    · intro s s' hs hs'
      obtain ⟨hne, hset⟩ := (toSet_eq_ok hv).mp hs
      exact hset.same ((toSet_eq_ok hv').mp hs').2 hne hmembers

/-- Two notations of one number, in another order and repeated, are equal sets. -/
theorem toSet_cases_repeated :
    ∃ s s', (list [number (.integer 2), number (.integer 1),
        number (.float (.ofCode false 0x4000000000000000))]).toSet = .ok s ∧
      (tuple [number (.float (.ofCode false 0x4000000000000000)), number (.integer 1),
        number (.integer 2), number (.integer 1)]).toSet = .ok s' ∧
      s.same s' := by
  obtain ⟨-, hsequence, -⟩ := toSet_cases (list [number (.integer 2), number (.integer 1),
    number (.float (.ofCode false 0x4000000000000000))])
  obtain ⟨hexists, -, hagree⟩ := hsequence trivial
  obtain ⟨s, hs⟩ := hexists.mpr ⟨List.cons_ne_nil _ _, .number, by simp [members, elementType?]⟩
  obtain ⟨hboth, hsame⟩ := hagree (tuple [number (.float (.ofCode false 0x4000000000000000)),
    number (.integer 1), number (.integer 2), number (.integer 1)]) trivial (by
      intro x
      simp only [members, List.mem_cons, List.not_mem_nil, or_false]
      tauto)
  obtain ⟨s', hs'⟩ := hboth.mp ⟨s, hs⟩
  exact ⟨s, s', hs, hs', hsame s s' hs hs'⟩

end Value

end ItemStore
