import Mathlib.Data.List.Nodup
import ItemStore.Proofs.Precision
import ItemStore.Proofs.RoundTrip

/-!
# Stored values that are read and written back

What the store holds can be read, and what was read can be written back.  The value that is
written back is the stored one, up to the order of sets and maps and the notation of numbers,
if every number in it is kept; and if it is the stored one, no number in it was lost.

For the numbers of a set this needs an argument, since they come back in another order: were
some number written as another number of the set, that other number would be written as itself
as well, and the set would come back smaller.

## Main definitions

* `Wire.numbers` — the texts of the numbers in a wire value, at any depth.
* `Wire.Storable` — the wire values that the store holds.
* `Wire.SameBy` — equality of stored data, given that of sets of numbers.
* `Number.Same`, `Number.KeptAs` — the same numbers, and the numbers that others are kept as.
* `Wire.WrittenBack` — a wire value, the value that it is read as, and what is written back.

## Main results

* `Number.mem_written_iff` — what a set of numbers is written back as.
* `Number.perm_written_iff` — when that is the set.
* `Wire.exists_written_back` — what the store holds is written back.
-/

namespace ItemStore

open Std

/-! ### Sets of different elements -/

namespace SortedSet

variable {α : Type} [Ord α]

theorem insertInto_perm {a : α} {l : List α} (h : ∀ b ∈ l, compare a b ≠ .eq) :
    (insertInto a l).Perm (a :: l) := by
  induction l with
  | nil => exact .refl _
  | cons b l ih =>
    have hb : compare a b ≠ .eq := h b (List.mem_cons_self ..)
    have hl : ∀ c ∈ l, compare a c ≠ .eq := fun c hc => h c (List.mem_cons_of_mem _ hc)
    rw [insertInto]
    split
    · exact .refl _
    · next hab => exact absurd hab hb
    · exact ((ih hl).cons b).trans (.swap a b l)

variable [TransOrd α]

theorem foldl_insert_perm {l : List α} :
    ∀ {s : SortedSet α}, (l ++ s.elements).Pairwise (fun a b => compare a b ≠ .eq) →
      (l.foldl insert s).elements.Perm (l ++ s.elements) := by
  induction l with
  | nil =>
    intro s _
    exact .refl _
  | cons a l ih =>
    intro s h
    rw [List.cons_append, List.pairwise_cons] at h
    obtain ⟨ha, hrest⟩ := h
    have hinsert : (s.insert a).elements.Perm (a :: s.elements) :=
      insertInto_perm fun b hb => ha b (List.mem_append_right _ hb)
    have hmoved : (l ++ (s.insert a).elements).Perm (a :: (l ++ s.elements)) :=
      (hinsert.append_left l).trans List.perm_middle
    have hsymm : ∀ {b c : α}, compare b c ≠ .eq → compare c b ≠ .eq :=
      fun hne heq => hne (OrientedCmp.eq_symm heq)
    refine (ih ?_).trans hmoved
    exact (hmoved.pairwise_iff hsymm).mpr (List.pairwise_cons.mpr ⟨ha, hrest⟩)

/-- No element is lost if no two are equal. -/
theorem ofList_perm {l : List α} (h : l.Pairwise fun a b => compare a b ≠ .eq) :
    (ofList l).elements.Perm l := by
  have hperm := foldl_insert_perm (l := l) (s := empty) (by rwa [elements_empty, List.append_nil])
  rwa [elements_empty, List.append_nil] at hperm

/-- A list without repetition is the list of its set, in order. -/
theorem ofList_perm_of_nodup [LawfulEqOrd α] {l : List α} (h : l.Nodup) :
    (ofList l).elements.Perm l := by
  refine ofList_perm (h.imp fun {a b} hne heq => hne ?_)
  exact LawfulEqOrd.eq_of_compare heq

/-- Writing an element keeps one equal to every element that was there. -/
theorem exists_mem_insertInto {a x : α} {l : List α} (h : x = a ∨ x ∈ l) :
    ∃ y ∈ insertInto a l, compare y x = .eq := by
  induction l with
  | nil =>
    rcases h with rfl | hx
    · exact ⟨x, List.mem_cons_self .., ReflCmp.compare_self⟩
    · cases hx
  | cons b l ih =>
    rw [insertInto]
    split
    · rcases h with rfl | hx
      · exact ⟨x, List.mem_cons_self .., ReflCmp.compare_self⟩
      · exact ⟨x, List.mem_cons_of_mem _ hx, ReflCmp.compare_self⟩
    · next hab =>
      rcases h with rfl | hx
      · exact ⟨x, List.mem_cons_self .., ReflCmp.compare_self⟩
      · rcases List.mem_cons.mp hx with rfl | hx
        · exact ⟨a, List.mem_cons_self .., hab⟩
        · exact ⟨x, List.mem_cons_of_mem _ hx, ReflCmp.compare_self⟩
    · by_cases hxb : x = b
      · exact ⟨x, hxb ▸ List.mem_cons_self .., ReflCmp.compare_self⟩
      · have hx : x = a ∨ x ∈ l := by
          rcases h with rfl | hx
          · exact .inl rfl
          · exact .inr ((List.mem_cons.mp hx).resolve_left hxb)
        obtain ⟨y, hy, heq⟩ := ih hx
        exact ⟨y, List.mem_cons_of_mem _ hy, heq⟩

theorem exists_mem_foldl_insert {l : List α} {x : α} :
    ∀ {s : SortedSet α}, (∃ y ∈ l ++ s.elements, compare y x = .eq) →
      ∃ y ∈ (l.foldl insert s).elements, compare y x = .eq := by
  induction l with
  | nil =>
    intro s h
    exact h
  | cons a l ih =>
    rintro s ⟨y, hy, heq⟩
    apply ih
    rcases List.mem_cons.mp hy with rfl | hy
    · obtain ⟨z, hz, hzy⟩ := exists_mem_insertInto (l := s.elements) (.inl (rfl : y = y))
      exact ⟨z, List.mem_append_right _ hz, TransCmp.eq_trans hzy heq⟩
    · rcases List.mem_append.mp hy with hy | hy
      · exact ⟨y, List.mem_append_left _ hy, heq⟩
      · obtain ⟨z, hz, hzy⟩ := exists_mem_insertInto (a := a) (.inr hy)
        exact ⟨z, List.mem_append_right _ hz, TransCmp.eq_trans hzy heq⟩

/-- A set has an element equal to each that was written. -/
theorem exists_mem_ofList {l : List α} {x : α} (h : x ∈ l) :
    ∃ y ∈ (ofList l).elements, compare y x = .eq :=
  exists_mem_foldl_insert ⟨x, List.mem_append_left _ h, ReflCmp.compare_self⟩

omit [TransOrd α] in
theorem insertInto_ne_nil (a : α) (l : List α) : insertInto a l ≠ [] := by
  cases l with
  | nil => exact List.cons_ne_nil _ _
  | cons b l =>
    rw [insertInto]
    split
    · exact List.cons_ne_nil _ _
    · exact List.cons_ne_nil _ _
    · exact List.cons_ne_nil _ _

theorem foldl_insert_ne_nil (l : List α) :
    ∀ {s : SortedSet α}, s.elements ≠ [] → (l.foldl insert s).elements ≠ [] := by
  induction l with
  | nil =>
    intro s hs
    exact hs
  | cons a l ih =>
    intro s _
    exact ih (insertInto_ne_nil a s.elements)

theorem isEmpty_ofList {l : List α} (hl : l ≠ []) : (ofList l).isEmpty = false := by
  rw [isEmpty, List.isEmpty_eq_false_iff]
  obtain ⟨a, l, rfl⟩ := List.exists_cons_of_ne_nil hl
  exact foldl_insert_ne_nil l (insertInto_ne_nil a [])

theorem nodup_elements (s : SortedSet α) : s.elements.Nodup := by
  refine s.ascending.imp ?_
  rintro a b hab rfl
  have hself : compare a a = .eq := ReflCmp.compare_self
  rw [hself] at hab
  cases hab

end SortedSet

/-! ### Sets of numbers -/

namespace Number

/-- Equality of sets of numbers, given by their texts. -/
def Same (a b : List String) : Prop := (a.map textValue?).Perm (b.map textValue?)

/-- The first texts denote the numbers that the second ones are kept as.  A rounded integer may
be kept as any number here. -/
def KeptAs (a b : List String) : Prop :=
  ∃ kept : String → ℚ, (∀ t ∈ b, keptValue? t = some (kept t) ∨ RoundedInteger t) ∧
    ∀ q, q ∈ a.map textValue? ↔ q ∈ b.map fun t => some (kept t)

theorem same_singleton {a b : String} : Same [a] [b] ↔ textValue? a = textValue? b := by
  simp [Same]

/-- What denotes exactly the numbers that others are kept as denotes what they are kept as. -/
theorem keptAs_of_mem_iff {a b : List String} (hkept : ∀ t ∈ b, ∃ q, keptValue? t = some q)
    (h : ∀ q, q ∈ a.map textValue? ↔ q ∈ b.map keptValue?) : KeptAs a b := by
  have hvalue : ∀ t ∈ b, keptValue? t = some ((keptValue? t).getD 0) := by
    intro t ht
    obtain ⟨q, hq⟩ := hkept t ht
    rw [hq, Option.getD_some]
  refine ⟨fun t => (keptValue? t).getD 0, fun t ht => .inl (hvalue t ht), fun q => ?_⟩
  rw [h, List.map_congr_left hvalue]

/-- A set of numbers that were read is written as what was read. -/
theorem mem_written_ofList {l : List Number} (hread : ∀ n ∈ l, ∃ t, ofText? t = some n)
    (q : Option ℚ) :
    (q ∈ (SortedSet.ofList l).elements.map fun n => some n.written) ↔
      q ∈ l.map fun n => some n.written := by
  simp only [List.mem_map]
  constructor
  · rintro ⟨n, hn, rfl⟩
    exact ⟨n, SortedSet.mem_of_mem_ofList hn, rfl⟩
  · rintro ⟨n, hn, rfl⟩
    obtain ⟨m, hm, heq⟩ := SortedSet.exists_mem_ofList hn
    obtain ⟨t, ht⟩ := hread n hn
    obtain ⟨t', ht'⟩ := hread m (SortedSet.mem_of_mem_ofList hm)
    rw [eq_of_rank_eq ht ht' (compare_eq_iff.mp heq).symm]
    exact ⟨m, hm, rfl⟩

section Sets

variable {texts : List String} {f : String → Number}
  (hread : ∀ t ∈ texts, ofText? t = some (f t))
include hread

/-- What a set of numbers is written back as. -/
theorem mem_written_iff (q : Option ℚ) :
    (q ∈ (SortedSet.ofList (texts.map f)).elements.map fun n => some n.written) ↔
      q ∈ texts.map keptValue? := by
  have hnumbers : ∀ n ∈ texts.map f, ∃ t, ofText? t = some n := by
    intro n hn
    obtain ⟨t, ht, rfl⟩ := List.mem_map.mp hn
    exact ⟨t, hread t ht⟩
  have hkept : texts.map keptValue? = (texts.map f).map fun n => some n.written := by
    rw [List.map_map]
    exact List.map_congr_left fun t ht => keptValue?_of_ofText? (hread t ht)
  rw [hkept]
  exact mem_written_ofList hnumbers q

variable (hvalue : ∀ t ∈ texts, ∃ q, textValue? t = some q)
  (hnodup : (texts.map textValue?).Nodup)
include hvalue hnodup

/-- **When a set of numbers is written back.** -/
theorem perm_written_iff :
    ((SortedSet.ofList (texts.map f)).elements.map fun n => some n.written).Perm
        (texts.map textValue?) ↔
      ∀ t ∈ texts, Kept t := by
  constructor
  · intro hperm t ht
    have hlength := hperm.length_eq
    simp only [List.length_map] at hlength
    have hall : (SortedSet.ofList (texts.map f)).elements.Perm (texts.map f) := by
      refine List.Subperm.perm_of_length_le ?_ ?_
      · exact List.subperm_of_subset (SortedSet.nodup_elements _)
          fun _ hn => SortedSet.mem_of_mem_ofList hn
      · rw [List.length_map, hlength]
    have hwritten : (texts.map fun t => some (f t).written).Perm (texts.map textValue?) := by
      have hmap := (hall.map fun n => some n.written).symm.trans hperm
      rwa [List.map_map] at hmap
    by_cases hnumeral : ∃ i, IntegerRange.int64.read t.toList = .ok i
    · obtain ⟨i, hi⟩ := hnumeral
      exact kept_of_read hi
    · -- Some text denotes what this one is written as, and is written as that too.
      obtain ⟨t', ht', hdenotes⟩ : ∃ t' ∈ texts, textValue? t' = some (f t).written :=
        List.mem_map.mp (hwritten.mem_iff.mp (List.mem_map.mpr ⟨t, ht, rfl⟩))
      have hsame : (f t').written = (f t).written :=
        written_of_textValue? (hread t ht) (not_exists.mp hnumeral) (hread t' ht') hdenotes
      have heq : t' = t :=
        List.inj_on_of_nodup_map (hwritten.nodup_iff.mpr hnodup) ht' ht (congrArg some hsame)
      rw [heq] at hdenotes
      exact (written_eq_iff (hread t ht) hdenotes).mp rfl
  · intro hkept
    have hwritten : texts.map (fun t => some (f t).written) = texts.map textValue? := by
      refine List.map_congr_left fun t ht => ?_
      obtain ⟨q, hq⟩ := hvalue t ht
      rw [hq, (written_eq_iff (hread t ht) hq).mpr (hkept t ht)]
    have hdifferent : (texts.map f).Pairwise fun a b => compare a b ≠ .eq := by
      rw [← hwritten, List.Nodup, List.pairwise_map] at hnodup
      rw [List.pairwise_map]
      refine hnodup.imp_of_mem fun {t t'} ht ht' hne heq => hne ?_
      rw [eq_of_rank_eq (hread t ht) (hread t' ht') (compare_eq_iff.mp heq)]
    have hperm := (SortedSet.ofList_perm hdifferent).map fun n => some n.written
    rwa [List.map_map, show ((fun n => some n.written) ∘ f) = fun t => some (f t).written from rfl,
      hwritten] at hperm

end Sets

end Number

/-! ### Stored values -/

namespace Wire

mutual

/-- The texts of the numbers in a wire value, at any depth. -/
def numbers : Wire → List String
  | .number text => [text]
  | .numberSet texts => texts
  | .list items => numbersOfItems items
  | .map entries => numbersOfEntries entries
  | _ => []

/-- The numbers of all items. -/
def numbersOfItems : List Wire → List String
  | [] => []
  | w :: ws => numbers w ++ numbersOfItems ws

/-- The numbers of the values of all entries. -/
def numbersOfEntries : List (String × Wire) → List String
  | [] => []
  | (_, w) :: entries => numbers w ++ numbersOfEntries entries

end

mutual

/-- What the store holds: its nulls are true, its sets have elements, no two of them equal, and
its numbers are decimals in range. -/
def Storable : Wire → Prop
  | .null flag => flag = true
  | .number text => Number.Storable text
  | .stringSet ss => ss ≠ [] ∧ ss.Nodup
  | .numberSet texts =>
    texts ≠ [] ∧ (∀ t ∈ texts, Number.Storable t) ∧ (texts.map textValue?).Nodup
  | .binarySet bs => bs ≠ [] ∧ bs.Nodup
  | .list items => StorableItems items
  | .map entries => Dict.Distinct entries ∧ StorableEntries entries
  | .unknown => False
  | _ => True

/-- The store holds every item. -/
def StorableItems : List Wire → Prop
  | [] => True
  | w :: ws => Storable w ∧ StorableItems ws

/-- The store holds the value of every entry. -/
def StorableEntries : List (String × Wire) → Prop
  | [] => True
  | (_, w) :: entries => Storable w ∧ StorableEntries entries

end

section SameBy

variable (same : List String → List String → Prop)

mutual

/-- Equality of stored data, maps and sets in any order.  Numbers and sets of numbers are
compared by their texts, a number as the set that has no other. -/
def SameBy : Wire → Wire → Prop
  | .string a, .string b => a = b
  | .number a, .number b => same [a] [b]
  | .bytes a, .bytes b => a = b
  | .bool a, .bool b => a = b
  | .null a, .null b => a = b
  | .stringSet a, .stringSet b => a.Perm b
  | .numberSet a, .numberSet b => same a b
  | .binarySet a, .binarySet b => a.Perm b
  | .list a, .list b => SameItemsBy a b
  | .map a, .map b => a.length = b.length ∧ SameEntriesBy a b
  | _, _ => False

/-- Equality of lists, item by item. -/
def SameItemsBy : List Wire → List Wire → Prop
  | [], [] => True
  | v :: vs, w :: ws => SameBy v w ∧ SameItemsBy vs ws
  | _, _ => False

/-- Every entry of the first map has an equal one in the second. -/
def SameEntriesBy : List (String × Wire) → List (String × Wire) → Prop
  | [], _ => True
  | (k, v) :: entries, other =>
    (match Dict.get? other k with
      | some w => SameBy v w
      | none => False) ∧ SameEntriesBy entries other

end

end SameBy

end Wire

namespace Value

theorem mapM_decodeNumber_eq_ok {texts : List String} {f : String → Number}
    (h : ∀ t ∈ texts, Number.ofText? t = some (f t)) :
    texts.mapM decodeNumber = .ok (texts.map f) := by
  induction texts with
  | nil => rfl
  | cons t texts ih =>
    have ht : decodeNumber t = .ok (f t) := decodeNumber_eq_ok.mpr (h t (List.mem_cons_self ..))
    rw [List.mapM_cons, ht, ih fun t' ht' => h t' (List.mem_cons_of_mem _ ht')]
    rfl

/-- Numbers with texts are written, and the texts denote what the numbers are written as. -/
theorem exists_mapM_encodeNumber {l : List Number} (h : ∀ n ∈ l, ∃ text, n.text? = some text) :
    ∃ texts, l.mapM encodeNumber = .ok texts ∧
      texts.map textValue? = l.map fun n => some n.written := by
  induction l with
  | nil => exact ⟨[], rfl, rfl⟩
  | cons n l ih =>
    obtain ⟨text, htext⟩ := h n (List.mem_cons_self ..)
    obtain ⟨texts, htexts, hvalues⟩ := ih fun m hm => h m (List.mem_cons_of_mem _ hm)
    refine ⟨text :: texts, ?_, ?_⟩
    · rw [List.mapM_cons, encodeNumber_eq_ok.mpr htext, htexts]
      rfl
    · rw [List.map_cons, List.map_cons, hvalues, Number.textValue?_of_text? htext]

theorem encodeElements_of_isEmpty {α : Type} [Ord α] {s : SortedSet α} (h : s.isEmpty = false) :
    encodeElements s = .ok s.elements := by
  rw [encodeElements, h]
  rfl

theorem encodeElements_ofList {α : Type} [Ord α] [TransOrd α] {l : List α} (hl : l ≠ []) :
    encodeElements (SortedSet.ofList l) = .ok (SortedSet.ofList l).elements :=
  encodeElements_of_isEmpty (SortedSet.isEmpty_ofList hl)

end Value

namespace Wire

/-- A value is written back: as numbers of the value are kept, and as the value itself if, and
only if, all its numbers are. -/
structure WrittenBack (w : Wire) (v : Value) (w' : Wire) : Prop where
  decoded : Value.decode w = .ok v
  encoded : v.encode = .ok w'
  kept : w'.SameBy Number.KeptAs w
  same_iff : w'.SameBy Number.Same w ↔ ∀ t ∈ w.numbers, Number.Kept t

theorem exists_number_written_back {text : String} (h : Number.Storable text) :
    ∃ v w', WrittenBack (.number text) v w' := by
  obtain ⟨n, hn⟩ := h.exists_ofText?
  obtain ⟨text', htext⟩ := Number.exists_text_of_ofText? hn
  have hvalue := Number.textValue?_of_text? htext
  refine ⟨.number n, .number text', ⟨?_, ?_, ?_, ?_⟩⟩
  · rw [Value.decode, Value.decodeNumber_eq_ok.mpr hn]
    rfl
  · rw [Value.encode, Value.encodeNumber_eq_ok.mpr htext]
    rfl
  · have hkept := Number.keptValue?_of_ofText? hn
    refine Number.keptAs_of_mem_iff (List.forall_mem_singleton.mpr ⟨_, hkept⟩) fun q => ?_
    rw [List.map_singleton, List.map_singleton, hvalue, hkept]
  · rw [SameBy, Number.same_singleton, hvalue, ← Number.keptValue?_of_ofText? hn, numbers,
      List.forall_mem_singleton, Number.Kept]

theorem exists_numberSet_written_back {texts : List String} (hne : texts ≠ [])
    (hstorable : ∀ t ∈ texts, Number.Storable t) (hnodup : (texts.map textValue?).Nodup) :
    ∃ v w', WrittenBack (.numberSet texts) v w' := by
  obtain ⟨f, hread⟩ : ∃ f : String → Number, ∀ t ∈ texts, Number.ofText? t = some (f t) := by
    refine ⟨fun t => (Number.ofText? t).getD (.integer 0), fun t ht => ?_⟩
    obtain ⟨n, hn⟩ := (hstorable t ht).exists_ofText?
    simp only [hn, Option.getD_some]
  have hvalue : ∀ t ∈ texts, ∃ q, textValue? t = some q := by
    intro t ht
    obtain ⟨q, hq, -⟩ := hstorable t ht
    exact ⟨q, hq⟩
  have htexts : ∀ n ∈ (SortedSet.ofList (texts.map f)).elements, ∃ text, n.text? = some text := by
    intro n hn
    obtain ⟨t, ht, rfl⟩ := List.mem_map.mp (SortedSet.mem_of_mem_ofList hn)
    exact Number.exists_text_of_ofText? (hread t ht)
  obtain ⟨texts', hencode, hvalues⟩ := Value.exists_mapM_encodeNumber htexts
  have hmapped : texts.map f ≠ [] := fun hnil => hne (List.map_eq_nil_iff.mp hnil)
  refine ⟨.numberSet (.ofList (texts.map f)), .numberSet texts', ⟨?_, ?_, ?_, ?_⟩⟩
  · rw [Value.decode, Value.mapM_decodeNumber_eq_ok hread]
    rfl
  · exact bind_eq_ok.mpr
      ⟨_, Value.encodeElements_ofList hmapped, bind_eq_ok.mpr ⟨texts', hencode, rfl⟩⟩
  · refine Number.keptAs_of_mem_iff (fun t ht => ⟨_, Number.keptValue?_of_ofText? (hread t ht)⟩) ?_
    intro q
    rw [hvalues]
    exact Number.mem_written_iff hread q
  · rw [SameBy, Number.Same, hvalues]
    exact Number.perm_written_iff hread hvalue hnodup

mutual

/-- **When a stored value is written back.** -/
theorem exists_written_back : ∀ {w : Wire}, w.Storable → ∃ v w', WrittenBack w v w'
  | .string s, _ =>
    ⟨.string s, .string s, ⟨rfl, rfl, rfl, by simp [SameBy, numbers]⟩⟩
  | .number text, h => exists_number_written_back h
  | .bytes b, _ => ⟨.bytes b, .bytes b, ⟨rfl, rfl, rfl, by simp [SameBy, numbers]⟩⟩
  | .bool b, _ => ⟨.bool b, .bool b, ⟨rfl, rfl, rfl, by simp [SameBy, numbers]⟩⟩
  | .null flag, h => by
    obtain rfl : flag = true := h
    exact ⟨.null, .null true, ⟨rfl, rfl, rfl, by simp [SameBy, numbers]⟩⟩
  | .stringSet ss, h => by
    obtain ⟨hne, hnodup⟩ := h
    have hperm := SortedSet.ofList_perm_of_nodup hnodup
    refine ⟨.stringSet (.ofList ss), .stringSet (SortedSet.ofList ss).elements, ⟨rfl, ?_, ?_, ?_⟩⟩
    · rw [Value.encode, Value.encodeElements_ofList hne]
      rfl
    · exact hperm
    · simp [SameBy, numbers, hperm]
  | .numberSet texts, h => by
    obtain ⟨hne, hstorable, hnodup⟩ := h
    exact exists_numberSet_written_back hne hstorable hnodup
  | .binarySet bs, h => by
    obtain ⟨hne, hnodup⟩ := h
    have hperm := SortedSet.ofList_perm_of_nodup hnodup
    refine ⟨.binarySet (.ofList bs), .binarySet (SortedSet.ofList bs).elements, ⟨rfl, ?_, ?_, ?_⟩⟩
    · rw [Value.encode, Value.encodeElements_ofList hne]
      rfl
    · exact hperm
    · simp [SameBy, numbers, hperm]
  | .list items, h => by
    obtain ⟨vs, ws, hdecode, hencode, hkept, hsame⟩ := exists_items_written_back h
    refine ⟨.list vs, .list ws, ⟨?_, ?_, hkept, hsame⟩⟩
    · rw [Value.decode, hdecode]
      rfl
    · rw [Value.encode, hencode]
      rfl
  | .map entries, h => by
    obtain ⟨hdistinct, hentries⟩ := h
    obtain ⟨vs, ws, hdecode, hencode, hkeys, hback⟩ := exists_entries_written_back hentries
    obtain ⟨hkept, hsame⟩ := hback entries fun k w hmem => Dict.get?_of_mem hdistinct hmem
    have hlength : ws.length = entries.length := Dict.length_eq_of_keys_eq hkeys
    refine ⟨.map vs, .map ws, ⟨?_, ?_, ⟨hlength, hkept⟩, ?_⟩⟩
    · rw [Value.decode, hdecode]
      rfl
    · rw [Value.encode, hencode]
      rfl
    · rw [SameBy, numbers, hsame]
      simp only [hlength, true_and]
  | .unknown, h => h.elim

theorem exists_items_written_back : ∀ {items : List Wire}, StorableItems items →
    ∃ vs ws, Value.decodeItems items = .ok vs ∧ Value.encodeItems vs = .ok ws ∧
      SameItemsBy Number.KeptAs ws items ∧
      (SameItemsBy Number.Same ws items ↔ ∀ t ∈ numbersOfItems items, Number.Kept t)
  | [], _ => ⟨[], [], rfl, rfl, trivial, by simp [SameItemsBy, numbersOfItems]⟩
  | w :: items, h => by
    obtain ⟨hhead, htail⟩ := h
    obtain ⟨v, w', hw⟩ := exists_written_back hhead
    obtain ⟨vs, ws, hdecode, hencode, hkept, hsame⟩ := exists_items_written_back htail
    refine ⟨v :: vs, w' :: ws, ?_, ?_, ⟨hw.kept, hkept⟩, ?_⟩
    · rw [Value.decodeItems, hw.decoded, hdecode]
      rfl
    · rw [Value.encodeItems, hw.encoded, hencode]
      rfl
    · rw [SameItemsBy, numbersOfItems, List.forall_mem_append, hw.same_iff, hsame]

theorem exists_entries_written_back : ∀ {entries : List (String × Wire)},
    StorableEntries entries →
    ∃ vs ws, Value.decodeEntries entries = .ok vs ∧ Value.encodeEntries vs = .ok ws ∧
      Dict.keys ws = Dict.keys entries ∧
      ∀ other, (∀ k w, (k, w) ∈ entries → Dict.get? other k = some w) →
        SameEntriesBy Number.KeptAs ws other ∧
        (SameEntriesBy Number.Same ws other ↔ ∀ t ∈ numbersOfEntries entries, Number.Kept t)
  | [], _ => ⟨[], [], rfl, rfl, rfl, fun _ _ =>
      ⟨trivial, by simp [SameEntriesBy, numbersOfEntries]⟩⟩
  | (k, w) :: entries, h => by
    obtain ⟨hhead, htail⟩ := h
    obtain ⟨v, w', hw⟩ := exists_written_back hhead
    obtain ⟨vs, ws, hdecode, hencode, hkeys, hback⟩ := exists_entries_written_back htail
    refine ⟨(k, v) :: vs, (k, w') :: ws, ?_, ?_, ?_, ?_⟩
    · rw [Value.decodeEntries, hw.decoded, hdecode]
      rfl
    · rw [Value.encodeEntries, hw.encoded, hencode]
      rfl
    · rw [Dict.keys_cons, Dict.keys_cons, hkeys]
    · intro other hother
      have hothers : ∀ k w, (k, w) ∈ entries → Dict.get? other k = some w :=
        fun k w hmem => hother k w (List.mem_cons_of_mem _ hmem)
      obtain ⟨hkept, hsame⟩ := hback other hothers
      have hget := hother k w (List.mem_cons_self ..)
      constructor
      · rw [SameEntriesBy, hget]
        exact ⟨hw.kept, hkept⟩
      · rw [SameEntriesBy, hget, numbersOfEntries, List.forall_mem_append, hsame]
        simp only [hw.same_iff]

end

end Wire

end ItemStore
