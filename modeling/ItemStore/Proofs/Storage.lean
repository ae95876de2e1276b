import ItemStore.Data
import ItemStore.Proofs.Attributes
import ItemStore.Proofs.WriteBack

/-!
# Serialized fields that are stored and read back

Each encoding turns serialized data of one form into an attribute, and the attribute back into
such data.  What is stored as it is and what is stored as a byte string comes back unchanged.
What is stored as a set comes back without repetition and in order, and is left out if it has
no element.  Fields are stored under their attributes and attributes are read as their fields,
so that names do not matter, even where a field has the name of another field's attribute.

## Main definitions

* `Encoding.Serialized` — the serialized data that an encoding is made for.
* `SortedSet.Arranges` — the different elements of a list, in ascending order.
* `Encoding.Returns` — what comes back of serialized data.

## Main results

* `SortedSet.elements_ofList_map` — an order-preserving map takes sets to sets.
* `Encoding.Serialized.returns` — what is stored for serialized data, and what comes back.
* `Schema.readFields_storeFields` — what comes back of serialized fields.
-/

namespace ItemStore

open Std

/-! ### Lists without repetition and in order -/

namespace SortedSet

/-- The second list has the different elements of the first in ascending order. -/
structure Arranges {α : Type} [Ord α] (l arranged : List α) : Prop where
  ascending : arranged.Pairwise fun a b => compare a b = .lt
  mem_iff : ∀ a, a ∈ arranged ↔ a ∈ l

variable {α β : Type} [Ord α] [TransOrd α]

/-- The elements of a set are those that were written, in order. -/
theorem arranges_ofList [LawfulEqOrd α] (l : List α) : Arranges l (ofList l).elements := by
  refine ⟨(ofList l).ascending, fun a => ⟨mem_of_mem_ofList, fun ha => ?_⟩⟩
  obtain ⟨b, hb, heq⟩ := exists_mem_ofList ha
  rwa [← LawfulEqOrd.eq_of_compare heq]

variable [Ord β] [TransOrd β] {g : α → β} (hg : ∀ a b, compare (g a) (g b) = compare a b)
include hg

omit [TransOrd α] [TransOrd β] in
theorem insertInto_map (a : α) (l : List α) :
    insertInto (g a) (l.map g) = (insertInto a l).map g := by
  induction l with
  | nil => rfl
  | cons b l ih =>
    rw [List.map_cons, insertInto, insertInto, hg]
    cases compare a b with
    | lt => rfl
    | eq => rfl
    | gt => rw [ih, List.map_cons]

/-- An order-preserving map takes sets to sets. -/
theorem elements_ofList_map (l : List α) :
    (ofList (l.map g)).elements = (ofList l).elements.map g := by
  have hfold : ∀ (l : List α) (s : SortedSet α) (t : SortedSet β), t.elements = s.elements.map g →
      ((l.map g).foldl insert t).elements = (l.foldl insert s).elements.map g := by
    intro l
    induction l with
    | nil => exact fun s t h => h
    | cons a l ih =>
      intro s t h
      refine ih _ _ ?_
      rw [elements_insert, elements_insert, h, insertInto_map hg]
  exact hfold l empty empty rfl

end SortedSet

namespace Number

/-- Integers are ordered as numbers as they are ordered among themselves. -/
theorem compare_integer (i j : Int64) : compare (integer i) (integer j) = compare i j := by
  have hone : 0 < (FloatFormat.double.one : Int) := by decide +kernel
  have hrank : ∀ i j : Int64, i < j → (integer i).rank < (integer j).rank := fun i j hij =>
    Int.mul_lt_mul_of_pos_right (Int64.lt_iff_toInt_lt.mp hij) hone
  rw [compare_def]
  rcases Int.lt_trichotomy i.toInt j.toInt with hlt | heq | hgt
  · have hij := Int64.lt_iff_toInt_lt.mpr hlt
    rw [Std.compare_eq_lt.mpr hij, Std.compare_eq_lt.mpr (hrank i j hij)]
  · obtain rfl := Int64.toInt_inj.mp heq
    rw [ReflOrd.compare_self, ReflOrd.compare_self]
  · have hji := Int64.lt_iff_toInt_lt.mpr hgt
    rw [Std.compare_eq_gt.mpr hji, Std.compare_eq_gt.mpr (hrank j i hji)]

end Number

/-! ### Bytes -/

/-- What starts with a digit is read as digits. -/
theorem IntegerRange.read_of_isDigit (range : IntegerRange) {c : Char} (hc : c.isDigit)
    (cs : List Char) : range.read (c :: cs) = range.readUp 0 (c :: cs) := by
  unfold read
  split
  · next h => cases h
  · next h =>
    cases h
    cases hc
  · next h =>
    cases h
    cases hc
  · next h =>
    cases h
    cases hc
  · next h =>
    cases h
    cases hc
  · rfl

/-- The text of a natural number of the range is read as the number. -/
theorem IntegerRange.read_natText {range : IntegerRange} {n : Nat}
    (h : (n : Int) ≤ range.greatest) : range.read (natText n).toList = .ok n := by
  have hdigits : ∀ c ∈ Nat.toDigits 10 n, c.isDigit := fun c hc =>
    Nat.isDigit_of_mem_toDigits (by decide) (by decide) hc
  have hup : range.readUp 0 (Nat.toDigits 10 n) = .ok n := by
    have hzero : ((0 : Nat) : Int) ≤ range.greatest := by omega
    rw [show (0 : Int) = ((0 : Nat) : Int) from rfl, readUp_eq_ok_iff hzero]
    exact ⟨hdigits, by rw [Nat.ofDigitChars_ten_toDigits], h⟩
  rw [natText, String.toList_ofList]
  obtain ⟨c, cs, hcs⟩ := List.exists_cons_of_ne_nil (Nat.toDigits_ne_nil (n := n) (b := 10))
  rw [hcs] at hdigits hup ⊢
  rw [read_of_isDigit range (hdigits c (List.mem_cons_self ..)), hup]

/-! ### Lists of one form -/

namespace Value

variable {α β : Type}

theorem decodeItems_map {w : α → Wire} {v : α → Value} {l : List α}
    (h : ∀ a ∈ l, decode (w a) = .ok (v a)) : decodeItems (l.map w) = .ok (l.map v) := by
  induction l with
  | nil => rfl
  | cons a l ih =>
    obtain ⟨ha, hl⟩ := List.forall_mem_cons.mp h
    rw [List.map_cons, decodeItems, ha, ih hl]
    rfl

theorem collect_map (v : α → Value) (read? : Value → Option β) {g : α → β}
    (h : ∀ a, read? (v a) = some (g a)) (l : List α) : collect read? (l.map v) = .ok (l.map g) := by
  induction l with
  | nil => rfl
  | cons a l ih =>
    rw [List.map_cons, collect, h, ih]
    rfl

/-- A list of numbers is taken as the set of them. -/
theorem toSet_numbers {l : List Number} (hl : l ≠ []) :
    (Value.list (l.map .number)).toSet = .ok (.numberSet (.ofList l)) := by
  have hcollect : collect asNumber? (l.map .number) = .ok l := by
    simpa using collect_map .number asNumber? (g := id) (fun _ => rfl) l
  obtain ⟨n, l, rfl⟩ := List.exists_cons_of_ne_nil hl
  exact map_eq_ok.mpr ⟨_, hcollect, rfl⟩

/-- The text of an integer is read as the integer. -/
theorem decode_intText (i : Int64) :
    decode (.number (Data.intText i.toInt)) = .ok (.number (.integer i)) := by
  have hread : Number.ofText? (Data.intText i.toInt) = some (.integer i) :=
    Number.ofText?_text? (n := .integer i) rfl
  rw [decode, decodeNumber_eq_ok.mpr hread]
  rfl

end Value

namespace Encoding

theorem byteOf_natText (x : UInt8) : byteOf (.number (natText x.toNat)) = .ok x := by
  have hle : (x.toNat : Int) ≤ IntegerRange.byte.greatest := by
    have hlt := x.toNat_lt
    show (x.toNat : Int) ≤ 255
    omega
  rw [byteOf, IntegerRange.read_natText hle]
  simp

/-- The list of the bytes of a byte string is read as the byte string. -/
theorem bytesOf_byteList (b : Bytes) :
    bytesOf (b.map fun x => .number (natText x.toNat)) = .ok b := by
  induction b with
  | nil => rfl
  | cons x b ih =>
    rw [bytesOf] at ih ⊢
    rw [List.map_cons, List.mapM_cons, byteOf_natText, ih]
    rfl

theorem mapM_byteSequenceOf (bs : List Bytes) :
    (bs.map byteList).mapM byteSequenceOf = .ok bs := by
  induction bs with
  | nil => rfl
  | cons b bs ih =>
    have hb : byteSequenceOf (byteList b) = .ok b := bytesOf_byteList b
    rw [List.map_cons, List.mapM_cons, hb, ih]
    rfl

/-! ### Serialized data and what comes back of it -/

/-- The serialized data that an encoding is made for: a list of bytes, a list of texts or of
integers, or a list of lists of bytes.  What is stored as it is may be anything. -/
inductive Serialized : Encoding → Wire → Prop
  | native (w : Wire) : Serialized .native w
  | bytes (b : Bytes) : Serialized .bytes (byteList b)
  | strings (ss : List String) : Serialized .set (.list (ss.map .string))
  | integers (is : List Int64) :
    Serialized .set (.list (is.map fun i => .number (Data.intText i.toInt)))
  | binaries (bs : List Bytes) : Serialized .binarySet (.list (bs.map byteList))

/-- What comes back of serialized data: the same data, or the different elements of a set in
ascending order.  Of a set without elements nothing comes back. -/
inductive Returns : Encoding → Wire → Option Wire → Prop
  | native (w : Wire) : Returns .native w (some w)
  | bytes (b : Bytes) : Returns .bytes (byteList b) (some (byteList b))
  | empty {encoding : Encoding} : encoding.isSet → Returns encoding (.list []) none
  | strings {ss arranged : List String} : ss ≠ [] → SortedSet.Arranges ss arranged →
    Returns .set (.list (ss.map .string)) (some (.list (arranged.map .string)))
  | integers {is arranged : List Int64} : is ≠ [] → SortedSet.Arranges is arranged →
    Returns .set (.list (is.map fun i => .number (Data.intText i.toInt)))
      (some (.list (arranged.map fun i => .number (Data.intText i.toInt))))
  | binaries {bs arranged : List Bytes} : bs ≠ [] → SortedSet.Arranges bs arranged →
    Returns .binarySet (.list (bs.map byteList)) (some (.list (arranged.map byteList)))

/-- A list is stored as the set that it is turned into. -/
theorem encode_set {items : List Wire} (hitems : items ≠ []) {v v' : Value} {w : Wire}
    (hdecode : Value.decode (.list items) = .ok v) (hset : v.toSet = .ok v')
    (hencode : v'.encode = .ok w) : set.encode (.list items) = .ok (some w) := by
  obtain ⟨item, items, rfl⟩ := List.exists_cons_of_ne_nil hitems
  exact bind_eq_ok.mpr ⟨v, hdecode, bind_eq_ok.mpr ⟨v', hset, bind_eq_ok.mpr ⟨w, hencode, rfl⟩⟩⟩

/-- A list of texts is stored as the set of the texts. -/
theorem encode_strings {ss : List String} (hss : ss ≠ []) :
    set.encode (.list (ss.map .string)) =
      .ok (some (.stringSet (SortedSet.ofList ss).elements)) := by
  have hdecode : Value.decodeItems (ss.map .string) = .ok (ss.map .string) :=
    Value.decodeItems_map fun _ _ => rfl
  have hcollect : Value.collect Value.asString? (ss.map .string) = .ok ss := by
    simpa using Value.collect_map .string Value.asString? (g := id) (fun _ => rfl) ss
  have hset : (Value.list (ss.map .string)).toSet = .ok (.stringSet (.ofList ss)) := by
    obtain ⟨s, ss, rfl⟩ := List.exists_cons_of_ne_nil hss
    exact map_eq_ok.mpr ⟨_, hcollect, rfl⟩
  exact encode_set (by simpa using hss) (map_eq_ok.mpr ⟨_, hdecode, rfl⟩) hset
    (map_eq_ok.mpr ⟨_, Value.encodeElements_ofList hss, rfl⟩)

/-- A list of integers is stored as the set of their texts. -/
theorem encode_integers {is : List Int64} (his : is ≠ []) :
    set.encode (.list (is.map fun i => .number (Data.intText i.toInt))) =
      .ok (some (.numberSet ((SortedSet.ofList is).elements.map fun i => Data.intText i.toInt))) := by
  have hdecode := Value.decodeItems_map (l := is) fun i _ => Value.decode_intText i
  have hnumbers : is.map Number.integer ≠ [] := by simpa using his
  have hset := Value.toSet_numbers hnumbers
  rw [List.map_map] at hset
  refine encode_set (by simpa using his) (map_eq_ok.mpr ⟨_, hdecode, rfl⟩) hset ?_
  refine bind_eq_ok.mpr ⟨_, Value.encodeElements_ofList hnumbers, bind_eq_ok.mpr ⟨_, ?_, rfl⟩⟩
  -- The numbers of the set are the integers of the set of integers.
  rw [SortedSet.elements_ofList_map Number.compare_integer, List.mapM_map]
  exact mapM_eq_ok.mpr ((List.forall₂_map_right_iff).mpr (List.forall₂_same.mpr fun _ _ => rfl))

/-- A list of lists of bytes is stored as the set of byte strings. -/
theorem encode_binaries {bs : List Bytes} (hbs : bs ≠ []) :
    binarySet.encode (.list (bs.map byteList)) =
      .ok (some (.binarySet (SortedSet.ofList bs).elements)) := by
  obtain ⟨b, bs, rfl⟩ := List.exists_cons_of_ne_nil hbs
  exact bind_eq_ok.mpr ⟨_, mapM_byteSequenceOf _, rfl⟩

theorem decode_native (w : Wire) : native.decode w = w := by
  cases w <;> rfl

/-- **What is stored for serialized data, and what comes back of it.** -/
theorem Serialized.returns {encoding : Encoding} {w : Wire} (h : encoding.Serialized w) :
    ∃ o, encoding.encode w = .ok o ∧ encoding.Returns w (o.map encoding.decode) := by
  cases h with
  | native w =>
    refine ⟨some w, encode_native w, ?_⟩
    rw [Option.map_some, decode_native]
    exact .native w
  | bytes b =>
    exact ⟨some (.bytes b), bind_eq_ok.mpr ⟨b, bytesOf_byteList b, rfl⟩, .bytes b⟩
  | strings ss =>
    by_cases hss : ss = []
    · subst hss
      exact ⟨none, rfl, .empty rfl⟩
    · exact ⟨_, encode_strings hss, .strings hss (SortedSet.arranges_ofList ss)⟩
  | integers is =>
    by_cases his : is = []
    · subst his
      exact ⟨none, rfl, .empty rfl⟩
    · refine ⟨_, encode_integers his, ?_⟩
      have hreturns := Returns.integers his (SortedSet.arranges_ofList is)
      simp only [Option.map_some, decode, isSet, List.map_map]
      exact hreturns
  | binaries bs =>
    by_cases hbs : bs = []
    · subst hbs
      exact ⟨none, rfl, .empty rfl⟩
    · exact ⟨_, encode_binaries hbs, .binaries hbs (SortedSet.arranges_ofList bs)⟩

end Encoding

/-! ### Fields and attributes -/

namespace Schema

/-- **Serialized fields that are stored and read back.**

Whatever the names of fields and attributes are, fields with data that their encodings are
made for can be stored.  The attributes, in any order, are read as the same fields with what
comes back of the data, and as no others. -/
theorem readFields_storeFields {draft : SchemaDraft} {s : Schema} (hs : draft.build = .ok s)
    {fields : Item} (hfields : Dict.Distinct fields)
    (hserialized : ∀ e ∈ fields, ∃ f ∈ s.fields, f.name = e.1 ∧ f.encoding.Serialized e.2) :
    ∃ item, s.storeFields fields = .ok item ∧ Dict.Distinct item ∧ ∀ item', item'.Perm item →
      Dict.Distinct (s.readFields item') ∧
        (∀ k ∈ Dict.keys (s.readFields item'), k ∈ Dict.keys fields) ∧
        ∀ e ∈ fields, ∃ f ∈ s.fields, f.name = e.1 ∧
          f.encoding.Returns e.2 ((s.readFields item').get? e.1) := by
  have hapart := SchemaDraft.apart_of_build hs
  -- What is stored for a field, and what comes back of it.
  have hreturns : ∀ f ∈ s.fields, ∀ w, fields.get? f.name = some w →
      ∃ o, f.stored fields = .ok o ∧ f.encoding.Returns w (o.map f.encoding.decode) := by
    intro f hf w hget
    obtain ⟨g, hg, hname, hw⟩ := hserialized _ (Dict.mem_of_get? hget)
    obtain rfl := List.inj_on_of_nodup_map hapart.names hg hf hname
    rw [Field.stored, hget]
    exact hw.returns
  obtain ⟨item, hitem⟩ : ∃ item, s.storeFields fields = .ok item := by
    rw [exists_storeFields_iff hapart hfields]
    constructor
    · intro k hk
      obtain ⟨e, he, rfl⟩ := List.mem_map.mp hk
      obtain ⟨f, hf, hname, -⟩ := hserialized e he
      exact List.mem_map.mpr ⟨f, hf, hname⟩
    · intro f hf
      cases hget : fields.get? f.name with
      | none => exact ⟨none, by rw [Field.stored, hget]⟩
      | some w =>
        obtain ⟨o, ho, -⟩ := hreturns f hf w hget
        exact ⟨o, ho⟩
  have hstores := stores_storeFields hapart hfields hitem
  refine ⟨item, hitem, hstores.distinct, ?_⟩
  intro item' hperm
  have hitem' : Dict.Distinct item' := (hperm.map Prod.fst).nodup_iff.mpr hstores.distinct
  have hread : ∀ f ∈ s.fields,
      (s.readFields item').get? f.name = (item.get? f.attributeName).map f.encoding.decode := by
    intro f hf
    rw [get?_readFields hapart hitem' hf, Dict.get?_perm hstores.distinct hperm.symm]
  refine ⟨distinct_readFields hapart hitem', ?_, ?_⟩
  · intro k hk
    obtain ⟨f, hf, rfl⟩ := mem_keys_readFields hapart hk
    obtain ⟨w, hw⟩ := Dict.exists_get?_of_mem_keys hk
    by_contra hnot
    -- For a field that is not there nothing is stored, so that nothing can be read.
    have hnone := hstores.field f hf
    rw [Field.stored, Dict.get?_eq_none_iff.mpr hnot] at hnone
    rw [hread f hf, ← Except.ok.inj hnone] at hw
    cases hw
  · intro e he
    obtain ⟨f, hf, hname, -⟩ := hserialized e he
    have hget : fields.get? f.name = some e.2 := by
      rw [hname]
      exact Dict.get?_of_mem hfields he
    obtain ⟨o, ho, hback⟩ := hreturns f hf e.2 hget
    rw [hstores.field f hf] at ho
    refine ⟨f, hf, hname, ?_⟩
    rw [← hname, hread f hf, Except.ok.inj ho]
    exact hback

/-- Two fields with the names of each other's attributes, one a set and one a byte string, and a
set without elements. -/
theorem readFields_storeFields_swapped :
    let draft := (((((SchemaDraft.new "table").declareKey "id" .unnamed).declarePlain "a"
      (.named "b")).declarePlain "b" (.named "a")).declarePlain "c" .unnamed).encode "a" .set
      |>.encode "b" .bytes |>.encode "c" .binarySet
    let tags := Wire.list (["y", "x", "y"].map .string)
    let fields : Item := [("a", tags), ("b", Encoding.byteList [1, 255]), ("c", .list []),
      ("id", .null true)]
    ∃ s item, draft.build = .ok s ∧ s.storeFields fields = .ok item ∧
      item = [("b", .stringSet ["x", "y"]), ("a", .bytes [1, 255]), ("id", .null true)] ∧
      Encoding.Returns .set tags ((s.readFields item).get? "a") ∧
      Encoding.Returns .bytes (Encoding.byteList [1, 255]) ((s.readFields item).get? "b") ∧
      Encoding.Returns .binarySet (.list []) ((s.readFields item).get? "c") := by
  intro draft tags fields
  let s : Schema := ⟨"table", none,
    [⟨"id", "id", ⟨none, some "id", []⟩, true, .native⟩,
      ⟨"b", "a", ⟨some "b", some "a", []⟩, false, .set⟩,
      ⟨"a", "b", ⟨some "a", some "b", []⟩, false, .bytes⟩,
      ⟨"c", "c", ⟨none, some "c", []⟩, false, .binarySet⟩]⟩
  have hs : draft.build = .ok s := rfl
  have hdistinct : Dict.Distinct fields := by
    simp [Dict.Distinct, fields]
  have hserialized : ∀ e ∈ fields, ∃ f ∈ s.fields, f.name = e.1 ∧ f.encoding.Serialized e.2 := by
    intro e he
    simp only [fields, List.mem_cons, List.not_mem_nil, or_false] at he
    rcases he with rfl | rfl | rfl | rfl
    · exact ⟨_, .tail _ (.head _), rfl, .strings ["y", "x", "y"]⟩
    · exact ⟨_, .tail _ (.tail _ (.head _)), rfl, .bytes [1, 255]⟩
    · exact ⟨_, .tail _ (.tail _ (.tail _ (.head _))), rfl, .binaries []⟩
    · exact ⟨_, .head _, rfl, .native _⟩
  obtain ⟨item, hitem, -, hback⟩ := readFields_storeFields hs hdistinct hserialized
  obtain ⟨-, -, hreturns⟩ := hback item (.refl _)
  -- The encoding that the theorem speaks of is the one of the field with this name.
  have hreturns' : ∀ (name : String) (w : Wire) (encoding : Encoding), (name, w) ∈ fields →
      (∀ f ∈ s.fields, f.name = name → f.encoding = encoding) →
      encoding.Returns w ((s.readFields item).get? name) := by
    intro name w encoding hmem hencoding
    obtain ⟨f, hf, hname, hw⟩ := hreturns _ hmem
    rwa [hencoding f hf hname] at hw
  refine ⟨s, item, hs, hitem, ?_, ?_, ?_, ?_⟩
  · cases hitem
    rfl
  · exact hreturns' "a" tags .set (by simp [fields]) (by decide)
  · exact hreturns' "b" _ .bytes (by simp [fields]) (by decide)
  · exact hreturns' "c" _ .binarySet (by simp [fields]) (by decide)

end Schema

end ItemStore
