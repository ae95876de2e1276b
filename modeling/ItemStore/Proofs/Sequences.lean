import ItemStore.Proofs.Coercion
import ItemStore.Proofs.Integers

/-!
# What decoding makes of what was encoded

Sequences, byte strings and sets are told apart on the wire, and an encoding does away with some of
that: it stores a sequence as a byte string or as a set, and also lets through what is one already.
Decoding sees only what is stored, and takes it for a sequence.  So a sequence comes back as one: a
sequence of bytes in the same order, and the elements of a set in another order, without repetition,
and with their numbers written anew.  A byte string that was let through, a set, and byte strings
among the elements of a set come back as sequences too; everything else comes back as it was.

## Main definitions

* `Wire.Rerenders` — an element of a sequence, with its numbers written anew.
* `Encoding.Restores` — a wire value, up to what an encoding does to the elements of a sequence.
* `Wire.asSequence` — a byte string or a set as a sequence, with byte strings in it as sequences.
* `Encoding.Opens` — the byte strings and sets that an encoding takes for sequences.

## Main results

* `Encoding.restores_elements` — the elements of a set are those of the sequence.
* `Encoding.restores_asSequence` — what a sequence that is stored as a set comes back as.
* `Encoding.restores_cases` — which values come back, and what the others come back as.
-/

namespace ItemStore

open Std

/-! ### Bytes as numbers -/

/-- What is read as an integer of a range without negative ones is read so in a larger range. -/
theorem IntegerRange.read_of_read {range : IntegerRange} (range' : IntegerRange)
    (hleast : 0 ≤ range.least) (hgreatest : 0 ≤ range.greatest)
    (hle : range.greatest ≤ range'.greatest) {cs : List Char} {i : Int}
    (h : range.read cs = .ok i) :
    range'.read cs = .ok i ∧ 0 ≤ i ∧ i ≤ range.greatest := by
  have hup : ∀ ds : List Char, range.readUp 0 ds = .ok i →
      range'.readUp 0 ds = .ok i ∧ 0 ≤ i ∧ i ≤ range.greatest := by
    intro ds hds
    have hgreatest' : ((0 : Nat) : Int) ≤ range'.greatest := by omega
    rw [show (0 : Int) = ((0 : Nat) : Int) from rfl, readUp_eq_ok_iff hgreatest] at hds
    rw [show (0 : Int) = ((0 : Nat) : Int) from rfl, readUp_eq_ok_iff hgreatest']
    obtain ⟨hdigits, hi, hbound⟩ := hds
    exact ⟨⟨hdigits, hi, by omega⟩, by omega, hbound⟩
  revert h
  unfold read
  split
  · intro h
    cases h
  · intro h
    cases h
  · intro h
    cases h
  · exact hup _
  · intro h
    rw [if_neg (by omega)] at h
    cases h
  · exact hup _

/-! ### Elements that are written anew -/

namespace Wire

/-- The second text is written for the number that the first is read as. -/
inductive RerendersNumber : Wire → Wire → Prop
  | number {text text' : String} {n : Number} (hread : Number.ofText? text = some n)
    (hwritten : n.text? = some text') : RerendersNumber (.number text) (.number text')

/-- The second element is the first, with its numbers written anew. -/
inductive Rerenders : Wire → Wire → Prop
  | string (s : String) : Rerenders (.string s) (.string s)
  | number {w w' : Wire} : RerendersNumber w w' → Rerenders w w'
  | list {items items' : List Wire} : List.Forall₂ RerendersNumber items items' →
    Rerenders (.list items) (.list items')

/-- A byte string as the list of its bytes. -/
def bytesAsList : Wire → Wire
  | .bytes b => Encoding.byteList b
  | w => w

/-- A byte string or a set as a sequence, and a sequence with its byte strings as sequences. -/
def asSequence : Wire → Wire
  | .bytes b => Encoding.byteList b
  | .stringSet ss => .list (ss.map .string)
  | .numberSet texts => .list (texts.map .number)
  | .binarySet bs => .list (bs.map Encoding.byteList)
  | .list items => .list (items.map bytesAsList)
  | w => w

/-- A byte string is no element that is written anew, nor is it written for one. -/
theorem Rerenders.not_bytes {b : Bytes} {w : Wire} (h : Rerenders w (.bytes b)) : False := by
  cases h with
  | number h => cases h

theorem Rerenders.of_not_bytes {b : Bytes} {w : Wire} (h : Rerenders (.bytes b) w) : False := by
  cases h with
  | number h => cases h

theorem bytesAsList_ne_bytes (w : Wire) (b : Bytes) : w.bytesAsList ≠ .bytes b := by
  cases w <;> exact nofun

theorem asSequence_of_not_mem_bytes {items : List Wire} (h : ∀ b, .bytes b ∉ items) :
    asSequence (.list items) = .list items := by
  rw [asSequence, List.map_congr_left (g := id), List.map_id]
  intro x hx
  cases x with
  | bytes b => exact absurd hx (h b)
  | _ => rfl

end Wire

open Wire

/-! ### Byte strings as sequences -/

namespace Encoding

/-- The number of a byte is written anew by its digits. -/
theorem rerendersNumber_of_byteOf {w : Wire} {x : UInt8} (h : byteOf w = .ok x) :
    RerendersNumber w (.number (natText x.toNat)) := by
  unfold byteOf at h
  split at h
  · next text =>
    split at h
    · next i hread =>
      cases h
      obtain ⟨hread', hpos, hle⟩ :=
        IntegerRange.read_of_read .int64 (by decide) (by decide) (by decide) hread
      have hbyte : ((UInt8.ofNat i.toNat).toNat : Int) = i := by
        change i ≤ 255 at hle
        rw [UInt8.toNat_ofNat', Nat.mod_eq_of_lt (by omega)]
        omega
      have hcontains := ((IntegerRange.read_eq_ok_iff (by decide) (by decide)).mp hread').2.2.2
      refine .number (Number.ofText?_eq_some_iff.mpr (.numeral hread')) ?_
      rw [Data.natText_eq_intText, hbyte, Number.text?, Number.toInt_ofInt hcontains]
      rfl
    · cases h
  · cases h

/-- Bytes are written anew as the list of their numbers. -/
theorem rerenders_of_bytesOf {items : List Wire} {b : Bytes} (h : bytesOf items = .ok b) :
    List.Forall₂ RerendersNumber items (b.map fun x => .number (natText x.toNat)) := by
  rw [bytesOf, mapM_eq_ok] at h
  rw [List.forall₂_map_right_iff]
  exact h.imp fun _ _ => rerendersNumber_of_byteOf

theorem rerenders_byteList (b : Bytes) : Rerenders (byteList b) (byteList b) :=
  .list (rerenders_of_bytesOf (bytesOf_byteList b))

theorem byteList_injective : Function.Injective byteList := by
  intro b b' h
  have hbytes := congrArg bytesOf (Wire.list.inj h)
  rw [bytesOf_byteList, bytesOf_byteList] at hbytes
  exact Except.ok.inj hbytes

end Encoding

/-! ### Numbers that were read -/

namespace Number

/-- Numbers that were read are equal only if they are the same, so that a set of them has them
all. -/
theorem mem_ofList_iff_of_read {l : List Number} (hl : ∀ n ∈ l, ∃ text, ofText? text = some n)
    (n : Number) : n ∈ (SortedSet.ofList l).elements ↔ n ∈ l := by
  refine ⟨SortedSet.mem_of_mem_ofList, fun hn => ?_⟩
  obtain ⟨m, hm, heq⟩ := SortedSet.exists_mem_ofList hn
  obtain ⟨text, htext⟩ := hl n hn
  obtain ⟨text', htext'⟩ := hl m (SortedSet.mem_of_mem_ofList hm)
  rwa [← eq_of_rank_eq htext' htext (compare_eq_iff.mp heq)]

/-- Different numbers that were read are written differently. -/
theorem eq_of_text?_eq {n n' : Number} (hn : n.Canonical) (hn' : n'.Canonical)
    (h : n.text?.getD "" = n'.text?.getD "") : n = n' := by
  obtain ⟨text, htext⟩ := exists_text_of_canonical hn
  obtain ⟨text', htext'⟩ := exists_text_of_canonical hn'
  rw [htext, htext', Option.getD_some, Option.getD_some] at h
  have hread := ofText?_text? htext
  rw [h, ofText?_text? htext', readBack_of_canonical hn, readBack_of_canonical hn'] at hread
  exact (Option.some.inj hread).symm

end Number

/-! ### Elements that were read -/

namespace Value

theorem decodeItems_eq_mapM (items : List Wire) :
    decodeItems items = items.mapM decode := by
  induction items with
  | nil => rfl
  | cons w items ih =>
    rw [decodeItems, List.mapM_cons, ih]

/-- A value that a set can have was read as it is, or is a number that was read from its text. -/
theorem element_of_decode {w : Wire} {v : Value} {t : ElementType} (ht : v.elementType? = some t)
    (h : decode w = .ok v) :
    (∃ s, w = .string s ∧ v = .string s) ∨ (∃ b, w = .bytes b ∧ v = .bytes b) ∨
      ∃ text n, w = .number text ∧ v = .number n ∧ Number.ofText? text = some n := by
  cases w with
  | string s =>
    cases h
    exact .inl ⟨s, rfl, rfl⟩
  | bytes b =>
    cases h
    exact .inr (.inl ⟨b, rfl, rfl⟩)
  | number text =>
    obtain ⟨n, hn, rfl⟩ := map_eq_ok.mp h
    exact .inr (.inr ⟨text, n, rfl, rfl, decodeNumber_eq_ok.mp hn⟩)
  | list items =>
    obtain ⟨vs, -, rfl⟩ := map_eq_ok.mp h
    cases ht
  | map entries =>
    obtain ⟨vs, -, rfl⟩ := map_eq_ok.mp h
    cases ht
  | numberSet texts =>
    rw [decode] at h
    obtain ⟨numbers, -, h⟩ := bind_eq_ok.mp h
    obtain rfl := pure_eq_ok.mp h
    cases ht
  | null b =>
    cases h
    cases ht
  | bool b =>
    cases h
    cases ht
  | stringSet ss =>
    cases h
    cases ht
  | binarySet bs =>
    cases h
    cases ht
  | unknown => cases h

theorem exists_ofText?_of_decode {w : Wire} {n : Number} (h : decode w = .ok (.number n)) :
    ∃ text, Number.ofText? text = some n := by
  obtain ⟨s, -, hv⟩ | ⟨b, -, hv⟩ | ⟨text, m, -, hv, hread⟩ := element_of_decode rfl h
  · cases hv
  · cases hv
  · cases hv
    exact ⟨text, hread⟩

/-- The element of a sequence that is written for an element of a set. -/
def elementWire : Value → Wire
  | .string s => .string s
  | .number n => .number (n.text?.getD "")
  | .bytes b => Encoding.byteList b
  | _ => .unknown

theorem rerenders_of_decode {w : Wire} {v : Value} {t : ElementType} (ht : v.elementType? = some t)
    (h : decode w = .ok v) : Rerenders w.bytesAsList (elementWire v) := by
  obtain ⟨s, rfl, rfl⟩ | ⟨b, rfl, rfl⟩ | ⟨text, n, rfl, rfl, hread⟩ := element_of_decode ht h
  · exact .string s
  · exact Encoding.rerenders_byteList b
  · obtain ⟨text', htext⟩ := Number.exists_text_of_ofText? hread
    rw [elementWire, htext]
    exact .number (.number hread htext)

theorem map_number_of_mapM {numbers : List Number} {texts : List String}
    (h : numbers.mapM encodeNumber = .ok texts) :
    texts.map Wire.number = numbers.map (elementWire ∘ .number) := by
  rw [mapM_eq_ok] at h
  induction h with
  | nil => rfl
  | cons htext _ ih =>
    rw [List.map_cons, List.map_cons, ih, Function.comp_apply, elementWire,
      encodeNumber_eq_ok.mp htext, Option.getD_some]

section Read

variable {items : List Value} {s : Value} (hset : SetOf items s)
  (hread : ∀ v ∈ items, ∃ w, decode w = .ok v)
include hset hread

/-- No element that was read is lost, and none is added. -/
theorem SetOf.mem_members_iff (v : Value) : v ∈ s.members ↔ v ∈ items := by
  cases hset with
  | texts l => simp only [members, List.mem_map, (SortedSet.arranges_ofList l).mem_iff]
  | byteStrings l => simp only [members, List.mem_map, (SortedSet.arranges_ofList l).mem_iff]
  | numbers l =>
    have hl : ∀ n ∈ l, ∃ text, Number.ofText? text = some n := by
      intro n hn
      obtain ⟨w, hw⟩ := hread _ (List.mem_map_of_mem hn)
      exact exists_ofText?_of_decode hw
    simp only [members, List.mem_map, Number.mem_ofList_iff_of_read hl]

/-- No two elements are written alike. -/
theorem SetOf.nodup_elementWire : (s.members.map elementWire).Nodup := by
  cases hset with
  | texts l =>
    rw [members, List.map_map]
    exact (SortedSet.nodup_elements _).map fun _ _ h => Wire.string.inj h
  | byteStrings l =>
    rw [members, List.map_map]
    exact (SortedSet.nodup_elements _).map Encoding.byteList_injective
  | numbers l =>
    have hcanonical : ∀ n ∈ (SortedSet.ofList l).elements, n.Canonical := by
      intro n hn
      obtain ⟨w, hw⟩ := hread _ (List.mem_map_of_mem (SortedSet.mem_of_mem_ofList hn))
      obtain ⟨text, htext⟩ := exists_ofText?_of_decode hw
      exact Number.canonical_of_ofText? htext
    rw [members, List.map_map]
    refine List.Nodup.map_on ?_ (SortedSet.nodup_elements _)
    intro n hn n' hn' h
    exact Number.eq_of_text?_eq (hcanonical n hn) (hcanonical n' hn') (Wire.number.inj h)

end Read

end Value

namespace Encoding

/-! ### Values that come back -/

/-- The second value is the first, up to what the encoding does to the elements of a sequence:
numbers are written anew, and the elements of a set are put in order without repetition. -/
inductive Restores : Encoding → Wire → Wire → Prop
  | same (e : Encoding) (w : Wire) : Restores e w w
  | bytes {items items' : List Wire} : List.Forall₂ RerendersNumber items items' →
    Restores .bytes (.list items) (.list items')
  | elements {e : Encoding} {items items' : List Wire} : e.isSet →
    (∀ x ∈ items, ∃ y ∈ items', Rerenders x y) → (∀ y ∈ items', ∃ x ∈ items, Rerenders x y) →
    items'.Nodup → Restores e (.list items) (.list items')

/-- The byte strings and sets that an encoding takes for sequences, and the sequences with byte
strings that it takes for sequences of sequences. -/
def Opens (e : Encoding) : Wire → Prop
  | .bytes _ => e = .bytes
  | .stringSet _ => e.isSet
  | .numberSet _ => e.isSet
  | .binarySet _ => e.isSet
  | .list items => e.isSet ∧ ∃ b, .bytes b ∈ items
  | _ => False

theorem Restores.exists_list {e : Encoding} {w : Wire} {items' : List Wire}
    (h : e.Restores w (.list items')) : ∃ items, w = .list items := by
  cases h with
  | same => exact ⟨_, rfl⟩
  | bytes => exact ⟨_, rfl⟩
  | elements => exact ⟨_, rfl⟩

/-- **The elements of a set are those of the sequence**, if each of these is read as one that is
written for it. -/
theorem restores_elements {α : Type} {e : Encoding} (he : e.isSet) {read : Wire → Except Error α}
    {form : α → Wire} {items : List Wire} {l arranged : List α} (hread : items.mapM read = .ok l)
    (hform : ∀ x, ∀ a ∈ l, read x = .ok a → Rerenders x.bytesAsList (form a))
    (hmem : ∀ a, a ∈ arranged ↔ a ∈ l) (hnodup : (arranged.map form).Nodup) :
    e.Restores (asSequence (.list items)) (.list (arranged.map form)) := by
  refine .elements he ?_ ?_ hnodup
  · intro y hy
    obtain ⟨x, hx, rfl⟩ := List.mem_map.mp hy
    obtain ⟨a, ha⟩ := exists_mapM_eq_ok.mp ⟨l, hread⟩ x hx
    have hmem' : a ∈ l := (mem_of_mapM hread).mpr ⟨x, hx, ha⟩
    exact ⟨form a, List.mem_map_of_mem ((hmem a).mpr hmem'), hform x a hmem' ha⟩
  · intro y hy
    obtain ⟨a, ha, rfl⟩ := List.mem_map.mp hy
    have hmem' := (hmem a).mp ha
    obtain ⟨x, hx, hxa⟩ := (mem_of_mapM hread).mp hmem'
    exact ⟨x.bytesAsList, List.mem_map_of_mem hx, hform x a hmem' hxa⟩

theorem rerenders_of_byteSequenceOf {w : Wire} {b : Bytes} (h : byteSequenceOf w = .ok b) :
    Rerenders w.bytesAsList (byteList b) := by
  cases w with
  | list items => exact .list (rerenders_of_bytesOf h)
  | bytes c =>
    cases h
    exact rerenders_byteList b
  | _ => cases h

/-! ### What a sequence comes back as -/

/-- What is written for a set is decoded as the list of its elements. -/
theorem decode_of_setOf {e : Encoding} (he : e.isSet) {items : List Value} {s : Value} {w : Wire}
    (hset : Value.SetOf items s) (hencode : s.encode = .ok w) :
    e.decode w = .list (s.members.map Value.elementWire) := by
  cases hset with
  | texts l =>
    obtain ⟨elements, helements, rfl⟩ := map_eq_ok.mp hencode
    obtain rfl := Value.encodeElements_eq_ok helements
    rw [decode, if_pos he, Value.members, List.map_map]
    rfl
  | byteStrings l =>
    obtain ⟨elements, helements, rfl⟩ := map_eq_ok.mp hencode
    obtain rfl := Value.encodeElements_eq_ok helements
    rw [decode, if_pos he, Value.members, List.map_map]
    rfl
  | numbers l =>
    rw [Value.encode] at hencode
    obtain ⟨elements, helements, hset⟩ := bind_eq_ok.mp hencode
    obtain rfl := Value.encodeElements_eq_ok helements
    obtain ⟨texts, htexts, hw⟩ := bind_eq_ok.mp hset
    obtain rfl := pure_eq_ok.mp hw
    rw [decode, if_pos he, Value.members, List.map_map, Value.map_number_of_mapM htexts]

/-- **What a sequence that is stored as a set comes back as.** -/
theorem restores_asSequence {e : Encoding} (he : e.isSet) {items : List Wire} {w : Wire}
    (h : e.encode (.list items) = .ok (some w)) :
    e.Restores (asSequence (.list items)) (e.decode w) := by
  cases e with
  | native => cases he
  | bytes => cases he
  | set =>
    rw [encode, encodeItems] at h
    split at h
    · cases h
    · obtain ⟨v, hv, h⟩ := bind_eq_ok.mp h
      obtain ⟨s, hs, h⟩ := bind_eq_ok.mp h
      obtain ⟨w', hencode, h⟩ := bind_eq_ok.mp h
      cases h
      obtain ⟨vs, hvs, rfl⟩ := map_eq_ok.mp hv
      obtain ⟨-, hset⟩ := Value.setOfItems_eq_ok.mp hs
      rw [Value.decodeItems_eq_mapM] at hvs
      have hread : ∀ v ∈ vs, ∃ w, Value.decode w = .ok v := by
        intro v hv
        obtain ⟨x, -, hx⟩ := (mem_of_mapM hvs).mp hv
        exact ⟨x, hx⟩
      rw [decode_of_setOf rfl hset hencode]
      refine restores_elements rfl hvs ?_ (hset.mem_members_iff hread)
        (hset.nodup_elementWire hread)
      intro x v hv hx
      obtain ⟨t, ht⟩ := hset.exists_setType
      exact Value.rerenders_of_decode ((hset.elementType v hv).trans ht) hx
  | binarySet =>
    rw [encode, encodeItems] at h
    split at h
    · cases h
    · obtain ⟨bs, hbs, h⟩ := bind_eq_ok.mp h
      cases h
      refine restores_elements rfl hbs (fun x b _ hx => rerenders_of_byteSequenceOf hx)
        (SortedSet.arranges_ofList bs).mem_iff ?_
      exact (SortedSet.nodup_elements _).map byteList_injective

/-! ### Which values come back -/

/-- No byte string is among the elements of a set that comes back unless it was among those of the
sequence. -/
theorem Restores.mem_of_mem {e : Encoding} (he : e.isSet) {items items' : List Wire}
    (h : e.Restores (.list items) (.list items')) {b : Bytes} (hb : .bytes b ∈ items') :
    .bytes b ∈ items := by
  cases h with
  | same => exact hb
  | bytes => cases he
  | elements _ _ hfrom _ =>
    obtain ⟨x, -, hx⟩ := hfrom _ hb
    exact hx.not_bytes.elim

/-- A sequence with a byte string does not come back as itself. -/
theorem not_restores_of_mem_bytes {e : Encoding} (he : e.isSet) {items : List Wire} {b : Bytes}
    (hb : .bytes b ∈ items) {w : Wire} (h : e.Restores (asSequence (.list items)) w) :
    ¬ e.Restores (.list items) w := by
  intro hitems
  cases hitems with
  | same =>
    obtain ⟨x, -, hx⟩ := List.mem_map.mp (h.mem_of_mem he hb)
    exact bytesAsList_ne_bytes x b hx
  | bytes => cases he
  | elements _ hto _ _ =>
    obtain ⟨y, -, hy⟩ := hto _ hb
    exact hy.of_not_bytes

/-- What is no sequence is stored as it is. -/
theorem encode_of_not_list {e : Encoding} {v : Wire} (hv : ¬ ∃ items, v = .list items) :
    e.encode v = .ok (some v) := by
  cases v with
  | list items => exact absurd ⟨items, rfl⟩ hv
  | _ => rfl

/-- What is no sequence is decoded as it is, or as a sequence. -/
theorem decode_of_not_list {e : Encoding} {v : Wire} (hv : ¬ ∃ items, v = .list items) :
    (¬ e.Opens v ∧ e.decode v = v) ∨
    (e.Opens v ∧ e.decode v = v.asSequence ∧ ∃ items, v.asSequence = .list items) := by
  cases v with
  | list items => exact absurd ⟨items, rfl⟩ hv
  | bytes b =>
    by_cases he : e = .bytes
    · exact .inr ⟨he, if_pos he, _, rfl⟩
    · exact .inl ⟨he, if_neg he⟩
  | stringSet ss =>
    by_cases he : e.isSet
    · exact .inr ⟨he, if_pos he, _, rfl⟩
    · exact .inl ⟨he, if_neg he⟩
  | numberSet texts =>
    by_cases he : e.isSet
    · exact .inr ⟨he, if_pos he, _, rfl⟩
    · exact .inl ⟨he, if_neg he⟩
  | binarySet bs =>
    by_cases he : e.isSet
    · exact .inr ⟨he, if_pos he, _, rfl⟩
    · exact .inl ⟨he, if_neg he⟩
  | _ => exact .inl ⟨id, rfl⟩

/-- A sequence comes back as itself, but for the byte strings in it. -/
theorem restores_list {e : Encoding} {items : List Wire} {w : Wire}
    (h : e.encode (.list items) = .ok (some w)) :
    (¬ e.isSet ∧ e.Restores (.list items) (e.decode w)) ∨
    (e.isSet ∧ e.Restores (asSequence (.list items)) (e.decode w)) := by
  cases e with
  | native =>
    cases h
    exact .inl ⟨nofun, .same _ _⟩
  | bytes =>
    obtain ⟨b, hb, hw⟩ := bind_eq_ok.mp h
    cases hw
    exact .inl ⟨nofun, .bytes (rerenders_of_bytesOf hb)⟩
  | set => exact .inr ⟨rfl, restores_asSequence rfl h⟩
  | binarySet => exact .inr ⟨rfl, restores_asSequence rfl h⟩

/-- **A value that is stored comes back exactly if it is none of the byte strings and sets that the
encoding takes for sequences; these come back as the sequences they are taken for.** -/
theorem restores_cases {e : Encoding} {v w : Wire} (h : e.encode v = .ok (some w)) :
    (e.Restores v (e.decode w) ↔ ¬ e.Opens v) ∧
    (e.Opens v → e.Restores v.asSequence (e.decode w)) := by
  by_cases hv : ∃ items, v = .list items
  · obtain ⟨items, rfl⟩ := hv
    rcases restores_list h with ⟨he, hback⟩ | ⟨he, hback⟩
    · exact ⟨⟨fun _ hopens => he hopens.1, fun _ => hback⟩, fun hopens => absurd hopens.1 he⟩
    · refine ⟨⟨?_, ?_⟩, fun _ => hback⟩
      · rintro hitems ⟨-, b, hb⟩
        exact not_restores_of_mem_bytes he hb hback hitems
      · intro hopens
        rwa [asSequence_of_not_mem_bytes fun b hb => hopens ⟨he, b, hb⟩] at hback
  · rw [encode_of_not_list hv] at h
    cases h
    rcases decode_of_not_list (e := e) hv with
      ⟨hopens, hdecode⟩ | ⟨hopens, hdecode, items, hitems⟩
    · rw [hdecode]
      exact ⟨⟨fun _ => hopens, fun _ => .same _ _⟩, fun h => absurd h hopens⟩
    · rw [hdecode]
      refine ⟨⟨fun hback => ?_, fun h => absurd hopens h⟩, fun _ => .same _ _⟩
      rw [hitems] at hback
      exact absurd hback.exists_list hv

/-- Numbers that are stored as a set come back in order, each written once. -/
theorem restores_cases_numbers :
    set.encode (.list [.number "2", .number "01", .number "+2"]) =
        .ok (some (.numberSet ["1", "2"])) ∧
      set.Restores (.list [.number "2", .number "01", .number "+2"])
        (.list [.number "1", .number "2"]) := by
  have hstored : set.encode (.list [.number "2", .number "01", .number "+2"]) =
      .ok (some (.numberSet ["1", "2"])) := rfl
  refine ⟨hstored, (restores_cases hstored).1.mpr ?_⟩
  rintro ⟨-, b, hb⟩
  simp at hb

/-- A byte string that is stored as one comes back as the list of its bytes. -/
theorem restores_cases_ne :
    bytes.encode (.bytes [1, 2]) = .ok (some (.bytes [1, 2])) ∧
      bytes.decode (.bytes [1, 2]) = .list [.number "1", .number "2"] ∧
      ¬ bytes.Restores (.bytes [1, 2]) (bytes.decode (.bytes [1, 2])) := by
  refine ⟨rfl, rfl, fun hback => ?_⟩
  obtain ⟨items, hitems⟩ := hback.exists_list
  cases hitems

end Encoding

end ItemStore
