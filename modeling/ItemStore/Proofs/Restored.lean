import ItemStore.Proofs.Canonical
import ItemStore.Proofs.History

/-!
# Records that are stored, restored and stored again

Storing a record encodes its fields, and restoring it does not undo that: where the record has
had a list, the restored one may have a set or a byte string, and where it has had an empty list,
the field may be not set.  But what an encoding has made of a field it leaves as it is, and so
the restored record is stored as the same item again, with the elements of sets in the same
order.

An encoding looks only at lists, and what it makes of a list is none; and every wire value that
is made here is read and written back unchanged, as long as the numbers of the record are
canonical.

## Main definitions

* `Value.IsSet` — values that are sets.

## Main results

* `Wire.reproduced_of_encode` — what is written for canonical numbers is reproduced.
* `Encoding.stable` — an encoding leaves what it has made as it is.
* `Record.readSlot_stable` — so does storing a field that is restored.
* `Record.toItem_restored` — a restored record is stored as the same item.
-/

namespace ItemStore

/-! ### Values that are written -/

theorem Number.canonical_of_toInt?_eq_none {x : Double} (hx : x.isFinite) (h : x.toInt? = none) :
    (Number.float x).Canonical := by
  refine ⟨hx, fun i _ heq => ?_⟩
  rw [BinaryFloat.toInt?_eq_some_iff.mpr ⟨hx, heq⟩] at h
  cases h

namespace Value

mutual

/-- Tuples are written as lists are. -/
theorem encode_asRead : ∀ v : Value, encode (asRead v) = encode v
  | .null | .bool _ | .number _ | .string _ | .bytes _ | .stringSet _ | .numberSet _
  | .binarySet _ => rfl
  | .list items => congrArg (Except.map Wire.list) (encodeItems_asReadItems items)
  | .tuple items => congrArg (Except.map Wire.list) (encodeItems_asReadItems items)
  | .map entries => congrArg (Except.map Wire.map) (encodeEntries_asReadEntries entries)

theorem encodeItems_asReadItems : ∀ items : List Value,
    encodeItems (asReadItems items) = encodeItems items
  | [] => rfl
  | v :: vs => by
    rw [asReadItems, encodeItems, encodeItems, encode_asRead v, encodeItems_asReadItems vs]

theorem encodeEntries_asReadEntries : ∀ entries : List (String × Value),
    encodeEntries (asReadEntries entries) = encodeEntries entries
  | [] => rfl
  | (k, v) :: entries => by
    rw [asReadEntries, encodeEntries, encodeEntries, encode_asRead v,
      encodeEntries_asReadEntries entries]

end

end Value

/-- **What is written for canonical numbers** is read and written back unchanged. -/
theorem Wire.reproduced_of_encode {v : Value} {w : Wire} (hv : v.Canonical)
    (h : v.encode = .ok w) : w.Reproduced := by
  refine ⟨v.asRead, ?_, (Value.encode_asRead v).trans h⟩
  rw [Value.decode_encode h, Value.readBack_of_canonical hv]

/-! ### Sets -/

namespace Value

/-- The value is a set. -/
def IsSet : Value → Prop
  | .stringSet _ => True
  | .numberSet _ => True
  | .binarySet _ => True
  | _ => False

/-- The numbers that are collected are among those of the items. -/
theorem mem_numbers_of_collect {items : List Value} {l : List Number}
    (h : collect asNumber? items = .ok l) : ∀ n ∈ l, n ∈ numbersOfItems items := by
  induction items generalizing l with
  | nil =>
    cases h
    intro n hn
    cases hn
  | cons v vs ih =>
    rw [collect] at h
    cases v with
    | number m =>
      simp only [asNumber?] at h
      split at h
      · cases h
      · next rest hrest =>
        cases h
        intro n hn
        rcases List.mem_cons.mp hn with rfl | hn
        · exact List.mem_append_left _ (List.mem_singleton_self _)
        · exact List.mem_append_right _ (ih hrest n hn)
    | _ => cases h

/-- What a list is turned into is a set, and has no other numbers. -/
theorem isSet_of_setOfItems {items : List Value} {v : Value} (h : setOfItems items = .ok v) :
    v.IsSet ∧ ∀ n ∈ v.numbers, n ∈ numbersOfItems items := by
  unfold setOfItems at h
  split at h
  · cases h
  · split at h
    · obtain ⟨l, -, rfl⟩ := map_eq_ok.mp h
      refine ⟨trivial, fun n hn => ?_⟩
      cases hn
    · obtain ⟨l, hl, rfl⟩ := map_eq_ok.mp h
      exact ⟨trivial, fun n hn => mem_numbers_of_collect hl n (SortedSet.mem_of_mem_ofList hn)⟩
    · obtain ⟨l, -, rfl⟩ := map_eq_ok.mp h
      refine ⟨trivial, fun n hn => ?_⟩
      cases hn
    · cases h

end Value

/-! ### Encodings -/

namespace Encoding

/-- A set is stored as it is, whatever the encoding. -/
theorem encode_of_isSet {v : Value} {w : Wire} (hv : v.IsSet) (h : v.encode = .ok w)
    (e : Encoding) : e.encode w = .ok (some w) := by
  cases v with
  | stringSet s =>
    obtain ⟨l, -, rfl⟩ := map_eq_ok.mp h
    rfl
  | numberSet s =>
    rw [Value.encode] at h
    obtain ⟨l, -, h⟩ := bind_eq_ok.mp h
    obtain ⟨texts, -, h⟩ := bind_eq_ok.mp h
    obtain rfl := pure_eq_ok.mp h
    rfl
  | binarySet s =>
    obtain ⟨l, -, rfl⟩ := map_eq_ok.mp h
    rfl
  | _ => cases hv

/-- **An encoding leaves what it has made as it is**, and that is read and written back
unchanged. -/
theorem stable {e : Encoding} {w w' : Wire} (hw : w.Reproduced) (h : e.encode w = .ok (some w')) :
    w'.Reproduced ∧ e.encode w' = .ok (some w') := by
  cases w with
  | list items =>
    cases e with
    | native =>
      cases h
      exact ⟨hw, rfl⟩
    | bytes =>
      obtain ⟨b, -, h⟩ := bind_eq_ok.mp h
      cases h
      exact ⟨⟨.bytes b, rfl, rfl⟩, rfl⟩
    | set =>
      rw [encode, encodeItems] at h
      split at h
      · cases h
      · obtain ⟨v, hv, h⟩ := bind_eq_ok.mp h
        obtain ⟨v', hv', h⟩ := bind_eq_ok.mp h
        obtain ⟨w, hw, h⟩ := bind_eq_ok.mp h
        cases h
        -- The numbers of the set are some that were read.
        have hcanonical := Value.canonical_of_decode hv
        obtain ⟨vs, -, rfl⟩ := map_eq_ok.mp hv
        obtain ⟨hset, hnumbers⟩ := Value.isSet_of_setOfItems hv'
        exact ⟨Wire.reproduced_of_encode (fun n hn => hcanonical n (hnumbers n hn)) hw,
          encode_of_isSet hset hw .set⟩
    | binarySet =>
      rw [encode, encodeItems] at h
      split at h
      · cases h
      · next hne =>
        obtain ⟨bs, hbs, h⟩ := bind_eq_ok.mp h
        cases h
        have hbs : bs ≠ [] := by
          rintro rfl
          cases items with
          | nil => exact hne rfl
          | cons item items =>
            rw [mapM_eq_ok] at hbs
            cases hbs
        refine ⟨⟨.binarySet (.ofList bs), ?_, ?_⟩, rfl⟩
        · rw [Value.decode, SortedSet.ofList_elements]
        · exact map_eq_ok.mpr ⟨_, Value.encodeElements_ofList hbs, rfl⟩
  | _ =>
    cases h
    exact ⟨hw, rfl⟩

end Encoding

/-! ### Records -/

namespace Record

variable {s : Schema} {item : Item}

/-- **A field that is restored** is stored as it was, and is not set if there was nothing to
store. -/
theorem readSlot_stable {f : Field} {slot : Slot Value} (hslot : ∀ v, slot = .set v → v.Canonical)
    (h : storedValue f slot = .ok (item.get? f.attributeName)) :
    ∃ slot', readSlot item f = .ok slot' ∧
      storedValue f slot' = .ok (item.get? f.attributeName) ∧
      (slot' = .unset ↔ item.get? f.attributeName = none) := by
  rw [readSlot]
  cases hget : item.get? f.attributeName with
  | none => exact ⟨.unset, rfl, rfl, iff_of_true rfl rfl⟩
  | some w' =>
    rw [hget] at h
    cases slot with
    | unset => cases h
    | set v =>
      obtain ⟨w, hw, hencode⟩ := bind_eq_ok.mp h
      obtain ⟨⟨v', hdecode, hback⟩, hstable⟩ :=
        Encoding.stable (Wire.reproduced_of_encode (hslot v rfl) hw) hencode
      refine ⟨.set v', map_eq_ok.mpr ⟨v', hdecode, rfl⟩, ?_, iff_of_false ?_ ?_⟩
      · exact bind_eq_ok.mpr ⟨w', hback, hstable⟩
      · rintro ⟨⟩
      · rintro ⟨⟩

theorem exists_readValues {fields : List Field}
    (h : ∀ f ∈ fields, ∃ slot, readSlot item f = .ok slot) :
    ∃ values, readValues item fields = .ok values := by
  induction fields with
  | nil => exact ⟨[], rfl⟩
  | cons f fields ih =>
    obtain ⟨⟨slot, hslot⟩, htail⟩ := List.forall_mem_cons.mp h
    obtain ⟨values, hvalues⟩ := ih htail
    refine ⟨(f.name, slot) :: values, ?_⟩
    rw [readValues_cons, hslot, hvalues]
    rfl

/-- The item depends on what is stored for each field. -/
theorem storeValues_congr {values values' : Dict String (Slot Value)} {fields : List Field}
    (h : ∀ f ∈ fields, stored values f = stored values' f) :
    storeValues values fields = storeValues values' fields := by
  induction fields with
  | nil => rfl
  | cons f fields ih =>
    obtain ⟨hhead, htail⟩ := List.forall_mem_cons.mp h
    rw [stored, stored] at hhead
    rw [storeValues, storeValues, hhead, ih htail]

/-- What is read does not depend on the order of the item. -/
theorem readValues_perm {item' : Item} (hitem : Dict.Distinct item) (h : item.Perm item')
    (fields : List Field) : readValues item' fields = readValues item fields :=
  readValues_congr fun f _ => Dict.get?_perm hitem h f.attributeName

/-- **A restored record is stored as the same item.**

The item of a record with canonical numbers is read as a record, whatever the order of its
attributes, and the item of that record is the same, down to the order of the elements in its
sets.  A field of that record is not set if, and only if, the item has no attribute for it. -/
theorem toItem_restored {draft : SchemaDraft} (hs : draft.build = .ok s) {r : Record}
    (hr : r.schema = s) (hnumbers : ∀ field v, r.get? field = some (.set v) → v.Canonical)
    (hitem : r.toItem = .ok item) :
    ∃ r', (∀ item', item.Perm item' → ofItem s item' = .ok r') ∧ r'.toItem = .ok item ∧
      ∀ f ∈ s.fields, r'.get? f.name = some .unset ↔ item.get? f.attributeName = none := by
  subst hr
  have hapart := SchemaDraft.apart_of_build hs
  have hstores := stores_storeValues hapart hitem
  have hslots : ∀ f ∈ r.schema.fields, ∃ slot, readSlot item f = .ok slot ∧
      storedValue f slot = .ok (item.get? f.attributeName) ∧
      (slot = .unset ↔ item.get? f.attributeName = none) := by
    intro f hf
    refine readSlot_stable (fun v hv => ?_) (hstores.field f hf)
    cases hget : r.values.get? f.name with
    | none =>
      rw [hget] at hv
      cases hv
    | some slot =>
      rw [hget] at hv
      obtain rfl : slot = .set v := hv
      exact hnumbers f.name v hget
  obtain ⟨values, hvalues⟩ : ∃ values, readValues item r.schema.fields = .ok values := by
    refine exists_readValues fun f hf => ?_
    obtain ⟨slot, hslot, -⟩ := hslots f hf
    exact ⟨slot, hslot⟩
  have hget : ∀ f ∈ r.schema.fields, ∃ slot, values.get? f.name = some slot ∧
      storedValue f slot = .ok (item.get? f.attributeName) ∧
      (slot = .unset ↔ item.get? f.attributeName = none) := by
    intro f hf
    obtain ⟨slot, hslot, hstored, hunset⟩ := hslots f hf
    obtain ⟨slot', hslot', hget⟩ := get?_readValues hapart.names hvalues hf
    rw [hslot] at hslot'
    cases hslot'
    exact ⟨slot, hget, hstored, hunset⟩
  refine ⟨⟨r.schema, values⟩, fun item' hperm => ?_, ?_, fun f hf => ?_⟩
  · rw [ofItem, readValues_perm hstores.distinct hperm, hvalues]
    rfl
  · rw [← hitem]
    refine storeValues_congr fun f hf => ?_
    obtain ⟨slot, hget, hstored, -⟩ := hget f hf
    rw [hstores.field f hf, stored, hget]
    exact hstored
  · obtain ⟨slot, hget, -, hunset⟩ := hget f hf
    rw [get?, hget, Option.some.injEq, hunset]

/-- Lists that are stored as a set, as a byte string, as a set of byte strings and not at all,
and a tuple that is stored as a list. -/
theorem toItem_restored_mixed :
    let half : Number := .float (.ofCode false 0x3fe0000000000000)
    let s : Schema := ⟨"table", none,
      [⟨"id", "id", ⟨none, some "id", []⟩, true, .native⟩,
        ⟨"T", "tags", ⟨some "T", some "tags", []⟩, false, .set⟩,
        ⟨"raw", "raw", ⟨none, some "raw", []⟩, false, .bytes⟩,
        ⟨"parts", "parts", ⟨none, some "parts", []⟩, false, .binarySet⟩,
        ⟨"rest", "rest", ⟨none, some "rest", []⟩, false, .set⟩]⟩
    let r : Record := ⟨s,
      [("id", .set (.tuple [.string "a", .number half])),
        ("tags", .set (.list [.number (.integer 3), .number half, .number (.integer 3)])),
        ("raw", .set (.list [.number (.integer 1), .number (.integer 255)])),
        ("parts", .set (.list [.list [.number (.integer 2)], .bytes [1]])),
        ("rest", .set (.list []))]⟩
    let item : Item := [("id", .list [.string "a", .number "0.5"]), ("T", .numberSet ["0.5", "3"]),
      ("raw", .bytes [1, 255]), ("parts", .binarySet [[1], [2]])]
    ∃ r', r.toItem = .ok item ∧ ofItem s item = .ok r' ∧ r'.toItem = .ok item ∧
      r'.get? "rest" = some .unset := by
  intro half s r item
  let draft : SchemaDraft := ((((((SchemaDraft.new "table").declareKey "id" .unnamed).declarePlain
      "tags" (.named "T")).declarePlain "raw" .unnamed).declarePlain "parts" .unnamed).declarePlain
      "rest" .unnamed).encode "tags" .set
    |>.encode "raw" .bytes |>.encode "parts" .binarySet |>.encode "rest" .set
  have hs : draft.build = .ok s := rfl
  have hhalf : half.Canonical := Number.canonical_of_toInt?_eq_none (by decide) (by decide +kernel)
  have hnumbers : ∀ field v, r.get? field = some (.set v) → v.Canonical := by
    intro field v hget
    have hmem := Dict.mem_of_get? hget
    simp only [r, List.mem_cons, List.not_mem_nil, or_false, Prod.mk.injEq, Slot.set.injEq] at hmem
    rcases hmem with ⟨-, rfl⟩ | ⟨-, rfl⟩ | ⟨-, rfl⟩ | ⟨-, rfl⟩ | ⟨-, rfl⟩
    · exact List.forall_mem_singleton.mpr hhalf
    · exact List.forall_mem_cons.mpr ⟨trivial, List.forall_mem_cons.mpr
        ⟨hhalf, List.forall_mem_singleton.mpr trivial⟩⟩
    · exact List.forall_mem_cons.mpr ⟨trivial, List.forall_mem_singleton.mpr trivial⟩
    · exact List.forall_mem_singleton.mpr trivial
    · intro n hn
      cases hn
  have htext : half.text? = some "0.5" := by decide +kernel
  have hread : Number.ofText? "0.5" = some half := by decide +kernel
  have hthree : Number.ofText? "3" = some (.integer 3) := by decide +kernel
  have hset : (SortedSet.ofList [.integer 3, half, .integer 3]).elements = [half, .integer 3] := by
    decide +kernel
  have hid : (Value.tuple [.string "a", .number half]).encode =
      .ok (.list [.string "a", .number "0.5"]) := by
    simp only [Value.encode, Value.encodeItems, Value.encodeNumber, htext]
    rfl
  have hlist : (Value.list [.number (.integer 3), .number half, .number (.integer 3)]).encode =
      .ok (.list [.number "3", .number "0.5", .number "3"]) := by
    simp only [Value.encode, Value.encodeItems, Value.encodeNumber, htext]
    rfl
  have htags : Encoding.set.encode (.list [.number "3", .number "0.5", .number "3"]) =
      .ok (some (.numberSet ["0.5", "3"])) := by
    have hdecode : Value.decode (.list [.number "3", .number "0.5", .number "3"]) =
        .ok (.list [.number (.integer 3), .number half, .number (.integer 3)]) := by
      simp only [Value.decode, Value.decodeItems, Value.decodeNumber, hread, hthree]
      rfl
    have hencode : (Value.numberSet (.ofList [.integer 3, half, .integer 3])).encode =
        .ok (.numberSet ["0.5", "3"]) := by
      rw [Value.encode, Value.encodeElements_ofList (by simp), hset]
      refine bind_eq_ok.mpr ⟨_, rfl, bind_eq_ok.mpr ⟨["0.5", "3"], ?_, rfl⟩⟩
      exact mapM_eq_ok.mpr (.cons (Value.encodeNumber_eq_ok.mpr htext) (.cons rfl .nil))
    exact Encoding.encode_set (by simp) hdecode rfl hencode
  have hitem : r.toItem = .ok item := by
    rw [toItem, storeValues_eq_collect]
    refine map_eq_ok.mpr ⟨[("id", some (.list [.string "a", .number "0.5"])),
      ("T", some (.numberSet ["0.5", "3"])), ("raw", some (.bytes [1, 255])),
      ("parts", some (.binarySet [[1], [2]])), ("rest", none)], mapM_eq_ok.mpr ?_, rfl⟩
    exact .cons (storedEntry_eq_ok.mpr ⟨rfl, bind_eq_ok.mpr ⟨_, hid, rfl⟩⟩) <|
      .cons (storedEntry_eq_ok.mpr ⟨rfl, bind_eq_ok.mpr ⟨_, hlist, htags⟩⟩) <|
      .cons rfl <| .cons rfl <| .cons rfl .nil
  obtain ⟨r', hread, hstored, hunset⟩ := toItem_restored hs rfl hnumbers hitem
  refine ⟨r', hitem, hread item (.refl _), hstored, ?_⟩
  exact (hunset _ (.tail _ (.tail _ (.tail _ (.tail _ (.head _)))))).mpr rfl

end Record

end ItemStore
