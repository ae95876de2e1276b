import ItemStore.Proofs.Addressing

/-!
# Empty sets that are left out

A field that stores its sequences as sets has no attribute for a sequence without items: such a
set cannot be stored.  Whether a value is left out is seen by its encoding only, and an encoding
sees what the value is on the wire.  An empty list or tuple is an empty list there and is left
out.  A set without elements, in contrast, has no wire form, so the whole record is refused
before the encoding of its field is asked.

## Main definitions

* `Value.isEmptySet`, `Value.isEmptySequence` — values without elements.
* `Encoding.Accepts`, `Encoding.Omits` — a value that has an attribute, and one that is to have
  none.
* `Record.StoredAs` — what is stored for a field whose value is either.

## Main results

* `Record.storedAs` — what is stored for a field.
* `Record.exists_toItem_iff`, `Record.eq_emptySet_of_toItem`, `Record.mem_keys_iff` — whether a
  record is stored, what it is refused for, and its attributes.
* `Record.keys_toItem` — which records are stored, and which attributes they have.
-/

namespace ItemStore

namespace Value

/-- The sets without elements. -/
def isEmptySet : Value → Bool
  | .stringSet s => s.isEmpty
  | .numberSet s => s.isEmpty
  | .binarySet s => s.isEmpty
  | _ => false

/-- The list and the tuple without items. -/
def isEmptySequence : Value → Bool
  | .list items => items.isEmpty
  | .tuple items => items.isEmpty
  | _ => false

theorem encodeElements_of_isEmpty_eq_true {α : Type} [Ord α] {s : SortedSet α} (h : s.isEmpty) :
    encodeElements s = .error .emptySet := by
  rw [encodeElements, if_pos h]

/-- A set without elements has no wire form. -/
theorem encode_of_isEmptySet {v : Value} (h : v.isEmptySet) : v.encode = .error .emptySet := by
  cases v with
  | stringSet s => exact map_eq_error.mpr (encodeElements_of_isEmpty_eq_true h)
  | numberSet s => exact bind_eq_error.mpr (.inl (encodeElements_of_isEmpty_eq_true h))
  | binarySet s => exact map_eq_error.mpr (encodeElements_of_isEmpty_eq_true h)
  | _ => cases h

/-- A sequence without items is an empty list on the wire. -/
theorem encode_of_isEmptySequence {v : Value} (h : v.isEmptySequence) : v.encode = .ok (.list []) := by
  cases v with
  | list items =>
    obtain rfl := List.isEmpty_iff.mp h
    rfl
  | tuple items =>
    obtain rfl := List.isEmpty_iff.mp h
    rfl
  | _ => cases h

end Value

namespace Encoding

/-- The encoding stores the value as an attribute. -/
def Accepts (encoding : Encoding) (v : Value) : Prop :=
  ∃ w stored, v.encode = .ok w ∧ encoding.encode w = .ok (some stored)

/-- The encoding stores sets, and the value is one without elements, as a set or as a sequence. -/
def Omits (encoding : Encoding) (v : Value) : Prop :=
  encoding.isSet ∧ (v.isEmptySet ∨ v.isEmptySequence)

/-- An empty list is no set that could be stored. -/
theorem encode_nil {encoding : Encoding} (h : encoding.isSet) :
    encoding.encode (.list []) = .ok none := by
  cases encoding with
  | set => rfl
  | binarySet => rfl
  | native => cases h
  | bytes => cases h

theorem Accepts.not_omits {encoding : Encoding} {v : Value} (h : encoding.Accepts v) :
    ¬ encoding.Omits v := by
  obtain ⟨w, stored, hencode, hstored⟩ := h
  rintro ⟨hset, hempty | hempty⟩
  · rw [Value.encode_of_isEmptySet hempty] at hencode
    cases hencode
  · rw [Value.encode_of_isEmptySequence hempty] at hencode
    cases hencode
    rw [encode_nil hset] at hstored
    cases hstored

end Encoding

namespace Record

variable {r : Record} {f : Field}

/-! ### One field -/

theorem stored_of_unset (h : r.value? f.name = none) : stored r.values f = .ok none := by
  rw [value?, get?] at h
  rw [stored]
  cases hget : r.values.get? f.name with
  | none => rfl
  | some slot =>
    rw [hget] at h
    cases slot with
    | unset => rfl
    | set v => cases h

theorem stored_of_set {v : Value} (h : r.value? f.name = some v) :
    stored r.values f = v.encode >>= f.encoding.encode := by
  obtain ⟨slot, hslot, hset⟩ := Option.bind_eq_some_iff.mp h
  rw [stored, show r.values.get? f.name = some slot from hslot]
  cases slot with
  | unset => cases hset
  | set v' =>
    cases hset
    rfl

/-- What is stored for a field that is not set, or whose value is accepted or to be left out. -/
inductive StoredAs (r : Record) (f : Field) : Except Error (Option Wire) → Prop
  | unset (h : r.value? f.name = none) : StoredAs r f (.ok none)
  | accepted {v : Value} (hv : r.value? f.name = some v) (h : f.encoding.Accepts v) (w : Wire) :
    StoredAs r f (.ok (some w))
  | omitted {v : Value} (hv : r.value? f.name = some v) (hset : f.encoding.isSet)
    (h : v.isEmptySequence) : StoredAs r f (.ok none)
  | refused {v : Value} (hv : r.value? f.name = some v) (hset : f.encoding.isSet)
    (h : v.isEmptySet) : StoredAs r f (.error .emptySet)

/-- **What is stored for a field.** -/
theorem storedAs
    (h : ∀ v, r.value? f.name = some v → f.encoding.Accepts v ∨ f.encoding.Omits v) :
    StoredAs r f (stored r.values f) := by
  cases hvalue : r.value? f.name with
  | none =>
    rw [stored_of_unset hvalue]
    exact .unset hvalue
  | some v =>
    rw [stored_of_set hvalue]
    rcases h v hvalue with haccepts | ⟨hset, hempty | hempty⟩
    · obtain ⟨w, stored, hencode, hstored⟩ := haccepts
      rw [bind_eq_ok.mpr ⟨w, hencode, hstored⟩]
      exact .accepted hvalue ⟨w, stored, hencode, hstored⟩ stored
    · rw [bind_eq_error.mpr (.inl (Value.encode_of_isEmptySet hempty))]
      exact .refused hvalue hset hempty
    · rw [bind_eq_ok.mpr ⟨_, Value.encode_of_isEmptySequence hempty, Encoding.encode_nil hset⟩]
      exact .omitted hvalue hset hempty

/-! ### All fields -/

/-- Where a record cannot be stored, one of its fields cannot. -/
theorem exists_stored_eq_error {e : Error} (h : r.toItem = .error e) :
    ∃ f ∈ r.schema.fields, stored r.values f = .error e := by
  rw [toItem, storeValues_eq_collect] at h
  obtain ⟨before, f, after, -, hfields, -, hf⟩ := exists_of_mapM_eq_error (map_eq_error.mp h)
  refine ⟨f, ?_, ?_⟩
  · rw [hfields]
    exact List.mem_append_right _ (List.mem_cons_self ..)
  · rcases bind_eq_error.mp hf with hstored | ⟨o, -, hpure⟩
    · exact hstored
    · cases hpure

section Fields

variable (hfields : ∀ f ∈ r.schema.fields, ∀ v, r.value? f.name = some v →
  f.encoding.Accepts v ∨ f.encoding.Omits v)
include hfields

/-- A record is stored unless one of its fields holds a set without elements. -/
theorem exists_toItem_iff : (∃ item, r.toItem = .ok item) ↔
    ∀ f ∈ r.schema.fields, ∀ v, r.value? f.name = some v → v.isEmptySet = false := by
  rw [toItem, exists_storeValues_iff]
  constructor
  · intro hall f hf v hv
    obtain ⟨o, ho⟩ := hall f hf
    rw [stored_of_set hv] at ho
    obtain ⟨w, hw, -⟩ := bind_eq_ok.mp ho
    by_contra hempty
    rw [Value.encode_of_isEmptySet (Bool.not_eq_false _ ▸ hempty)] at hw
    cases hw
  · intro hfilled f hf
    have h := storedAs (hfields f hf)
    generalize stored r.values f = result at h
    cases h with
    | unset | omitted => exact ⟨none, rfl⟩
    | accepted hv h w => exact ⟨some w, rfl⟩
    | refused hv hset h =>
      rw [hfilled f hf _ hv] at h
      cases h

/-- What a record is refused for is a set without elements. -/
theorem eq_emptySet_of_toItem {e : Error} (he : r.toItem = .error e) : e = .emptySet := by
  obtain ⟨f, hf, hstored⟩ := exists_stored_eq_error he
  have h := storedAs (hfields f hf)
  rw [hstored] at h
  cases h
  rfl

/-- The attributes are those of the fields that are set and not left out. -/
theorem mem_keys_iff {item : Item} (hstores : r.schema.Stores (stored r.values) item)
    {k : String} : k ∈ Dict.keys item ↔ ∃ f ∈ r.schema.fields, f.attributeName = k ∧
      ∃ v, r.value? f.name = some v ∧ ¬ f.encoding.Omits v := by
  constructor
  · intro hk
    obtain ⟨f, hf, rfl⟩ := List.mem_map.mp (hstores.declared k hk)
    obtain ⟨w, hw⟩ := Dict.exists_get?_of_mem_keys hk
    have h := storedAs (hfields f hf)
    rw [hstores.field f hf, hw] at h
    cases h with
    | accepted hv h => exact ⟨f, hf, rfl, _, hv, h.not_omits⟩
  · rintro ⟨f, hf, rfl, v, hv, hkept⟩
    obtain ⟨w, stored, hencode, hw⟩ := (hfields f hf v hv).resolve_right hkept
    have hfield := hstores.field f hf
    rw [stored_of_set hv, bind_eq_ok.mpr ⟨w, hencode, hw⟩, Except.ok.injEq] at hfield
    by_contra hk
    rw [Dict.get?_eq_none_iff.mpr hk] at hfield
    cases hfield

end Fields

/-- **Which records are stored, and which attributes they have.**

Each field that is set holds a value that its encoding accepts or is to leave out.  Then the record
is stored if, and only if, none of its fields holds a set without elements; otherwise it is refused
for such a set.  An item that is stored has the attributes of the fields that are set and not left
out, each once, and no others. -/
theorem keys_toItem {draft : SchemaDraft} (hs : draft.build = .ok r.schema)
    (hfields : ∀ f ∈ r.schema.fields, ∀ v, r.value? f.name = some v →
      f.encoding.Accepts v ∨ f.encoding.Omits v) :
    ((∃ item, r.toItem = .ok item) ↔
        ∀ f ∈ r.schema.fields, ∀ v, r.value? f.name = some v → v.isEmptySet = false) ∧
      (∀ e, r.toItem = .error e → e = .emptySet) ∧
      ∀ item, r.toItem = .ok item → Dict.Distinct item ∧
        ∀ k, k ∈ Dict.keys item ↔ ∃ f ∈ r.schema.fields, f.attributeName = k ∧
          ∃ v, r.value? f.name = some v ∧ ¬ f.encoding.Omits v := by
  refine ⟨exists_toItem_iff hfields, ?_, ?_⟩
  · intro e he
    exact eq_emptySet_of_toItem hfields he
  · intro item hitem
    have hstores := stores_storeValues (SchemaDraft.apart_of_build hs) hitem
    refine ⟨hstores.distinct, ?_⟩
    intro k
    exact mem_keys_iff hfields hstores

/-- A key, and a field that is stored as a set. -/
def taggedDraft : SchemaDraft :=
  (((SchemaDraft.new "t").declareKey "id" .unnamed).declarePlain "tags" .unnamed).encode "tags" .set

/-- The schema of these declarations. -/
def taggedSchema : Schema :=
  ⟨"t", none, [⟨"id", "id", ⟨none, some "id", []⟩, true, .native⟩,
    ⟨"tags", "tags", ⟨none, some "tags", []⟩, false, .set⟩]⟩

theorem build_taggedDraft : taggedDraft.build = .ok taggedSchema := rfl

/-- The record with these tags. -/
def taggedRecord (tags : Value) : Record :=
  ⟨taggedSchema, [("id", .set (.string "a")), ("tags", .set tags)]⟩

/-- Tags that are a set or a sequence without elements are to be left out. -/
theorem omits_taggedRecord {tags : Value} (h : tags.isEmptySet ∨ tags.isEmptySequence) :
    ∀ f ∈ taggedSchema.fields, ∀ v, (taggedRecord tags).value? f.name = some v →
      f.encoding.Accepts v ∨ f.encoding.Omits v := by
  refine List.forall_mem_cons.mpr ⟨?_, List.forall_mem_singleton.mpr ?_⟩
  · rintro v ⟨⟩
    exact .inl ⟨.string "a", .string "a", rfl, rfl⟩
  · rintro v ⟨⟩
    exact .inr ⟨rfl, h⟩

/-- Without tags, as an empty list, only the key is stored. -/
theorem keys_toItem_list :
    ∃ item, (taggedRecord (.list [])).toItem = .ok item ∧ Dict.Distinct item ∧
      ∀ k, k ∈ Dict.keys item ↔ k = "id" := by
  obtain ⟨hiff, -, hkeys⟩ := keys_toItem (r := taggedRecord (.list [])) build_taggedDraft
    (omits_taggedRecord (.inr rfl))
  obtain ⟨item, hitem⟩ := hiff.mpr (by
    refine List.forall_mem_cons.mpr ⟨?_, List.forall_mem_singleton.mpr ?_⟩
    · rintro v ⟨⟩
      rfl
    · rintro v ⟨⟩
      rfl)
  obtain ⟨hdistinct, hmem⟩ := hkeys item hitem
  refine ⟨item, hitem, hdistinct, ?_⟩
  intro k
  rw [hmem]
  constructor
  · rintro ⟨f, hf, rfl, v, hv, hkept⟩
    rcases List.mem_cons.mp hf with rfl | hf
    · rfl
    · obtain rfl := List.mem_singleton.mp hf
      cases hv
      exact absurd ⟨rfl, .inr rfl⟩ hkept
  · rintro rfl
    refine ⟨_, List.mem_cons_self .., rfl, _, rfl, ?_⟩
    rintro ⟨hset, -⟩
    cases hset

/-- Without tags, as a set without elements, the record is refused, although the field stores sets
and such a set is to be left out. -/
theorem keys_toItem_ne :
    taggedDraft.build = .ok taggedSchema ∧
      (∀ f ∈ taggedSchema.fields, ∀ v,
        (taggedRecord (.stringSet .empty)).value? f.name = some v →
          f.encoding.Accepts v ∨ f.encoding.Omits v) ∧
      (taggedRecord (.stringSet .empty)).toItem = .error .emptySet :=
  ⟨rfl, omits_taggedRecord (.inl rfl), rfl⟩

end Record

end ItemStore
