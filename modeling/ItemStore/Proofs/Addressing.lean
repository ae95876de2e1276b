import ItemStore.Schema.PrimaryKey
import ItemStore.Proofs.Attributes
import ItemStore.Proofs.WriteBack

/-!
# Addressing an item by the values of its key

The attributes of a key come about on two ways.  A record that is stored takes the value of each
key field to the wire and then through the encoding of the field; a primary key only takes its
values to the wire.  A key field is stored as it is or as a byte string, and only a sequence is
made into a byte string.  So an item is addressed by the values that it was written with, unless
a key field that is stored as a byte string has been given a list or a tuple.

## Main definitions

* `Record.primaryKey?` — the primary key of the values of a record's key fields.
* `Value.isSequence` — the values whose wire form an encoding may change.

## Main results

* `Record.exists_primaryKey?` — which records have a primary key.
* `Item.perm_restrict_iff` — when attributes are those that an item has under their names.
* `Record.resolve_primaryKey` — when a record's key is resolved to the attributes that the
  record is stored with.
-/

namespace ItemStore

/-! ### Values that an encoding leaves alone -/

namespace Value

/-- Whether a value is a list or a tuple. -/
def isSequence : Value → Bool
  | .list _ => true
  | .tuple _ => true
  | _ => false

/-- Lists and tuples are the values that go to the wire as lists. -/
theorem isSequence_iff {v : Value} {w : Wire} (h : v.encode = .ok w) :
    v.isSequence ↔ ∃ items, w = .list items := by
  cases v with
  | list items =>
    obtain ⟨ws, -, rfl⟩ := map_eq_ok.mp h
    exact ⟨fun _ => ⟨ws, rfl⟩, fun _ => rfl⟩
  | tuple items =>
    obtain ⟨ws, -, rfl⟩ := map_eq_ok.mp h
    exact ⟨fun _ => ⟨ws, rfl⟩, fun _ => rfl⟩
  | numberSet s =>
    obtain ⟨elements, -, h⟩ := bind_eq_ok.mp h
    obtain ⟨texts, -, h⟩ := bind_eq_ok.mp h
    obtain rfl := pure_eq_ok.mp h
    simp [isSequence]
  | null | bool | string | bytes =>
    cases h
    simp [isSequence]
  | number | stringSet | binarySet | map =>
    obtain ⟨_, -, rfl⟩ := map_eq_ok.mp h
    simp [isSequence]

end Value

/-- A byte string is made of a list, and what is not stored as a set is otherwise left alone. -/
theorem Encoding.encode_eq_self_iff {encoding : Encoding} (h : encoding.isSet = false) {w : Wire} :
    encoding.encode w = .ok (some w) ↔ (encoding = .bytes → ¬∃ items, w = .list items) := by
  cases encoding with
  | native => simp [encode_native]
  | bytes =>
    cases w with
    | list items =>
      constructor
      · intro hstored
        obtain ⟨b, -, hb⟩ := bind_eq_ok.mp hstored
        cases pure_eq_ok.mp hb
      · intro hlist
        exact absurd ⟨items, rfl⟩ (hlist rfl)
    | _ => simp [encode]
  | set => cases h
  | binarySet => cases h

/-! ### Attributes under some names -/

/-- Attributes are those that an item has under their names if the item has each of them. -/
theorem Item.perm_restrict_iff {entries item : Item} (hentries : Dict.Distinct entries)
    (hitem : Dict.Distinct item) :
    entries.Perm (item.restrict (Dict.keys entries)) ↔
      ∀ e ∈ entries, item.get? e.1 = some e.2 := by
  constructor
  · intro hperm e he
    exact Dict.get?_of_mem hitem (List.mem_filter.mp (hperm.mem_iff.mp he)).1
  · intro hget
    rw [List.perm_ext_iff_of_nodup hentries.of_map (distinct_restrict hitem _).of_map]
    rintro ⟨k, w⟩
    rw [restrict, List.mem_filter, decide_eq_true_iff]
    constructor
    · intro he
      exact ⟨Dict.mem_of_get? (hget _ he), List.mem_map_of_mem he⟩
    · rintro ⟨hmem, hk⟩
      obtain ⟨⟨_, w'⟩, he, rfl⟩ := List.mem_map.mp hk
      have hboth := (hget _ he).symm.trans (Dict.get?_of_mem hitem hmem)
      rwa [← Option.some.inj hboth]

/-! ### The key of a record -/

namespace Schema

/-- The fields of the key, in order of declaration. -/
def keyFields (s : Schema) : List Field := s.fields.filter Field.isKey

theorem keyNames_eq (s : Schema) : s.keyNames = s.keyFields.map Field.attributeName := rfl

theorem mem_keyFields {s : Schema} {f : Field} : f ∈ s.keyFields ↔ f ∈ s.fields ∧ f.isKey :=
  List.mem_filter

end Schema

theorem PrimaryKey.nameShorthand_eq {s : Schema} (hindex : s.index = none) {values : List Value}
    (hlength : s.keyNames.length = values.length) :
    nameShorthand s values = .ok (s.keyNames.zip values) := by
  simp only [nameShorthand, hindex, if_pos hlength]

namespace Record

/-- The value of a field, if the field is set. -/
def value? (r : Record) (field : String) : Option Value := (r.get? field).bind Slot.toOption

/-- The primary key of the values of the key fields: a partition key, or a partition and a sort
key in the order in which they are declared. -/
def primaryKey? (r : Record) : Option PrimaryKey :=
  match r.schema.keyFields with
  | [f] => do return .partition (← r.value? f.name)
  | [f, g] => do return .composite (← r.value? f.name) (← r.value? g.name)
  | _ => none

variable {r : Record} {item : Item}

/-- **Which records have a primary key**, and which values it has under which names. -/
theorem exists_primaryKey? {draft : SchemaDraft} (hs : draft.build = .ok r.schema)
    (hindex : r.schema.index = none) (hkeys : r.schema.keyFields ≠ [])
    (hset : ∀ f ∈ r.schema.keyFields, ∃ v, r.value? f.name = some v) :
    ∃ key values, r.primaryKey? = some key ∧
      List.Forall₂ (fun f v => r.value? f.name = some v) r.schema.keyFields values ∧
      key.entries r.schema = .ok (r.schema.keyNames.zip values) := by
  have hcount := SchemaDraft.countP_isKey_of_build hs
  rw [List.countP_eq_length_filter] at hcount
  rcases hfields : r.schema.keyFields with _ | ⟨f, _ | ⟨g, _ | ⟨_, _⟩⟩⟩
  · exact absurd hfields hkeys
  · obtain ⟨v, hv⟩ := hset f (by simp [hfields])
    refine ⟨.partition v, [v], by simp [primaryKey?, hfields, hv], .cons hv .nil, ?_⟩
    exact PrimaryKey.nameShorthand_eq hindex (by simp [Schema.keyNames_eq, hfields])
  · obtain ⟨v, hv⟩ := hset f (by simp [hfields])
    obtain ⟨w, hw⟩ := hset g (by simp [hfields])
    refine ⟨.composite v w, [v, w], by simp [primaryKey?, hfields, hv, hw],
      .cons hv (.cons hw .nil), ?_⟩
    exact PrimaryKey.nameShorthand_eq hindex (by simp [Schema.keyNames_eq, hfields])
  · rw [Schema.keyFields] at hfields
    rw [hfields] at hcount
    simp at hcount

/-- The attribute of a key field in a resolved key, and what the item has for the field: the
field's value on the wire, and its form under the encoding of the field. -/
def Resolved (r : Record) (item : Item) (f : Field) (e : String × Wire) : Prop :=
  e.1 = f.attributeName ∧ ∃ v, r.value? f.name = some v ∧ v.encode = .ok e.2 ∧
    f.encoding.encode e.2 = .ok (item.get? e.1)

theorem exists_resolved (h : r.schema.Stores (stored r.values) item) {f : Field}
    (hf : f ∈ r.schema.fields) {v : Value} (hv : r.value? f.name = some v) :
    ∃ w, v.encode = .ok w ∧ Resolved r item f (f.attributeName, w) := by
  obtain ⟨slot, hslot, hset⟩ := Option.bind_eq_some_iff.mp hv
  have hstored := h.field f hf
  cases slot with
  | unset => cases hset
  | set v' =>
    cases hset
    rw [stored, show r.values.get? f.name = _ from hslot] at hstored
    obtain ⟨w, hw, hstored⟩ := bind_eq_ok.mp hstored
    exact ⟨w, hw, rfl, _, hv, hw, hstored⟩

/-- The values of fields that are stored have a wire form, field by field. -/
theorem exists_encodeEntries (h : r.schema.Stores (stored r.values) item) {fields : List Field}
    {values : List Value} (hfields : ∀ f ∈ fields, f ∈ r.schema.fields)
    (hvalues : List.Forall₂ (fun f v => r.value? f.name = some v) fields values) :
    ∃ resolved, Value.encodeEntries ((fields.map Field.attributeName).zip values) = .ok resolved ∧
      List.Forall₂ (Resolved r item) fields resolved := by
  induction hvalues with
  | nil => exact ⟨[], rfl, .nil⟩
  | cons hv _ ih =>
    obtain ⟨hf, hfields⟩ := List.forall_mem_cons.mp hfields
    obtain ⟨w, hencode, hw⟩ := exists_resolved h hf hv
    obtain ⟨resolved, hresolved, hall⟩ := ih hfields
    refine ⟨_ :: resolved, ?_, .cons hw hall⟩
    rw [List.map_cons, List.zip_cons_cons, Value.encodeEntries, hencode, hresolved]
    rfl

theorem keys_of_resolved {fields : List Field} {resolved : Item}
    (h : List.Forall₂ (Resolved r item) fields resolved) :
    Dict.keys resolved = fields.map Field.attributeName := by
  induction h with
  | nil => rfl
  | cons he _ ih => rw [Dict.keys_cons, List.map_cons, he.1, ih]

/-- An attribute of a resolved key is stored unless a list or tuple is made into a byte string. -/
theorem Resolved.get?_eq_iff {f : Field} {e : String × Wire} (h : Resolved r item f e)
    (hf : f.encoding.isSet = false) :
    item.get? e.1 = some e.2 ↔
      (f.encoding = .bytes → ∀ v, r.value? f.name = some v → ¬v.isSequence) := by
  obtain ⟨-, v, hv, hencode, hstored⟩ := h
  have hself : item.get? e.1 = some e.2 ↔ f.encoding.encode e.2 = .ok (some e.2) := by
    rw [hstored, Except.ok.injEq]
  simp [hself, Encoding.encode_eq_self_iff hf, ← Value.isSequence_iff hencode, hv]

theorem forall_get?_eq_iff {fields : List Field} {resolved : Item}
    (hfields : ∀ f ∈ fields, f.encoding.isSet = false)
    (h : List.Forall₂ (Resolved r item) fields resolved) :
    (∀ e ∈ resolved, item.get? e.1 = some e.2) ↔
      ∀ f ∈ fields, f.encoding = .bytes → ∀ v, r.value? f.name = some v → ¬v.isSequence := by
  induction h with
  | nil => simp
  | cons he _ ih =>
    obtain ⟨hf, hfields⟩ := List.forall_mem_cons.mp hfields
    rw [List.forall_mem_cons, List.forall_mem_cons, he.get?_eq_iff hf, ih hfields]

/-- **When an item is addressed by the values that it was written with.**  The key of a record
that can be stored is resolved, under the names of the key; what it is resolved to are the key
attributes of the item if and only if no key field that is stored as a byte string holds a list
or a tuple. -/
theorem resolve_primaryKey {draft : SchemaDraft} (hs : draft.build = .ok r.schema)
    (hindex : r.schema.index = none) (hkeys : r.schema.keyFields ≠ [])
    (hset : ∀ f ∈ r.schema.keyFields, ∃ v, r.value? f.name = some v)
    (hitem : r.toItem = .ok item) :
    ∃ key resolved, r.primaryKey? = some key ∧ key.resolve r.schema = .ok resolved ∧
      Dict.keys resolved = r.schema.keyNames ∧
      (resolved.Perm (item.restrict r.schema.keyNames) ↔
        ∀ f ∈ r.schema.keyFields, f.encoding = .bytes →
          ∀ v, r.value? f.name = some v → ¬v.isSequence) := by
  have hapart := SchemaDraft.apart_of_build hs
  have hstores : r.schema.Stores (stored r.values) item := stores_storeValues hapart hitem
  obtain ⟨key, values, hkey, hvalues, hentries⟩ := exists_primaryKey? hs hindex hkeys hset
  obtain ⟨resolved, hresolved, hall⟩ :=
    exists_encodeEntries hstores (fun f hf => (Schema.mem_keyFields.mp hf).1) hvalues
  have hnames : Dict.keys resolved = r.schema.keyNames := keys_of_resolved hall
  have hdistinct : Dict.Distinct resolved := by
    rw [Dict.Distinct, hnames]
    exact hapart.attributes.sublist (List.filter_sublist.map _)
  refine ⟨key, resolved, hkey, bind_eq_ok.mpr ⟨_, hentries, hresolved⟩, hnames, ?_⟩
  rw [← hnames, Item.perm_restrict_iff hdistinct hstores.distinct]
  refine forall_get?_eq_iff (fun f hf => ?_) hall
  obtain ⟨hmem, hkey⟩ := Schema.mem_keyFields.mp hf
  exact SchemaDraft.isSet_of_build hs f hmem hkey

/-- A partition key that is stored as a byte string, and a sort key. -/
def digestDraft : SchemaDraft :=
  (((SchemaDraft.new "t").declareKey "id" .unnamed).declareKey "at" .unnamed).encode "id" .bytes

/-- The schema of these declarations. -/
def digestSchema : Schema :=
  ⟨"t", none, [⟨"id", "id", ⟨none, some "id", []⟩, true, .bytes⟩,
    ⟨"at", "at", ⟨none, some "at", []⟩, true, .native⟩]⟩

theorem build_digestDraft : digestDraft.build = .ok digestSchema := rfl

/-- The record with this partition key. -/
def digestRecord (id : Value) : Record :=
  ⟨digestSchema, [("id", .set id), ("at", .set (.string "a"))]⟩

/-- A byte string is found under the byte string that it is. -/
theorem resolve_primaryKey_bytes :
    (digestRecord (.bytes [1, 2])).toItem = .ok [("id", .bytes [1, 2]), ("at", .string "a")] ∧
      ∃ key resolved, (digestRecord (.bytes [1, 2])).primaryKey? = some key ∧
        key.resolve digestSchema = .ok resolved ∧
        resolved.Perm (Item.restrict [("id", .bytes [1, 2]), ("at", .string "a")]
          digestSchema.keyNames) := by
  have hitem : (digestRecord (.bytes [1, 2])).toItem =
      .ok [("id", .bytes [1, 2]), ("at", .string "a")] := rfl
  have hset : ∀ f ∈ digestSchema.keyFields,
      ∃ v, (digestRecord (.bytes [1, 2])).value? f.name = some v :=
    List.forall_mem_cons.mpr ⟨⟨_, rfl⟩, List.forall_mem_singleton.mpr ⟨_, rfl⟩⟩
  obtain ⟨key, resolved, hkey, hresolved, -, hperm⟩ :=
    resolve_primaryKey (r := digestRecord (.bytes [1, 2])) build_digestDraft rfl
      (List.cons_ne_nil _ _) hset hitem
  refine ⟨hitem, key, resolved, hkey, hresolved, hperm.mpr ?_⟩
  refine List.forall_mem_cons.mpr ⟨?_, List.forall_mem_singleton.mpr ?_⟩
  · rintro - v ⟨⟩
    simp [Value.isSequence]
  · rintro ⟨⟩

/-- Two bytes, as a list. -/
def byteItems : Value := .list [.number (.integer 1), .number (.integer 2)]

/-- A list of two bytes is stored as a byte string, and is looked for as a list. -/
theorem resolve_primaryKey_ne :
    digestDraft.build = .ok digestSchema ∧ digestSchema.index = none ∧
      (digestRecord byteItems).toItem = .ok [("id", .bytes [1, 2]), ("at", .string "a")] ∧
      (digestRecord byteItems).primaryKey? = some (.composite byteItems (.string "a")) ∧
      ∃ resolved,
        (PrimaryKey.composite byteItems (.string "a")).resolve digestSchema = .ok resolved ∧
        ¬resolved.Perm (Item.restrict [("id", .bytes [1, 2]), ("at", .string "a")]
          digestSchema.keyNames) := by
  refine ⟨rfl, rfl, rfl, rfl,
    [("id", .list [.number "1", .number "2"]), ("at", .string "a")], rfl, ?_⟩
  intro hperm
  have hid : ("id", Wire.list [.number "1", .number "2"]) ∈
      Item.restrict [("id", .bytes [1, 2]), ("at", .string "a")] digestSchema.keyNames :=
    hperm.mem_iff.mp (List.mem_cons_self ..)
  obtain ⟨hstored, -⟩ := List.mem_filter.mp hid
  simp at hstored

end Record

end ItemStore
