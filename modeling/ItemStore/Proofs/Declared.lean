import Mathlib.Data.List.Nodup
import ItemStore.Schema

/-!
# What building a schema guarantees

A draft is checked in two passes, each of which stops at the first thing that is wrong: first the
declarations, each against those before it, then the encodings, each against the fields.  What
the passes ask for does not depend on where they stop.  A draft is built if, and only if, it is
valid as a whole, and its schema can be read off the draft: a field for each declaration, in that
order, with the encoding that was given to it last.

So no two fields of a schema share a name or an attribute, and a field is found under either.

## Main definitions

* `Declaration.Valid`, `SchemaDraft.Valid` — what is asked of a declaration and of a draft.
* `SchemaDraft.schema` — the schema of a draft that is valid.
* `Field.Apart` — no two fields share a name or an attribute.
* `SchemaDraft.Describes` — what a schema has of a draft, and what can be looked up in it.

## Main results

* `SchemaDraft.defineAll_eq_ok_iff`, `SchemaDraft.encodeAll_eq_ok_iff` — the two passes.
* `SchemaDraft.build_eq_ok_iff` — what is built is the schema of a valid draft.
* `SchemaDraft.apart_of_build` and its neighbours — what follows for the fields.
* `Schema.field_eq_ok`, `Schema.storedField?_eq_some` — a field is found under its name, and
  under its attribute.
* `SchemaDraft.describes_build` — which drafts are built, what their schemas are, and how the
  others are refused.
-/

namespace ItemStore

/-- No two fields share a name or an attribute. -/
structure Field.Apart (fields : List Field) : Prop where
  names : (fields.map Field.name).Nodup
  attributes : (fields.map Field.attributeName).Nodup

/-- A field is found under its own name. -/
theorem Field.find?_eq_some {key : Field → String} {fields : List Field}
    (hnodup : (fields.map key).Nodup) {f : Field} {k : String} :
    (fields.find? fun g => key g = k) = some f ↔ f ∈ fields ∧ key f = k := by
  constructor
  · intro h
    exact ⟨List.mem_of_find?_eq_some h, by simpa using List.find?_some h⟩
  · rintro ⟨hf, rfl⟩
    obtain ⟨g, hg⟩ : ∃ g, (fields.find? fun g => key g = key f) = some g := by
      refine Option.isSome_iff_exists.mp (List.find?_isSome.mpr ⟨f, hf, ?_⟩)
      simp
    have hkey : key g = key f := by simpa using List.find?_some hg
    rw [hg, List.inj_on_of_nodup_map hnodup (List.mem_of_find?_eq_some hg) hf hkey]

/-! ### Declarations -/

namespace Declaration

/-- The name under which the field is stored: the one that its reference was declared with or,
failing that, the name of the field. -/
def attributeName (d : Declaration) : String := d.reference.declaredName.getD d.field

/-- The field of a declaration, before an encoding is given to it. -/
def plainField (d : Declaration) : Field :=
  ⟨d.attributeName, d.field, d.reference.bindTo d.field, d.isKey, .native⟩

/-- What is asked of a declaration alone. -/
structure Valid (d : Declaration) : Prop where
  field : d.field ≠ ""
  path : d.reference.path = []
  attributeName : d.attributeName ≠ ""

instance (d : Declaration) : Decidable d.Valid :=
  decidable_of_iff (d.field ≠ "" ∧ d.reference.path = [] ∧ d.attributeName ≠ "")
    ⟨fun ⟨hfield, hpath, hname⟩ => ⟨hfield, hpath, hname⟩,
      fun h => ⟨h.field, h.path, h.attributeName⟩⟩

end Declaration

namespace SchemaDraft

theorem any_eq_false_iff {α : Type} {key : α → String} {l : List α} {k : String} :
    (l.any fun a => key a = k) = false ↔ k ∉ l.map key := by
  simp only [List.any_eq_false, decide_eq_true_eq, List.mem_map, not_exists, not_and]

/-- **Which declarations are accepted**, and as which field. -/
theorem define_eq_ok {table : String} {defined : List Field} {d : Declaration} {f : Field} :
    define table defined d = .ok f ↔
      d.Valid ∧ d.field ∉ defined.map Field.name ∧
        d.attributeName ∉ defined.map Field.attributeName ∧ f = d.plainField := by
  have hname : (d.reference.bindTo d.field).name?.getD "" = d.attributeName := by
    rw [d.reference.name?_bindTo, Option.getD_some, Declaration.attributeName]
  unfold define
  simp only [hname]
  constructor
  · intro h
    split at h
    · cases h
    · next hfield =>
      split at h
      · cases h
      · next hpath =>
        split at h
        · cases h
        · next hnew =>
          split at h
          · cases h
          · next hnonempty =>
            split at h
            · cases h
            · next hfree =>
              cases h
              rw [Bool.not_eq_true, any_eq_false_iff] at hnew hfree
              exact ⟨⟨hfield, not_not.mp hpath, hnonempty⟩, hnew, hfree, rfl⟩
  · rintro ⟨hvalid, hnew, hfree, rfl⟩
    rw [← any_eq_false_iff] at hnew hfree
    simp only [hvalid.field, hvalid.path, hvalid.attributeName, hnew, hfree, ne_eq,
      not_true_eq_false, if_false, Bool.false_eq_true]
    rfl

/-- A name that is added to names that are taken is a new one. -/
theorem nodup_append_cons_iff {α : Type} {l r : List α} {a : α} :
    (l ++ a :: r).Nodup ↔ a ∉ l ∧ (l ++ [a] ++ r).Nodup := by
  rw [List.append_assoc, List.singleton_append]
  constructor
  · intro h
    refine ⟨fun ha => ?_, h⟩
    exact (List.nodup_append.mp h).2.2 a ha a (List.mem_cons_self ..) rfl
  · exact And.right

/-- **The declarations** are accepted if each of them is valid alone and no two share a name. -/
theorem defineAll_eq_ok_iff {table : String} {declarations : List Declaration} :
    ∀ {defined fields : List Field}, Field.Apart defined →
      (defineAll table defined declarations = .ok fields ↔
        (∀ d ∈ declarations, d.Valid) ∧
          (defined.map Field.name ++ declarations.map Declaration.field).Nodup ∧
          (defined.map Field.attributeName ++ declarations.map Declaration.attributeName).Nodup ∧
          fields = defined ++ declarations.map Declaration.plainField) := by
  induction declarations with
  | nil =>
    intro defined fields hdefined
    simp [defineAll, hdefined.names, hdefined.attributes, eq_comm]
  | cons d declarations ih =>
    intro defined fields hdefined
    have happend : defined ++ d.plainField :: declarations.map Declaration.plainField =
        defined ++ [d.plainField] ++ declarations.map Declaration.plainField := by
      rw [List.append_assoc, List.singleton_append]
    rw [defineAll, bind_eq_ok]
    simp only [define_eq_ok, List.map_cons, List.forall_mem_cons, happend]
    rw [nodup_append_cons_iff, nodup_append_cons_iff]
    constructor
    · rintro ⟨f, ⟨hvalid, hnew, hfree, rfl⟩, hrest⟩
      have hapart : Field.Apart (defined ++ [d.plainField]) := by
        constructor
        · rw [List.map_append, List.map_singleton, ← List.concat_eq_append]
          exact hdefined.names.concat hnew
        · rw [List.map_append, List.map_singleton, ← List.concat_eq_append]
          exact hdefined.attributes.concat hfree
      obtain ⟨hall, hnames, hattributes, rfl⟩ := (ih hapart).mp hrest
      rw [List.map_append] at hnames hattributes
      exact ⟨⟨hvalid, hall⟩, ⟨hnew, hnames⟩, ⟨hfree, hattributes⟩, rfl⟩
    · rintro ⟨⟨hvalid, hall⟩, ⟨hnew, hnames⟩, ⟨hfree, hattributes⟩, rfl⟩
      have hapart : Field.Apart (defined ++ [d.plainField]) := by
        constructor
        · rw [List.map_append]
          exact hnames.of_append_left
        · rw [List.map_append]
          exact hattributes.of_append_left
      refine ⟨d.plainField, ⟨hvalid, hnew, hfree, rfl⟩, (ih hapart).mpr ?_⟩
      rw [List.map_append, List.map_append]
      exact ⟨hall, hnames, hattributes, rfl⟩

/-! ### Encodings -/

/-- The encoding that was given to a field last. -/
def lastEncoding? (encodings : List (String × Encoding)) (field : String) : Option Encoding :=
  (encodings.reverse.find? fun e => e.1 = field).map Prod.snd

theorem lastEncoding?_cons (e : String × Encoding) (encodings : List (String × Encoding))
    (field : String) :
    lastEncoding? (e :: encodings) field =
      (lastEncoding? encodings field).or (if e.1 = field then some e.2 else none) := by
  rw [lastEncoding?, List.reverse_cons, List.find?_append, Option.map_or, ← lastEncoding?]
  by_cases hfield : e.1 = field <;> simp [hfield]

/-- A field with the encoding that was given to it last. -/
def encoded (encodings : List (String × Encoding)) (f : Field) : Field :=
  { f with encoding := (lastEncoding? encodings f.name).getD f.encoding }

/-- A field after one encoding was given to a field. -/
def reencoded (e : String × Encoding) (f : Field) : Field :=
  if f.name = e.1 then { f with encoding := e.2 } else f

@[simp] theorem name_reencoded (e : String × Encoding) (f : Field) :
    (reencoded e f).name = f.name := by
  unfold reencoded
  split <;> rfl

@[simp] theorem isKey_reencoded (e : String × Encoding) (f : Field) :
    (reencoded e f).isKey = f.isKey := by
  unfold reencoded
  split <;> rfl

/-- Of the encodings that are given to a field the later ones override. -/
theorem encoded_reencoded (e : String × Encoding) (encodings : List (String × Encoding))
    (f : Field) : encoded encodings (reencoded e f) = encoded (e :: encodings) f := by
  simp only [encoded, name_reencoded, lastEncoding?_cons]
  by_cases hfield : f.name = e.1
  · cases lastEncoding? encodings f.name <;> simp [reencoded, hfield]
  · cases lastEncoding? encodings f.name <;> simp [reencoded, hfield, Ne.symm hfield]

/-- An encoding can be given to a field: it is declared, and it is no key that would become a
set. -/
def Encodes (fields : List Field) (e : String × Encoding) : Prop :=
  ∃ f ∈ fields, f.name = e.1 ∧ (f.isKey && e.2.isSet) = false

theorem encodeField_eq_ok_iff {defined fields : List Field} {e : String × Encoding}
    (hnames : (defined.map Field.name).Nodup) :
    encodeField defined e.1 e.2 = .ok fields ↔
      Encodes defined e ∧ fields = defined.map (reencoded e) := by
  unfold encodeField
  cases hfound : defined.find? fun f => f.name = e.1 with
  | none =>
    simp only [reduceCtorEq, false_iff, not_and]
    rintro ⟨f, hf, hname, -⟩
    rw [(Field.find?_eq_some hnames).mpr ⟨hf, hname⟩] at hfound
    cases hfound
  | some g =>
    obtain ⟨hg, hname⟩ := (Field.find?_eq_some hnames).mp hfound
    have hencodes : Encodes defined e ↔ (g.isKey && e.2.isSet) = false := by
      constructor
      · rintro ⟨f, hf, hname', hset⟩
        rwa [List.inj_on_of_nodup_map hnames hg hf (hname.trans hname'.symm)]
      · intro hset
        exact ⟨g, hg, hname, hset⟩
    rw [hencodes]
    cases hset : g.isKey && e.2.isSet with
    | true => simp [hset]
    | false =>
      simp only [hset, Bool.false_eq_true, if_false, Except.ok.injEq, true_and]
      exact eq_comm

/-- **The encodings** are accepted if each can be given to a field, and the last one counts. -/
theorem encodeAll_eq_ok_iff {encodings : List (String × Encoding)} :
    ∀ {defined fields : List Field}, (defined.map Field.name).Nodup →
      (encodeAll defined encodings = .ok fields ↔
        (∀ e ∈ encodings, Encodes defined e) ∧ fields = defined.map (encoded encodings)) := by
  induction encodings with
  | nil =>
    intro defined fields _
    have hself : defined.map (encoded []) = defined := List.map_id' ..
    simp [encodeAll, hself, eq_comm]
  | cons e encodings ih =>
    intro defined fields hnames
    have hsame : (defined.map (reencoded e)).map Field.name = defined.map Field.name := by
      rw [List.map_map]
      exact List.map_congr_left fun f _ => name_reencoded e f
    -- The check of an encoding looks at what no encoding changes.
    have hencodes : ∀ e', Encodes (defined.map (reencoded e)) e' ↔ Encodes defined e' := by
      intro e'
      simp only [Encodes, List.mem_map, exists_exists_and_eq_and, name_reencoded, isKey_reencoded]
    have hlast : (defined.map (reencoded e)).map (encoded encodings) =
        defined.map (encoded (e :: encodings)) := by
      rw [List.map_map]
      exact List.map_congr_left fun f _ => encoded_reencoded e encodings f
    have hnames' : ((defined.map (reencoded e)).map Field.name).Nodup := by
      rw [hsame]
      exact hnames
    rw [encodeAll, bind_eq_ok]
    simp only [encodeField_eq_ok_iff hnames, List.forall_mem_cons]
    constructor
    · rintro ⟨_, ⟨hhead, rfl⟩, hrest⟩
      obtain ⟨htail, rfl⟩ := (ih hnames').mp hrest
      exact ⟨⟨hhead, fun e' he' => (hencodes e').mp (htail e' he')⟩, hlast⟩
    · rintro ⟨⟨hhead, htail⟩, rfl⟩
      refine ⟨_, ⟨hhead, rfl⟩, (ih hnames').mpr ⟨?_, hlast.symm⟩⟩
      exact fun e' he' => (hencodes e').mpr (htail e' he')

/-! ### Drafts -/

/-- What is asked of a draft. -/
structure Valid (draft : SchemaDraft) : Prop where
  table : draft.table ≠ ""
  declarations : ∀ d ∈ draft.declarations, d.Valid
  names : (draft.declarations.map Declaration.field).Nodup
  attributeNames : (draft.declarations.map Declaration.attributeName).Nodup
  /-- Encodings are given to declared fields, and keys are not stored as sets. -/
  encodings : ∀ e ∈ draft.encodings,
    ∃ d ∈ draft.declarations, d.field = e.1 ∧ (d.isKey = true → e.2.isSet = false)
  keys : draft.declarations.countP Declaration.isKey ≤ 2

instance (draft : SchemaDraft) : Decidable draft.Valid :=
  decidable_of_iff (draft.table ≠ "" ∧ (∀ d ∈ draft.declarations, d.Valid) ∧
      (draft.declarations.map Declaration.field).Nodup ∧
      (draft.declarations.map Declaration.attributeName).Nodup ∧
      (∀ e ∈ draft.encodings,
        ∃ d ∈ draft.declarations, d.field = e.1 ∧ (d.isKey = true → e.2.isSet = false)) ∧
      draft.declarations.countP Declaration.isKey ≤ 2)
    ⟨fun ⟨ht, hd, hn, ha, he, hk⟩ => ⟨ht, hd, hn, ha, he, hk⟩,
      fun h => ⟨h.table, h.declarations, h.names, h.attributeNames, h.encodings, h.keys⟩⟩

/-- The encoding of a field: the one that was given to it last, if any was. -/
def encodingOf (draft : SchemaDraft) (field : String) : Encoding :=
  (lastEncoding? draft.encodings field).getD .native

/-- The field of a declaration. -/
def fieldOf (draft : SchemaDraft) (d : Declaration) : Field :=
  { d.plainField with encoding := draft.encodingOf d.field }

/-- The schema of a draft. -/
def schema (draft : SchemaDraft) : Schema :=
  ⟨draft.table, draft.index, draft.declarations.map draft.fieldOf⟩

theorem map_fieldOf {α : Type} (draft : SchemaDraft) (key : Field → α) :
    draft.schema.fields.map key = draft.declarations.map fun d => key (draft.fieldOf d) := by
  rw [schema, List.map_map]
  rfl

/-- **What is built is the schema of a valid draft.** -/
theorem build_eq_ok_iff {draft : SchemaDraft} {s : Schema} :
    draft.build = .ok s ↔ draft.Valid ∧ s = draft.schema := by
  have hnone : Field.Apart [] := ⟨List.nodup_nil, List.nodup_nil⟩
  have hnames : (draft.declarations.map Declaration.plainField).map Field.name =
      draft.declarations.map Declaration.field := by
    rw [List.map_map]
    rfl
  have hfields : (draft.declarations.map Declaration.plainField).map (encoded draft.encodings) =
      draft.schema.fields := by
    rw [List.map_map]
    rfl
  have hkeys : draft.schema.fields.countP Field.isKey =
      draft.declarations.countP Declaration.isKey := by
    rw [schema, List.countP_map]
    rfl
  have hencodes : ∀ e, Encodes (draft.declarations.map Declaration.plainField) e ↔
      ∃ d ∈ draft.declarations, d.field = e.1 ∧ (d.isKey = true → e.2.isSet = false) := by
    intro e
    simp only [Encodes, List.mem_map, exists_exists_and_eq_and, Bool.and_eq_false_imp]
    rfl
  unfold build
  constructor
  · intro h
    split at h
    · cases h
    · next htable =>
      obtain ⟨defined, hdefined, hencode⟩ := bind_eq_ok.mp h
      obtain ⟨fields, hencoded, hcount⟩ := bind_eq_ok.mp hencode
      obtain ⟨hvalid, hnodup, hattributes, rfl⟩ := (defineAll_eq_ok_iff hnone).mp hdefined
      rw [List.map_nil, List.nil_append] at hnodup hattributes
      rw [List.nil_append] at hencoded
      obtain ⟨hall, rfl⟩ := (encodeAll_eq_ok_iff (hnames ▸ hnodup)).mp hencoded
      rw [hfields] at hcount
      simp only [hkeys] at hcount
      split at hcount
      · cases hcount
      · next hle =>
        cases hcount
        exact ⟨⟨htable, hvalid, hnodup, hattributes, fun e he => (hencodes e).mp (hall e he),
          Nat.not_lt.mp hle⟩, rfl⟩
  · rintro ⟨hvalid, rfl⟩
    rw [if_neg hvalid.table]
    have hdefined : defineAll draft.table [] draft.declarations =
        .ok (draft.declarations.map Declaration.plainField) :=
      (defineAll_eq_ok_iff hnone).mpr
        ⟨hvalid.declarations, hvalid.names, hvalid.attributeNames, rfl⟩
    have hencoded : encodeAll (draft.declarations.map Declaration.plainField) draft.encodings =
        .ok draft.schema.fields :=
      (encodeAll_eq_ok_iff (hnames ▸ hvalid.names)).mpr
        ⟨fun e he => (hencodes e).mpr (hvalid.encodings e he), hfields.symm⟩
    refine bind_eq_ok.mpr ⟨_, hdefined, bind_eq_ok.mpr ⟨_, hencoded, ?_⟩⟩
    simp only [hkeys, if_neg (Nat.not_lt.mpr hvalid.keys)]
    rfl

/-! ### What follows for the fields -/

section Fields

variable {draft : SchemaDraft} {s : Schema}

/-- The fields of a schema are those that were declared, in that order. -/
theorem map_name_of_build (h : draft.build = .ok s) :
    s.fields.map Field.name = draft.declarations.map Declaration.field := by
  obtain ⟨-, rfl⟩ := build_eq_ok_iff.mp h
  exact draft.map_fieldOf Field.name

/-- **The fields of a schema are apart.** -/
theorem apart_of_build (h : draft.build = .ok s) : Field.Apart s.fields := by
  obtain ⟨hvalid, rfl⟩ := build_eq_ok_iff.mp h
  constructor
  · rw [map_fieldOf]
    exact hvalid.names
  · rw [map_fieldOf]
    exact hvalid.attributeNames

/-- The reference of a field names its attribute, and no part of it. -/
theorem reference_of_build (h : draft.build = .ok s) :
    ∀ f ∈ s.fields, f.reference.name? = some f.attributeName ∧ f.reference.path = [] := by
  obtain ⟨hvalid, rfl⟩ := build_eq_ok_iff.mp h
  intro f hf
  obtain ⟨d, hd, rfl⟩ := List.mem_map.mp hf
  exact ⟨d.reference.name?_bindTo d.field, (hvalid.declarations d hd).path⟩

theorem mem_of_lastEncoding? {encodings : List (String × Encoding)} {field : String}
    {encoding : Encoding} (h : lastEncoding? encodings field = some encoding) :
    (field, encoding) ∈ encodings := by
  obtain ⟨e, he, rfl⟩ := Option.map_eq_some_iff.mp h
  have hfield : e.1 = field := by simpa using List.find?_some he
  rw [← hfield]
  exact List.mem_reverse.mp (List.mem_of_find?_eq_some he)

/-- No field of the key is stored as a set. -/
theorem isSet_of_build (h : draft.build = .ok s) :
    ∀ f ∈ s.fields, f.isKey = true → f.encoding.isSet = false := by
  obtain ⟨hvalid, rfl⟩ := build_eq_ok_iff.mp h
  intro f hf hkey
  obtain ⟨d, hd, rfl⟩ := List.mem_map.mp hf
  show (draft.encodingOf d.field).isSet = false
  rw [encodingOf]
  cases hlast : lastEncoding? draft.encodings d.field with
  | none => rfl
  | some encoding =>
    obtain ⟨d', hd', hfield, hset⟩ := hvalid.encodings _ (mem_of_lastEncoding? hlast)
    obtain rfl := List.inj_on_of_nodup_map hvalid.names hd' hd hfield
    exact hset hkey

theorem countP_isKey_of_build (h : draft.build = .ok s) : s.fields.countP Field.isKey ≤ 2 := by
  obtain ⟨hvalid, rfl⟩ := build_eq_ok_iff.mp h
  rw [schema, List.countP_map]
  exact hvalid.keys

end Fields

end SchemaDraft

/-! ### Looking up -/

namespace Schema

variable {s : Schema} {f : Field}

theorem field_eq_ok (h : Field.Apart s.fields) {name : String} :
    s.field name = .ok f ↔ f ∈ s.fields ∧ f.name = name := by
  rw [← Field.find?_eq_some h.names, field, field?]
  cases s.fields.find? fun g => g.name = name with
  | none => simp
  | some g => simp

theorem storedField?_eq_some (h : Field.Apart s.fields) {attributeName : String} :
    s.storedField? attributeName = some f ↔ f ∈ s.fields ∧ f.attributeName = attributeName :=
  Field.find?_eq_some h.attributes

theorem kind_of_field {name : String} {e : Error} (h : s.field name = .error e) :
    e.kind = .definition := by
  unfold field at h
  split at h
  · cases h
  · cases h
    rfl

theorem keyAttribute_eq_ok (h : Field.Apart s.fields) {name : String} {a : Attribute} :
    s.keyAttribute name = .ok a ↔
      ∃ f ∈ s.fields, f.name = name ∧ f.isKey = true ∧ a = ⟨.key, f.reference⟩ := by
  rw [keyAttribute, bind_eq_ok]
  simp only [field_eq_ok h, and_assoc]
  refine exists_congr fun f => and_congr_right fun _ => and_congr_right fun _ => ?_
  cases f.isKey <;> simp [eq_comm]

theorem plainAttribute_eq_ok (h : Field.Apart s.fields) {name : String} {a : Attribute} :
    s.plainAttribute name = .ok a ↔
      ∃ f ∈ s.fields, f.name = name ∧ f.isKey = false ∧ a = ⟨.plain, f.reference⟩ := by
  rw [plainAttribute, bind_eq_ok]
  simp only [field_eq_ok h, and_assoc]
  refine exists_congr fun f => and_congr_right fun _ => and_congr_right fun _ => ?_
  cases f.isKey <;> simp [eq_comm]

/-- A field that is asked for as what it is not is a definition error. -/
theorem kind_of_attribute {name : String} {e : Error}
    (h : s.keyAttribute name = .error e ∨ s.plainAttribute name = .error e) :
    e.kind = .definition := by
  rcases h with h | h
  · rcases bind_eq_error.mp h with h | ⟨f, -, h⟩
    · exact kind_of_field h
    · split at h
      · cases h
      · cases h
        rfl
  · rcases bind_eq_error.mp h with h | ⟨f, -, h⟩
    · exact kind_of_field h
    · split at h
      · cases h
        rfl
      · cases h

end Schema

/-! ### Refused drafts -/

namespace SchemaDraft

theorem kind_of_define {table : String} {defined : List Field} {d : Declaration} {e : Error}
    (h : define table defined d = .error e) : e.kind = .definition := by
  unfold define at h
  simp only at h
  -- One case for each check, in the order in which they are made.
  split at h
  · cases h
    rfl
  split at h
  · cases h
    rfl
  split at h
  · cases h
    rfl
  split at h
  · cases h
    rfl
  split at h
  · cases h
    rfl
  · cases h

theorem kind_of_defineAll {table : String} {declarations : List Declaration} {e : Error} :
    ∀ {defined : List Field}, defineAll table defined declarations = .error e →
      e.kind = .definition := by
  induction declarations with
  | nil =>
    intro defined h
    cases h
  | cons d declarations ih =>
    intro defined h
    rcases bind_eq_error.mp h with h | ⟨f, -, h⟩
    · exact kind_of_define h
    · exact ih h

theorem kind_of_encodeAll {encodings : List (String × Encoding)} {e : Error} :
    ∀ {defined : List Field}, encodeAll defined encodings = .error e → e.kind = .definition := by
  induction encodings with
  | nil =>
    intro defined h
    cases h
  | cons given encodings ih =>
    intro defined h
    rcases bind_eq_error.mp h with h | ⟨fields, -, h⟩
    · unfold encodeField at h
      split at h
      · cases h
        rfl
      split at h
      · cases h
        rfl
      · cases h
    · exact ih h

/-- **A draft that is not built** is a definition error. -/
theorem kind_of_build {draft : SchemaDraft} {e : Error} (h : draft.build = .error e) :
    e.kind = .definition := by
  unfold build at h
  split at h
  · cases h
    rfl
  rcases bind_eq_error.mp h with h | ⟨defined, -, h⟩
  · exact kind_of_defineAll h
  rcases bind_eq_error.mp h with h | ⟨fields, -, h⟩
  · exact kind_of_encodeAll h
  simp only at h
  split at h
  · cases h
    rfl
  · cases h

/-! ### Built drafts -/

/-- What a schema has of a draft, and what can be looked up in it. -/
structure Describes (draft : SchemaDraft) (s : Schema) : Prop where
  table : s.table = draft.table
  index : s.index = draft.index
  /-- A field for each declaration, in that order. -/
  fields : s.fields = draft.declarations.map draft.fieldOf
  /-- A field is stored under the name that its reference has. -/
  named : ∀ f ∈ s.fields, f.reference.name? = some f.attributeName ∧ f.reference.path = []
  keyAttribute : ∀ name a, s.keyAttribute name = .ok a ↔
    ∃ d ∈ draft.declarations,
      d.field = name ∧ d.isKey = true ∧ a = ⟨.key, (draft.fieldOf d).reference⟩
  plainAttribute : ∀ name a, s.plainAttribute name = .ok a ↔
    ∃ d ∈ draft.declarations,
      d.field = name ∧ d.isKey = false ∧ a = ⟨.plain, (draft.fieldOf d).reference⟩
  refused : ∀ name e, s.keyAttribute name = .error e ∨ s.plainAttribute name = .error e →
    e.kind = .definition

/-- **Which drafts are built.**  Those that are valid, whatever the order in which fields were
declared and encodings were given.  The schema describes the draft.  Every other draft is refused
with a definition error. -/
theorem describes_build (draft : SchemaDraft) :
    ((∃ s, draft.build = .ok s) ↔ draft.Valid) ∧
      (∀ s, draft.build = .ok s → draft.Describes s) ∧
      ∀ e, draft.build = .error e → e.kind = .definition := by
  refine ⟨?_, ?_, fun e => kind_of_build⟩
  · simp only [build_eq_ok_iff, exists_and_left, exists_eq, and_true]
  · intro s hs
    have hapart := apart_of_build hs
    have hnamed := reference_of_build hs
    obtain ⟨-, rfl⟩ := build_eq_ok_iff.mp hs
    refine ⟨rfl, rfl, rfl, hnamed, ?_, ?_, fun name e => Schema.kind_of_attribute⟩
    · intro name a
      rw [Schema.keyAttribute_eq_ok hapart, schema]
      simp only [List.mem_map, exists_exists_and_eq_and]
      rfl
    · intro name a
      rw [Schema.plainAttribute_eq_ok hapart, schema]
      simp only [List.mem_map, exists_exists_and_eq_and]
      rfl

/-- Two fields are stored under each other's names, and an encoding that was given to one of them
is overridden.  A draft in which the key would become a set is refused. -/
theorem describes_build_swapped :
    let draft : SchemaDraft := ((((((SchemaDraft.new "table").declareKey "id" .unnamed).declarePlain
      "a" (.named "b")).encode "a" .set).declarePlain "b" (.named "a")).encode "id" .bytes).encode
      "a" .binarySet
    (∃ s, draft.build = .ok s ∧ s.fields.map Field.attributeName = ["id", "b", "a"] ∧
      s.fields.map Field.encoding = [.bytes, .binarySet, .native] ∧
      s.plainAttribute "a" = .ok ⟨.plain, ⟨some "b", some "a", []⟩⟩) ∧
      ∃ e, (draft.encode "id" .set).build = .error e ∧ e.kind = .definition := by
  intro draft
  obtain ⟨hbuilt, hdescribes, -⟩ := describes_build draft
  obtain ⟨hrefused, -, hkind⟩ := describes_build (draft.encode "id" .set)
  constructor
  · obtain ⟨s, hs⟩ := hbuilt.mpr (by decide)
    have h := hdescribes s hs
    refine ⟨s, hs, ?_, ?_, ?_⟩
    · rw [h.fields]
      decide
    · rw [h.fields]
      decide
    · rw [h.plainAttribute]
      exact ⟨⟨"a", .named "b", false⟩, by decide, rfl, rfl, rfl⟩
  · cases hresult : (draft.encode "id" .set).build with
    | ok s => exact absurd (hrefused.mp ⟨s, hresult⟩) (by decide)
    | error e => exact ⟨e, rfl, hkind e hresult⟩

end SchemaDraft

end ItemStore
