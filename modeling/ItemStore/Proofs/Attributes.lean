import Mathlib.Data.List.Forall2
import Mathlib.Data.List.Perm.Lattice
import ItemStore.Schema.Record
import ItemStore.Schema.Storage
import ItemStore.Proofs.Declared

/-!
# The attributes that are stored for fields

Serialized fields and the values of a record reach an item on two ways.  Both go through a
list, take each part to an attribute that may be left out, and stop at the first part that
cannot be stored.  Since the fields of a schema are apart, what arrives is settled field by
field: the item has, under the attribute of each field, what is stored for the field, and
nothing else.

## Main definitions

* `Item.present`, `Item.collect` — entries without those whose value is missing.
* `Schema.Stores` — an item has what is stored for each field, and nothing else.
* `Field.stored` — what is stored for a field of serialized data.

## Main results

* `Schema.Stores.perm` — this settles the item, up to order.
* `Schema.exists_storeFields_iff`, `Schema.stores_storeFields` — storing serialized fields.
* `Record.exists_storeValues_iff`, `Record.stores_storeValues` — storing the values of a record.
* `Schema.get?_readFields` — reading an item field by field.
-/

namespace ItemStore

/-! ### Steps over lists -/

section Steps

variable {ε α β : Type} {g : α → Except ε β} {l : List α} {rs : List β}

/-- Steps over a list succeed if each of them does. -/
theorem mapM_eq_ok : l.mapM g = .ok rs ↔ List.Forall₂ (fun a r => g a = .ok r) l rs := by
  induction l generalizing rs with
  | nil =>
    rw [List.mapM_nil, pure_eq_ok]
    constructor
    · rintro rfl
      exact .nil
    · intro h
      cases h
      rfl
  | cons a l ih =>
    rw [List.mapM_cons]
    constructor
    · intro h
      obtain ⟨r, hr, h⟩ := bind_eq_ok.mp h
      obtain ⟨rs, hrs, h⟩ := bind_eq_ok.mp h
      obtain rfl := pure_eq_ok.mp h
      exact .cons hr (ih.mp hrs)
    · intro h
      cases h with
      | cons hr hrs => exact bind_eq_ok.mpr ⟨_, hr, bind_eq_ok.mpr ⟨_, ih.mpr hrs, rfl⟩⟩

/-- Steps over a list that fail do so at the first one that fails. -/
theorem exists_of_mapM_eq_error {e : ε} (h : l.mapM g = .error e) :
    ∃ before a after rs, l = before ++ a :: after ∧
      List.Forall₂ (fun a r => g a = .ok r) before rs ∧ g a = .error e := by
  induction l with
  | nil => cases h
  | cons a l ih =>
    rw [List.mapM_cons] at h
    cases ha : g a with
    | error e' =>
      rw [ha] at h
      cases h
      exact ⟨[], a, l, [], rfl, .nil, ha⟩
    | ok r =>
      cases hl : l.mapM g with
      | ok rs =>
        rw [ha, hl] at h
        cases h
      | error e' =>
        rw [ha, hl] at h
        cases h
        obtain ⟨before, a', after, rs, rfl, hbefore, ha'⟩ := ih hl
        exact ⟨a :: before, a', after, r :: rs, rfl, .cons ha hbefore, ha'⟩

theorem exists_mapM_eq_ok : (∃ rs, l.mapM g = .ok rs) ↔ ∀ a ∈ l, ∃ r, g a = .ok r := by
  simp only [mapM_eq_ok]
  constructor
  · rintro ⟨rs, hrs⟩
    induction hrs with
    | nil => simp
    | cons hr _ ih => exact List.forall_mem_cons.mpr ⟨⟨_, hr⟩, ih⟩
  · intro h
    induction l with
    | nil => exact ⟨[], .nil⟩
    | cons a l ih =>
      obtain ⟨⟨r, hr⟩, hl⟩ := List.forall_mem_cons.mp h
      obtain ⟨rs, hrs⟩ := ih hl
      exact ⟨r :: rs, .cons hr hrs⟩

theorem mem_of_mapM (h : l.mapM g = .ok rs) {r : β} : r ∈ rs ↔ ∃ a ∈ l, g a = .ok r := by
  rw [mapM_eq_ok] at h
  induction h with
  | nil => simp
  | cons hr _ ih => simp [ih, hr, eq_comm]

end Steps

/-! ### Dictionaries that are looked up -/

namespace Dict

variable {κ α : Type} [DecidableEq κ] {d e : Dict κ α}

theorem get?_eq_some_iff (h : Distinct d) {k : κ} {v : α} : get? d k = some v ↔ (k, v) ∈ d :=
  ⟨mem_of_get?, get?_of_mem h⟩

theorem get?_eq_none_iff {k : κ} : get? d k = none ↔ k ∉ keys d := by
  induction d with
  | nil => simp
  | cons e d ih =>
    rw [get?_cons, keys_cons, List.mem_cons]
    by_cases hk : e.1 = k
    · simp [hk]
    · simp [hk, Ne.symm hk, ih]

theorem contains_iff {k : κ} : contains d k = true ↔ k ∈ keys d := by
  rw [contains, Option.isSome_iff_ne_none, ne_eq, get?_eq_none_iff, not_not]

theorem exists_get?_of_mem_keys {k : κ} (h : k ∈ keys d) : ∃ v, get? d k = some v := by
  rw [← Option.ne_none_iff_exists']
  exact fun hnone => get?_eq_none_iff.mp hnone h

/-- The order of the entries does not show when a dictionary is looked up. -/
theorem get?_perm (hd : Distinct d) (h : d.Perm e) (k : κ) : get? e k = get? d k := by
  have he : Distinct e := (h.map Prod.fst).nodup_iff.mp hd
  ext v
  rw [get?_eq_some_iff hd, get?_eq_some_iff he, h.mem_iff]

/-- Dictionaries that are looked up alike have the same entries. -/
theorem perm_of_get? (hd : Distinct d) (he : Distinct e) (h : ∀ k, get? d k = get? e k) :
    d.Perm e := by
  rw [List.perm_ext_iff_of_nodup hd.of_map he.of_map]
  rintro ⟨k, v⟩
  rw [← get?_eq_some_iff hd, ← get?_eq_some_iff he, h]

end Dict

/-! ### Entries that may be missing -/

namespace Item

/-- The entries, without those whose value is missing. -/
def present (entries : List (String × Option Wire)) : Item :=
  entries.filterMap fun e => e.2.map fun w => (e.1, w)

theorem mem_present {entries : List (String × Option Wire)} {k : String} {w : Wire} :
    (k, w) ∈ present entries ↔ (k, some w) ∈ entries := by
  simp only [present, List.mem_filterMap, Option.map_eq_some_iff]
  constructor
  · rintro ⟨⟨name, o⟩, hmem, v, rfl, heq⟩
    cases heq
    exact hmem
  · intro hmem
    exact ⟨(k, some w), hmem, w, rfl, rfl⟩

theorem keys_present_sublist (entries : List (String × Option Wire)) :
    (Dict.keys (present entries)).Sublist (entries.map Prod.fst) := by
  induction entries with
  | nil => exact .slnil
  | cons e entries ih =>
    obtain ⟨name, o⟩ := e
    cases o with
    | none => exact ih.cons _
    | some w => exact ih.cons_cons _

theorem get?_present {entries : List (String × Option Wire)} (h : (entries.map Prod.fst).Nodup)
    {k : String} {o : Option Wire} (hmem : (k, o) ∈ entries) : (present entries).get? k = o := by
  have hdistinct : Dict.Distinct (present entries) := h.sublist (keys_present_sublist entries)
  cases o with
  | some w => exact Dict.get?_of_mem hdistinct (mem_present.mpr hmem)
  | none =>
    rw [Dict.get?_eq_none_iff]
    intro hk
    obtain ⟨w, hw⟩ := Dict.exists_get?_of_mem_keys hk
    have hboth := List.inj_on_of_nodup_map h hmem (mem_present.mp (Dict.mem_of_get? hw)) rfl
    cases hboth

section Collect

variable {α : Type} {part : α → Except Error (String × Option Wire)} {l : List α} {item : Item}

/-- The item of the parts of a list, if each part can be stored. -/
def collect (part : α → Except Error (String × Option Wire)) (l : List α) : Except Error Item :=
  (l.mapM part).map present

theorem collect_cons (a : α) (l : List α) :
    collect part (a :: l) = do
      let e ← part a
      let rest ← collect part l
      return match e.2 with
        | some w => (e.1, w) :: rest
        | none => rest := by
  rw [collect, collect, List.mapM_cons]
  cases part a with
  | error e => rfl
  | ok e =>
    obtain ⟨name, o⟩ := e
    cases l.mapM part with
    | error e => rfl
    | ok rest => cases o <;> rfl

theorem exists_collect_iff : (∃ item, collect part l = .ok item) ↔ ∀ a ∈ l, ∃ e, part a = .ok e := by
  rw [← exists_mapM_eq_ok]
  constructor
  · rintro ⟨item, hitem⟩
    obtain ⟨entries, hentries, -⟩ := map_eq_ok.mp hitem
    exact ⟨entries, hentries⟩
  · rintro ⟨entries, hentries⟩
    exact ⟨_, map_eq_ok.mpr ⟨entries, hentries, rfl⟩⟩

variable {key : α → String} (hkey : ∀ a e, part a = .ok e → e.1 = key a)
include hkey

theorem map_fst_of_mapM {entries : List (String × Option Wire)} (h : l.mapM part = .ok entries) :
    entries.map Prod.fst = l.map key := by
  rw [mapM_eq_ok] at h
  induction h with
  | nil => rfl
  | cons he _ ih => rw [List.map_cons, List.map_cons, ih, hkey _ _ he]

theorem keys_collect_sublist (h : collect part l = .ok item) :
    (Dict.keys item).Sublist (l.map key) := by
  obtain ⟨entries, hentries, rfl⟩ := map_eq_ok.mp h
  rw [← map_fst_of_mapM hkey hentries]
  exact keys_present_sublist entries

/-- Each part is found under its own name, if no two have the same. -/
theorem get?_collect (h : collect part l = .ok item) (hnodup : (l.map key).Nodup) {a : α}
    (ha : a ∈ l) : part a = .ok (key a, item.get? (key a)) := by
  obtain ⟨entries, hentries, rfl⟩ := map_eq_ok.mp h
  obtain ⟨e, he⟩ := exists_mapM_eq_ok.mp ⟨entries, hentries⟩ a ha
  rw [← map_fst_of_mapM hkey hentries] at hnodup
  have hmem : (key a, e.2) ∈ entries := by
    rw [← hkey a e he]
    exact (mem_of_mapM hentries).mpr ⟨a, ha, he⟩
  rw [get?_present hnodup hmem, he, ← hkey a e he]

end Collect

end Item

/-! ### Items field by field -/

/-- An item has what is stored for each field under the attribute of the field, and nothing
else. -/
structure Schema.Stores (s : Schema) (stored : Field → Except Error (Option Wire)) (item : Item) :
    Prop where
  distinct : Dict.Distinct item
  declared : ∀ k ∈ Dict.keys item, k ∈ s.fields.map Field.attributeName
  field : ∀ f ∈ s.fields, stored f = .ok (item.get? f.attributeName)

/-- What is stored for the fields settles the item, up to order. -/
theorem Schema.Stores.perm {s : Schema} {stored stored' : Field → Except Error (Option Wire)}
    {a b : Item} (ha : s.Stores stored a) (hb : s.Stores stored' b)
    (h : ∀ f ∈ s.fields, stored f = stored' f) : a.Perm b := by
  refine Dict.perm_of_get? ha.distinct hb.distinct fun k => ?_
  by_cases hk : k ∈ s.fields.map Field.attributeName
  · obtain ⟨f, hf, rfl⟩ := List.mem_map.mp hk
    have hboth := (ha.field f hf).symm.trans ((h f hf).trans (hb.field f hf))
    exact Except.ok.inj hboth
  · rw [Dict.get?_eq_none_iff.mpr fun hmem => hk (ha.declared k hmem),
      Dict.get?_eq_none_iff.mpr fun hmem => hk (hb.declared k hmem)]

/-! ### Serialized fields -/

/-- What is stored for a field of serialized data. -/
def Field.stored (fields : Item) (f : Field) : Except Error (Option Wire) :=
  match fields.get? f.name with
  | some w => f.encoding.encode w
  | none => .ok none

namespace Schema

variable {s : Schema} {fields item : Item}

/-- The attribute of a serialized field. -/
def storedEntry (s : Schema) (e : String × Wire) : Except Error (String × Option Wire) := do
  let f ← s.field e.1
  let stored ← f.encoding.encode e.2
  return (f.attributeName, stored)

/-- The attribute of a field that is declared. -/
def attributeOf (s : Schema) (name : String) : String :=
  ((s.field? name).map Field.attributeName).getD ""

theorem attributeOf_name (h : Field.Apart s.fields) {f : Field} (hf : f ∈ s.fields) :
    s.attributeOf f.name = f.attributeName := by
  rw [attributeOf, field?, (Field.find?_eq_some h.names).mpr ⟨hf, rfl⟩]
  rfl

/-- Storing serialized fields is storing each of them. -/
theorem storeFields_eq_collect (fields : Item) :
    s.storeFields fields = Item.collect s.storedEntry fields := by
  induction fields with
  | nil => rfl
  | cons e fields ih =>
    rw [storeFields, Item.collect_cons, ih, storedEntry, bind_assoc]
    refine bind_congr fun f => ?_
    rw [bind_assoc]
    exact bind_congr fun _ => rfl

theorem storedEntry_eq_ok (h : Field.Apart s.fields) {e : String × Wire}
    {r : String × Option Wire} :
    s.storedEntry e = .ok r ↔
      ∃ f ∈ s.fields, f.name = e.1 ∧ f.attributeName = r.1 ∧ f.encoding.encode e.2 = .ok r.2 := by
  constructor
  · intro he
    obtain ⟨f, hf, he⟩ := bind_eq_ok.mp he
    obtain ⟨stored, hstored, he⟩ := bind_eq_ok.mp he
    obtain rfl := pure_eq_ok.mp he
    obtain ⟨hmem, hname⟩ := (field_eq_ok h).mp hf
    exact ⟨f, hmem, hname, rfl, hstored⟩
  · rintro ⟨f, hmem, hname, hattribute, hstored⟩
    refine bind_eq_ok.mpr ⟨f, (field_eq_ok h).mpr ⟨hmem, hname⟩, ?_⟩
    exact bind_eq_ok.mpr ⟨_, hstored, by rw [hattribute]; rfl⟩

/-- What is stored for a field is stored for its entry. -/
theorem stored_of_get? (h : Field.Apart s.fields) {f : Field} (hf : f ∈ s.fields) {w : Wire}
    (hget : fields.get? f.name = some w) {o : Option Wire} :
    f.stored fields = .ok o ↔ s.storedEntry (f.name, w) = .ok (f.attributeName, o) := by
  rw [Field.stored, hget, storedEntry_eq_ok h]
  constructor
  · intro hencode
    exact ⟨f, hf, rfl, rfl, hencode⟩
  · rintro ⟨g, hg, hname, -, hencode⟩
    obtain rfl := List.inj_on_of_nodup_map h.names hg hf hname
    exact hencode

/-- **Which serialized fields can be stored.** -/
theorem exists_storeFields_iff (h : Field.Apart s.fields) (hfields : Dict.Distinct fields) :
    (∃ item, s.storeFields fields = .ok item) ↔
      (∀ k ∈ Dict.keys fields, k ∈ s.fields.map Field.name) ∧
        ∀ f ∈ s.fields, ∃ o, f.stored fields = .ok o := by
  rw [storeFields_eq_collect, Item.exists_collect_iff]
  constructor
  · intro hentries
    constructor
    · intro k hk
      obtain ⟨e, he, rfl⟩ := List.mem_map.mp hk
      obtain ⟨r, hr⟩ := hentries e he
      obtain ⟨f, hf, hname, -⟩ := (storedEntry_eq_ok h).mp hr
      exact List.mem_map.mpr ⟨f, hf, hname⟩
    · intro f hf
      cases hget : fields.get? f.name with
      | none => exact ⟨none, by rw [Field.stored, hget]⟩
      | some w =>
        obtain ⟨r, hr⟩ := hentries _ (Dict.mem_of_get? hget)
        obtain ⟨g, hg, hname, hattribute, -⟩ := (storedEntry_eq_ok h).mp hr
        obtain rfl := List.inj_on_of_nodup_map h.names hg hf hname
        refine ⟨r.2, (stored_of_get? h hf hget).mpr ?_⟩
        rw [hr, hattribute]
  · rintro ⟨hdeclared, hstored⟩ e he
    obtain ⟨f, hf, hname⟩ := List.mem_map.mp (hdeclared e.1 (List.mem_map_of_mem he))
    obtain ⟨o, ho⟩ := hstored f hf
    have hget : fields.get? f.name = some e.2 := by
      rw [hname]
      exact Dict.get?_of_mem hfields he
    refine ⟨(f.attributeName, o), ?_⟩
    rw [← (stored_of_get? h hf hget).mp ho, hname]

/-- **What the item of serialized fields has.** -/
theorem stores_storeFields (h : Field.Apart s.fields) (hfields : Dict.Distinct fields)
    (hitem : s.storeFields fields = .ok item) : s.Stores (Field.stored fields) item := by
  obtain ⟨hdeclared, hstored⟩ := (exists_storeFields_iff h hfields).mp ⟨item, hitem⟩
  rw [storeFields_eq_collect] at hitem
  have hkey : ∀ e r, s.storedEntry e = .ok r → r.1 = s.attributeOf e.1 := by
    intro e r hr
    obtain ⟨f, hf, hname, heq, -⟩ := (storedEntry_eq_ok h).mp hr
    rw [← heq, ← attributeOf_name h hf, hname]
  -- Every entry names a field.
  have hfield : ∀ e ∈ fields, ∃ f ∈ s.fields, f.name = e.1 ∧ s.attributeOf e.1 = f.attributeName := by
    intro e he
    obtain ⟨f, hf, hname⟩ := List.mem_map.mp (hdeclared e.1 (List.mem_map_of_mem he))
    exact ⟨f, hf, hname, by rw [← hname, attributeOf_name h hf]⟩
  have hnodup : (fields.map fun e => s.attributeOf e.1).Nodup := by
    refine List.Nodup.map_on ?_ hfields.of_map
    intro e he e' he' heq
    obtain ⟨f, hf, hname, hattribute⟩ := hfield e he
    obtain ⟨g, hg, hname', hattribute'⟩ := hfield e' he'
    rw [hattribute, hattribute'] at heq
    obtain rfl := List.inj_on_of_nodup_map h.attributes hf hg heq
    exact List.inj_on_of_nodup_map hfields he he' (hname.symm.trans hname')
  have hkeys := Item.keys_collect_sublist hkey hitem
  refine ⟨hnodup.sublist hkeys, ?_, ?_⟩
  · intro k hk
    obtain ⟨e, he, rfl⟩ := List.mem_map.mp (hkeys.subset hk)
    obtain ⟨f, hf, -, hattribute⟩ := hfield e he
    exact List.mem_map.mpr ⟨f, hf, hattribute.symm⟩
  · intro f hf
    cases hget : fields.get? f.name with
    | some w =>
      rw [stored_of_get? h hf hget, ← attributeOf_name h hf]
      exact Item.get?_collect hkey hitem hnodup (Dict.mem_of_get? hget)
    | none =>
      rw [Field.stored, hget, Dict.get?_eq_none_iff.mpr]
      intro hk
      obtain ⟨e, he, heq⟩ := List.mem_map.mp (hkeys.subset hk)
      obtain ⟨g, hg, hname, hattribute⟩ := hfield e he
      obtain rfl := List.inj_on_of_nodup_map h.attributes hg hf (hattribute.symm.trans heq)
      exact Dict.get?_eq_none_iff.mp hget (hname ▸ List.mem_map_of_mem he)

/-! ### Items that are read -/

theorem mem_readFields {k : String} {w : Wire} :
    (k, w) ∈ s.readFields item ↔
      ∃ a v f, (a, v) ∈ item ∧ s.storedField? a = some f ∧ f.name = k ∧ f.encoding.decode v = w := by
  simp only [readFields, List.mem_filterMap, Option.map_eq_some_iff, Prod.mk.injEq]
  constructor
  · rintro ⟨⟨a, v⟩, hmem, f, hf, hname, hdecode⟩
    exact ⟨a, v, f, hmem, hf, hname, hdecode⟩
  · rintro ⟨a, v, f, hmem, hf, hname, hdecode⟩
    exact ⟨(a, v), hmem, f, hf, hname, hdecode⟩

theorem distinct_readFields (h : Field.Apart s.fields) (hitem : Dict.Distinct item) :
    Dict.Distinct (s.readFields item) := by
  induction item with
  | nil => exact List.nodup_nil
  | cons e item ih =>
    obtain ⟨hnew, hdistinct⟩ := List.nodup_cons.mp hitem
    cases hfound : s.storedField? e.1 with
    | none =>
      have hskip : s.readFields (e :: item) = s.readFields item := by
        simp [readFields, hfound]
      rw [hskip]
      exact ih hdistinct
    | some f =>
      have hread : s.readFields (e :: item) =
          (f.name, f.encoding.decode e.2) :: s.readFields item := by
        simp [readFields, hfound]
      rw [hread]
      refine List.nodup_cons.mpr ⟨fun hk => hnew ?_, ih hdistinct⟩
      obtain ⟨⟨k, w⟩, hmem, hname⟩ := List.mem_map.mp hk
      obtain ⟨a, v, g, hentry, hg, hname', -⟩ := mem_readFields.mp hmem
      obtain ⟨hfmem, hattribute⟩ := (storedField?_eq_some h).mp hfound
      obtain ⟨hgmem, hattribute'⟩ := (storedField?_eq_some h).mp hg
      obtain rfl := List.inj_on_of_nodup_map h.names hgmem hfmem (hname'.trans hname)
      rw [← hattribute, hattribute']
      exact List.mem_map_of_mem hentry

/-- A field is read from its attribute. -/
theorem get?_readFields (h : Field.Apart s.fields) (hitem : Dict.Distinct item) {f : Field}
    (hf : f ∈ s.fields) :
    (s.readFields item).get? f.name = (item.get? f.attributeName).map f.encoding.decode := by
  ext w
  rw [Dict.get?_eq_some_iff (distinct_readFields h hitem), mem_readFields, Option.map_eq_some_iff]
  constructor
  · rintro ⟨a, v, g, hmem, hg, hname, hdecode⟩
    obtain ⟨hgmem, hattribute⟩ := (storedField?_eq_some h).mp hg
    obtain rfl := List.inj_on_of_nodup_map h.names hgmem hf hname
    rw [hattribute]
    exact ⟨v, Dict.get?_of_mem hitem hmem, hdecode⟩
  · rintro ⟨v, hv, hdecode⟩
    exact ⟨_, v, f, Dict.mem_of_get? hv, (storedField?_eq_some h).mpr ⟨hf, rfl⟩, rfl, hdecode⟩

/-- Nothing is read but declared fields. -/
theorem mem_keys_readFields (h : Field.Apart s.fields) {k : String}
    (hk : k ∈ Dict.keys (s.readFields item)) : ∃ f ∈ s.fields, f.name = k := by
  obtain ⟨⟨_, w⟩, hmem, rfl⟩ := List.mem_map.mp hk
  obtain ⟨a, v, f, -, hf, hname, -⟩ := mem_readFields.mp hmem
  exact ⟨f, ((storedField?_eq_some h).mp hf).1, hname⟩

end Schema

/-! ### The values of a record -/

namespace Record

variable {s : Schema} {values : Dict String (Slot Value)} {item : Item}

/-- What is stored for a field of a record. -/
def stored (values : Dict String (Slot Value)) (f : Field) : Except Error (Option Wire) :=
  storedValue f ((values.get? f.name).getD .unset)

/-- The attribute of a field of a record. -/
def storedEntry (values : Dict String (Slot Value)) (f : Field) :
    Except Error (String × Option Wire) := do
  return (f.attributeName, ← stored values f)

/-- Storing the values of fields is storing each of them. -/
theorem storeValues_eq_collect (fields : List Field) :
    storeValues values fields = Item.collect (storedEntry values) fields := by
  induction fields with
  | nil => rfl
  | cons f fields ih =>
    rw [storeValues, Item.collect_cons, ih, storedEntry, bind_assoc]
    exact bind_congr fun _ => rfl

theorem storedEntry_eq_ok {f : Field} {r : String × Option Wire} :
    storedEntry values f = .ok r ↔ f.attributeName = r.1 ∧ stored values f = .ok r.2 := by
  obtain ⟨name, o⟩ := r
  rw [storedEntry, bind_eq_ok]
  simp [pure_eq_ok, and_comm]

/-- **Which records can be stored.** -/
theorem exists_storeValues_iff {fields : List Field} :
    (∃ item, storeValues values fields = .ok item) ↔
      ∀ f ∈ fields, ∃ o, stored values f = .ok o := by
  rw [storeValues_eq_collect, Item.exists_collect_iff]
  simp [storedEntry_eq_ok]

/-- **What the item of a record has.** -/
theorem stores_storeValues (h : Field.Apart s.fields)
    (hitem : storeValues values s.fields = .ok item) : s.Stores (stored values) item := by
  rw [storeValues_eq_collect] at hitem
  have hkey : ∀ f r, storedEntry values f = .ok r → r.1 = f.attributeName :=
    fun f r hr => (storedEntry_eq_ok.mp hr).1.symm
  have hkeys := Item.keys_collect_sublist hkey hitem
  refine ⟨h.attributes.sublist hkeys, fun k hk => hkeys.subset hk, ?_⟩
  intro f hf
  exact (storedEntry_eq_ok.mp (Item.get?_collect hkey hitem h.attributes hf)).2

end Record

end ItemStore
