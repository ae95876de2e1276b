import ItemStore.Proofs.Agreement

/-!
# Records through their history

A record begins without values, with the values of some fields or with those of an item, and
then fields of it are set or made not set.  It has an entry for each declared field at all
times, in the order of the declarations, and no other entry.  A change to a declared field
writes the entry of that field alone, and a change to anything else fails and leaves the record
as it is, even if it is the name under which some field is stored.

So whatever has happened to a record, a field holds what the last change to it has written, or
what the record began with.

## Main definitions

* `Record.Beginning`, `Record.Beginning.record` — how a record begins.
* `Record.Change`, `Record.Change.step` — a change, and whether it succeeds.
* `Record.run` — the record after some changes.
* `Record.lastChange?` — the last change to a field.
* `Record.Change.Writes` — what a change leaves as it was.

## Main results

* `Record.readValues_eq_ok` — reading an item, field by field.
* `Record.Change.step_spec` — one change.
* `Record.Beginning.exists_initial` — the record that is begun with.
* `Record.get?_run` — what a field holds after a run.
* `Record.holds_history` — all of this, for a record with any history.
-/

namespace ItemStore

namespace Record

variable {s : Schema} {r r' : Record} {item : Item}

/-! ### Changes -/

/-- A change to a field of a record. -/
inductive Change
  | set (field : String) (value : Value)
  | unset (field : String)

namespace Change

/-- The field that is changed. -/
def field : Change → String
  | .set field _ => field
  | .unset field => field

/-- What the field is to hold. -/
def slot : Change → Slot Value
  | .set _ value => .set value
  | .unset _ => .unset

/-- The record with the change. -/
def apply (r : Record) : Change → Except Error Record
  | .set field value => r.set field value
  | .unset field => r.unset field

/-- Whether the change succeeds, and the record after it. -/
def step (r : Record) (c : Change) : Except Error Unit × Record :=
  match c.apply r with
  | .ok r' => (.ok (), r')
  | .error e => (.error e, r)

/-- The change is written to its field, and nothing else is changed. -/
structure Writes (c : Change) (r r' : Record) : Prop where
  schema : r'.schema = r.schema
  keys : Dict.keys r'.values = Dict.keys r.values
  written : r'.get? c.field = some c.slot
  others : ∀ k, k ≠ c.field → r'.get? k = r.get? k

theorem apply_eq_write (r : Record) (c : Change) : c.apply r = r.write c.field c.slot := by
  cases c <;> rfl

end Change

/-- **One change**: it is written if the record has its field, and otherwise fails and changes
nothing. -/
theorem Change.step_spec (r : Record) (c : Change) :
    (c.field ∈ Dict.keys r.values → ∃ r', c.step r = (.ok (), r') ∧ c.Writes r r') ∧
      (c.field ∉ Dict.keys r.values →
        c.step r = (.error (.undeclaredField c.field r.schema.table), r)) := by
  constructor
  · intro hmem
    have happly : c.apply r = .ok { r with values := r.values.insert c.field c.slot } := by
      rw [apply_eq_write, write_eq, if_pos hmem]
    refine ⟨{ r with values := r.values.insert c.field c.slot }, by rw [step, happly], ?_⟩
    refine ⟨rfl, Dict.keys_insert_of_mem hmem _, ?_, fun k hk => ?_⟩
    · rw [get?, Dict.get?_insert, if_pos rfl]
    · rw [get?, Dict.get?_insert, if_neg (Ne.symm hk), get?]
  · intro hmem
    rw [step, apply_eq_write, write_eq, if_neg hmem]

/-! ### Runs -/

/-- The record after some changes; those that fail leave it as it is. -/
def run (r : Record) (changes : List Change) : Record := changes.foldl (fun r c => (c.step r).2) r

theorem run_cons (r : Record) (c : Change) (changes : List Change) :
    r.run (c :: changes) = (c.step r).2.run changes := rfl

theorem run_append (r : Record) (changes changes' : List Change) :
    r.run (changes ++ changes') = (r.run changes).run changes' := List.foldl_append

/-- The last change to a field. -/
def lastChange? (changes : List Change) (field : String) : Option Change :=
  changes.reverse.find? fun c => c.field = field

theorem lastChange?_cons (c : Change) (changes : List Change) (field : String) :
    lastChange? (c :: changes) field =
      (lastChange? changes field).or (if c.field = field then some c else none) := by
  rw [lastChange?, List.reverse_cons, List.find?_append, ← lastChange?]
  by_cases hfield : c.field = field <;> simp [hfield]

/-- A run keeps the schema and the keys of a record. -/
theorem schema_keys_run (r : Record) (changes : List Change) :
    (r.run changes).schema = r.schema ∧
      Dict.keys (r.run changes).values = Dict.keys r.values := by
  induction changes generalizing r with
  | nil => exact ⟨rfl, rfl⟩
  | cons c changes ih =>
    obtain ⟨hschema, hkeys⟩ := ih (c.step r).2
    rw [run_cons, hschema, hkeys]
    by_cases hmem : c.field ∈ Dict.keys r.values
    · obtain ⟨r', hstep, hwrites⟩ := (c.step_spec r).1 hmem
      rw [hstep]
      exact ⟨hwrites.schema, hwrites.keys⟩
    · rw [(c.step_spec r).2 hmem]
      exact ⟨rfl, rfl⟩

/-- **What a field holds after a run**: what the last change to it has written, or what it has
held before. -/
theorem get?_run {k : String} {slot : Slot Value} (hget : r.get? k = some slot)
    (changes : List Change) :
    (r.run changes).get? k = some (((lastChange? changes k).map Change.slot).getD slot) := by
  induction changes generalizing r slot with
  | nil => exact hget
  | cons c changes ih =>
    rw [run_cons, lastChange?_cons]
    by_cases hfield : c.field = k
    · subst hfield
      have hmem : c.field ∈ Dict.keys r.values := by
        by_contra hnot
        rw [get?, Dict.get?_eq_none_iff.mpr hnot] at hget
        cases hget
      obtain ⟨r', hstep, hwrites⟩ := (c.step_spec r).1 hmem
      rw [hstep, if_pos rfl, ih hwrites.written]
      cases lastChange? changes c.field <;> rfl
    · have hkeep : (c.step r).2.get? k = some slot := by
        by_cases hmem : c.field ∈ Dict.keys r.values
        · obtain ⟨r', hstep, hwrites⟩ := (c.step_spec r).1 hmem
          rw [hstep]
          exact (hwrites.others k (Ne.symm hfield)).trans hget
        · rw [(c.step_spec r).2 hmem]
          exact hget
      rw [if_neg hfield, Option.or_none, ih hkeep]

/-! ### Reading an item -/

/-- What an item has for a field. -/
def readSlot (item : Item) (f : Field) : Except Error (Slot Value) :=
  match item.get? f.attributeName with
  | some w => (Value.decode w).map .set
  | none => .ok .unset

theorem readValues_cons (item : Item) (f : Field) (fields : List Field) :
    readValues item (f :: fields) = do
      let slot ← readSlot item f
      return (f.name, slot) :: (← readValues item fields) := by
  rw [readValues, readSlot]
  cases item.get? f.attributeName <;> rfl

/-- The fields are read from their own attributes only. -/
theorem readValues_congr {item' : Item} {fields : List Field}
    (h : ∀ f ∈ fields, item.get? f.attributeName = item'.get? f.attributeName) :
    readValues item fields = readValues item' fields := by
  induction fields with
  | nil => rfl
  | cons f fields ih =>
    obtain ⟨hhead, htail⟩ := List.forall_mem_cons.mp h
    rw [readValues_cons, readValues_cons, readSlot, readSlot, hhead, ih htail]

/-- **Reading an item** is reading what it has for each field. -/
theorem readValues_eq_ok {fields : List Field} {values : Dict String (Slot Value)} :
    readValues item fields = .ok values ↔
      List.Forall₂ (fun f e => e.1 = f.name ∧ readSlot item f = .ok e.2) fields values := by
  induction fields generalizing values with
  | nil =>
    constructor
    · intro h
      cases h
      exact .nil
    · intro h
      cases h
      rfl
  | cons f fields ih =>
    constructor
    · intro h
      rw [readValues_cons] at h
      obtain ⟨slot, hslot, htail⟩ := bind_eq_ok.mp h
      obtain ⟨rest, hrest, hvalues⟩ := bind_eq_ok.mp htail
      obtain rfl := pure_eq_ok.mp hvalues
      exact .cons ⟨rfl, hslot⟩ (ih.mp hrest)
    · intro h
      cases h with
      | @cons _ e _ rest he hrest =>
        obtain ⟨name, slot⟩ := e
        obtain ⟨rfl, hslot⟩ := he
        rw [readValues_cons]
        exact bind_eq_ok.mpr ⟨slot, hslot, bind_eq_ok.mpr ⟨rest, ih.mpr hrest, rfl⟩⟩

/-- The entries that are read are those of the fields, in their order. -/
theorem keys_readValues {fields : List Field} {values : Dict String (Slot Value)}
    (h : readValues item fields = .ok values) : Dict.keys values = fields.map Field.name := by
  rw [readValues_eq_ok] at h
  induction h with
  | nil => rfl
  | cons he _ ih => rw [Dict.keys_cons, List.map_cons, ih, he.1]

/-- What is read for a field is found under its name. -/
theorem get?_readValues {fields : List Field} {values : Dict String (Slot Value)}
    (hnodup : (fields.map Field.name).Nodup) (h : readValues item fields = .ok values) {f : Field}
    (hf : f ∈ fields) : ∃ slot, readSlot item f = .ok slot ∧ values.get? f.name = some slot := by
  have hdistinct : Dict.Distinct values := by
    rw [Dict.Distinct, keys_readValues h]
    exact hnodup
  rw [readValues_eq_ok, List.forall₂_iff_get] at h
  obtain ⟨hlength, hall⟩ := h
  obtain ⟨i, hi, rfl⟩ := List.mem_iff_getElem.mp hf
  obtain ⟨hname, hslot⟩ := hall i hi (hlength ▸ hi)
  refine ⟨_, hslot, Dict.get?_of_mem hdistinct ?_⟩
  have hmem := List.get_mem values ⟨i, hlength ▸ hi⟩
  rwa [show values.get ⟨i, hlength ▸ hi⟩ = (fields[i].name, (values.get ⟨i, hlength ▸ hi⟩).2) from
    Prod.ext hname rfl] at hmem

/-! ### Beginnings -/

/-- How a record begins: without values, with those of some fields, or with those of an item. -/
inductive Beginning
  | empty
  | fields (values : List (String × Value))
  | item (item : Item)

namespace Beginning

/-- The record that is begun with. -/
def record (s : Schema) : Beginning → Except Error Record
  | .empty => .ok (Record.empty s)
  | .fields values => Record.ofFields s values
  | .item item => Record.ofItem s item

/-- What a field holds before any value is given to it. -/
def slot (f : Field) : Beginning → Except Error (Slot Value)
  | .item item => readSlot item f
  | _ => .ok .unset

/-- The values that are given to fields at the beginning, as changes. -/
def changes : Beginning → List Change
  | .fields values => values.map fun e => .set e.1 e.2
  | _ => []

end Beginning

/-- Setting fields one after the other is a run. -/
theorem run_of_setAll {values : List (String × Value)} (h : r.setAll values = .ok r') :
    r' = r.run (values.map fun e => .set e.1 e.2) := by
  induction values generalizing r with
  | nil =>
    cases h
    rfl
  | cons e values ih =>
    rw [setAll] at h
    obtain ⟨q, hq, hrest⟩ := bind_eq_ok.mp h
    have hstep : ((Change.set e.1 e.2).step r).2 = q := by
      rw [Change.step, Change.apply, hq]
    rw [ih hrest, List.map_cons, run_cons, hstep]

/-- **The record that is begun with** has an entry for each field, and comes about from there
by changes. -/
theorem Beginning.exists_initial (h : Field.Apart s.fields) {b : Beginning}
    (hb : b.record s = .ok r) :
    ∃ q : Record, r = q.run b.changes ∧ q.schema = s ∧ Dict.keys q.values = s.fields.map Field.name ∧
      ∀ f ∈ s.fields, ∃ slot, b.slot f = .ok slot ∧ q.get? f.name = some slot := by
  have hempty : ∀ f ∈ s.fields, (Record.empty s).get? f.name = some .unset := by
    intro f hf
    refine Dict.get?_of_mem ?_ (List.mem_map.mpr ⟨f, hf, rfl⟩)
    rw [keys_empty]
    exact h.names
  cases b with
  | empty =>
    cases hb
    exact ⟨.empty s, rfl, rfl, keys_empty s, fun f hf => ⟨.unset, rfl, hempty f hf⟩⟩
  | fields values =>
    exact ⟨.empty s, run_of_setAll hb, rfl, keys_empty s,
      fun f hf => ⟨.unset, rfl, hempty f hf⟩⟩
  | item item =>
    obtain ⟨values, hvalues, hr⟩ := bind_eq_ok.mp hb
    obtain rfl := pure_eq_ok.mp hr
    exact ⟨⟨s, values⟩, rfl, rfl, keys_readValues hvalues,
      fun f hf => get?_readValues h.names hvalues hf⟩

/-! ### Records with a history -/

/-- **A record with any history** holds an entry for each declared field, in the order of the
declarations, and no other.  A change to a declared field succeeds and writes this field alone;
any other change fails and leaves the record as it is.  And each field holds what the last
change to it has written, or else what it began with. -/
theorem holds_history {draft : SchemaDraft} (hs : draft.build = .ok s) {b : Beginning}
    (hb : b.record s = .ok r) (changes : List Change) :
    (r.run changes).schema = s ∧
      Dict.keys (r.run changes).values = draft.declarations.map Declaration.field ∧
      (draft.declarations.map Declaration.field).Nodup ∧
      (∀ c : Change,
        (c.field ∈ draft.declarations.map Declaration.field →
          ∃ r', c.step (r.run changes) = (.ok (), r') ∧ c.Writes (r.run changes) r') ∧
        (c.field ∉ draft.declarations.map Declaration.field →
          c.step (r.run changes) = (.error (.undeclaredField c.field s.table), r.run changes))) ∧
      ∀ f ∈ s.fields, ∃ slot, b.slot f = .ok slot ∧
        (r.run changes).get? f.name =
          some (((lastChange? (b.changes ++ changes) f.name).map Change.slot).getD slot) := by
  have hapart := SchemaDraft.apart_of_build hs
  obtain ⟨q, rfl, hschema, hkeys, hslots⟩ := Beginning.exists_initial hapart hb
  rw [← run_append]
  obtain ⟨hschema', hkeys'⟩ := schema_keys_run q (b.changes ++ changes)
  rw [hschema] at hschema'
  rw [hkeys, SchemaDraft.map_name_of_build hs] at hkeys'
  refine ⟨hschema', hkeys', SchemaDraft.map_name_of_build hs ▸ hapart.names, fun c => ?_, ?_⟩
  · have hstep := c.step_spec (q.run (b.changes ++ changes))
    rwa [hkeys', hschema'] at hstep
  · intro f hf
    obtain ⟨slot, hslot, hget⟩ := hslots f hf
    exact ⟨slot, hslot, get?_run hget _⟩

/-- Two fields are stored under each other's names and a third under a name of its own.  The
third is set at the beginning; setting what it is stored under fails. -/
theorem holds_history_swapped :
    let s : Schema := ⟨"table", none,
      [⟨"id", "id", ⟨none, some "id", []⟩, true, .native⟩,
        ⟨"b", "a", ⟨some "b", some "a", []⟩, false, .native⟩,
        ⟨"a", "b", ⟨some "a", some "b", []⟩, false, .native⟩,
        ⟨"X", "x", ⟨some "X", some "x", []⟩, false, .native⟩]⟩
    let values : List (String × Value) := [("x", .null), ("b", .null), ("x", .string "y")]
    let changes : List Change := [.set "a" (.bool true), .set "X" .null, .unset "b"]
    ∃ r, ofFields s values = .ok r ∧ Dict.keys (r.run changes).values = ["id", "a", "b", "x"] ∧
      (r.run changes).get? "id" = some .unset ∧
      (r.run changes).get? "a" = some (.set (.bool true)) ∧
      (r.run changes).get? "b" = some .unset ∧
      (r.run changes).get? "x" = some (.set (.string "y")) ∧
      (Change.set "X" .null).step (r.run changes) =
        (.error (.undeclaredField "X" "table"), r.run changes) := by
  intro s values changes
  let draft : SchemaDraft := ((((SchemaDraft.new "table").declareKey "id" .unnamed).declarePlain "a"
    (.named "b")).declarePlain "b" (.named "a")).declarePlain "x" (.named "X")
  have hs : draft.build = .ok s := rfl
  obtain ⟨r, hr⟩ : ∃ r, (Beginning.fields values).record s = .ok r := ⟨_, rfl⟩
  obtain ⟨-, hkeys, -, hchanges, hslots⟩ := holds_history hs hr changes
  -- The changes of the history are looked up from the last one back.
  have hslot : ∀ f ∈ s.fields, (r.run changes).get? f.name = some
      (((lastChange? ((Beginning.fields values).changes ++ changes) f.name).map Change.slot).getD
        .unset) := by
    intro f hf
    obtain ⟨slot, hslot, hget⟩ := hslots f hf
    cases hslot
    exact hget
  refine ⟨r, hr, hkeys, hslot _ (.head _), hslot _ (.tail _ (.head _)),
    hslot _ (.tail _ (.tail _ (.head _))), hslot _ (.tail _ (.tail _ (.tail _ (.head _)))), ?_⟩
  exact (hchanges (.set "X" .null)).2 (by decide)

end Record

end ItemStore
