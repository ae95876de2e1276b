import ItemStore.Schema.Record
import ItemStore.Proofs.Declared
import ItemStore.Proofs.Stored

/-!
# Records that are read and written back

A record of a schema that stores every sequence as it is holds the values of the declared
attributes, and its item is made of their encodings.  So what reading and writing back does to
an item is what decoding and encoding do to the attributes that the schema declares.

## Main definitions

* `Item.SameBy`, `Item.numbers` — equality of items as stored data, and the numbers in an item.
* `Schema.declared` — the attributes of an item that a schema declares.
* `Item.inOrder` — the same attributes, in the order of declaration.

## Main results

* `Record.readValues_inOrder` — reading is decoding, and storing is encoding.
* `Item.inOrder_perm` — the order of declaration changes nothing.
* `Record.toItem_ofItem` — reading a record and writing it back.
-/

namespace ItemStore

namespace Wire

theorem storableEntries_iff {entries : List (String × Wire)} :
    StorableEntries entries ↔ ∀ e ∈ entries, e.2.Storable := by
  induction entries with
  | nil => simp [StorableEntries]
  | cons e entries ih => simp [StorableEntries, ih]

theorem mem_numbersOfEntries {entries : List (String × Wire)} {text : String} :
    text ∈ numbersOfEntries entries ↔ ∃ e ∈ entries, text ∈ e.2.numbers := by
  induction entries with
  | nil => simp [numbersOfEntries]
  | cons e entries ih => simp [numbersOfEntries, ih]

mutual

/-- The numbers of a stored value are numbers that the store holds. -/
theorem storable_of_mem_numbers : ∀ {w : Wire}, w.Storable →
    ∀ t ∈ w.numbers, Number.Storable t
  | .number text, h => by
    intro t ht
    rw [numbers, List.mem_singleton] at ht
    rwa [ht]
  | .numberSet texts, h => h.2.1
  | .list items, h => storable_of_mem_items h
  | .map entries, h => storable_of_mem_entries h.2
  | .string _, _ => by simp [numbers]
  | .bytes _, _ => by simp [numbers]
  | .bool _, _ => by simp [numbers]
  | .null _, _ => by simp [numbers]
  | .stringSet _, _ => by simp [numbers]
  | .binarySet _, _ => by simp [numbers]
  | .unknown, h => h.elim

theorem storable_of_mem_items : ∀ {items : List Wire}, StorableItems items →
    ∀ t ∈ numbersOfItems items, Number.Storable t
  | [], _ => by simp [numbersOfItems]
  | w :: items, h => by
    rw [numbersOfItems, List.forall_mem_append]
    exact ⟨storable_of_mem_numbers h.1, storable_of_mem_items h.2⟩

theorem storable_of_mem_entries : ∀ {entries : List (String × Wire)}, StorableEntries entries →
    ∀ t ∈ numbersOfEntries entries, Number.Storable t
  | [], _ => by simp [numbersOfEntries]
  | (_, w) :: entries, h => by
    rw [numbersOfEntries, List.forall_mem_append]
    exact ⟨storable_of_mem_numbers h.1, storable_of_mem_entries h.2⟩

end

end Wire

/-! ### Declared attributes -/

namespace Item

/-- The texts of the numbers in an item, at any depth. -/
def numbers (item : Item) : List String := Wire.numbersOfEntries item

/-- Equality of items as stored data, attributes in any order. -/
def SameBy (same : List String → List String → Prop) (a b : Item) : Prop :=
  Wire.SameBy same (.map a) (.map b)

/-- The attributes of an item under some names. -/
def restrict (item : Item) (names : List String) : Item := item.filter fun e => e.1 ∈ names

/-- The attributes of some fields, in the order of the fields. -/
def inOrder (item : Item) : List Field → Item
  | [] => []
  | f :: fields =>
    match item.get? f.attributeName with
    | some w => (f.attributeName, w) :: inOrder item fields
    | none => inOrder item fields

theorem mem_inOrder {item : Item} {fields : List Field} {k : String} {w : Wire} :
    (k, w) ∈ item.inOrder fields ↔
      k ∈ fields.map Field.attributeName ∧ item.get? k = some w := by
  induction fields with
  | nil => simp [inOrder]
  | cons f fields ih =>
    rw [inOrder, List.map_cons, List.mem_cons]
    cases hget : item.get? f.attributeName with
    | none =>
      simp only [ih]
      constructor
      · rintro ⟨hmem, hw⟩
        exact ⟨.inr hmem, hw⟩
      · rintro ⟨rfl | hmem, hw⟩
        · rw [hget] at hw
          cases hw
        · exact ⟨hmem, hw⟩
    | some w' =>
      simp only [List.mem_cons, Prod.mk.injEq, ih]
      constructor
      · rintro (⟨rfl, rfl⟩ | ⟨hmem, hw⟩)
        · exact ⟨.inl rfl, hget⟩
        · exact ⟨.inr hmem, hw⟩
      · rintro ⟨rfl | hmem, hw⟩
        · rw [hget] at hw
          exact .inl ⟨rfl, (Option.some.inj hw).symm⟩
        · exact .inr ⟨hmem, hw⟩

theorem keys_inOrder_sublist (item : Item) (fields : List Field) :
    (Dict.keys (item.inOrder fields)).Sublist (fields.map Field.attributeName) := by
  induction fields with
  | nil => exact .slnil
  | cons f fields ih =>
    rw [inOrder, List.map_cons]
    split
    · exact ih.cons_cons _
    · exact ih.cons _

theorem distinct_inOrder {item : Item} {fields : List Field} (h : Field.Apart fields) :
    Dict.Distinct (item.inOrder fields) :=
  h.attributes.sublist (keys_inOrder_sublist item fields)

theorem distinct_restrict {item : Item} (h : Dict.Distinct item) (names : List String) :
    Dict.Distinct (item.restrict names) :=
  h.sublist (List.filter_sublist.map _)

/-- The order of declaration changes nothing. -/
theorem inOrder_perm {item : Item} {fields : List Field} (hitem : Dict.Distinct item)
    (hfields : Field.Apart fields) :
    (item.inOrder fields).Perm (item.restrict (fields.map Field.attributeName)) := by
  rw [List.perm_ext_iff_of_nodup (distinct_inOrder hfields).of_map
    (distinct_restrict hitem _).of_map]
  rintro ⟨k, w⟩
  rw [mem_inOrder, restrict, List.mem_filter, decide_eq_true_iff]
  constructor
  · rintro ⟨hmem, hget⟩
    exact ⟨Dict.mem_of_get? hget, hmem⟩
  · rintro ⟨hmem, hname⟩
    exact ⟨hname, Dict.get?_of_mem hitem hmem⟩

end Item

/-- The attributes of an item that a schema declares. -/
def Schema.declared (s : Schema) (item : Item) : Item :=
  item.restrict (s.fields.map Field.attributeName)

/-! ### Reading and storing -/

theorem Encoding.encode_native (w : Wire) : Encoding.native.encode w = .ok (some w) := by
  cases w with
  | list items => rfl
  | _ => rfl

namespace Record

/-- **Reading is decoding, and storing is encoding**, attribute by attribute in the order of the
fields. -/
theorem readValues_inOrder {item : Item} {fields : List Field}
    (hnative : ∀ f ∈ fields, f.encoding = .native) :
    ∀ {vs : List (String × Value)}, Value.decodeEntries (item.inOrder fields) = .ok vs →
      ∃ values, readValues item fields = .ok values ∧
        Dict.keys values = fields.map Field.name ∧
        ∀ {all : Dict String (Slot Value)} {ws : List (String × Wire)},
          (∀ name slot, (name, slot) ∈ values → all.get? name = some slot) →
          Value.encodeEntries vs = .ok ws → storeValues all fields = .ok ws := by
  induction fields with
  | nil =>
    intro vs h
    cases h
    refine ⟨[], rfl, rfl, ?_⟩
    intro all ws _ h
    cases h
    rfl
  | cons f fields ih =>
    have hhead : f.encoding = .native := hnative f (List.mem_cons_self ..)
    have htail : ∀ f ∈ fields, f.encoding = .native :=
      fun g hg => hnative g (List.mem_cons_of_mem _ hg)
    intro vs h
    rw [Item.inOrder] at h
    cases hget : item.get? f.attributeName with
    | none =>
      rw [hget] at h
      obtain ⟨values, hread, hkeys, hstore⟩ := ih htail h
      refine ⟨(f.name, .unset) :: values, ?_, ?_, ?_⟩
      · simp only [readValues, hget, hread]
        rfl
      · rw [Dict.keys_cons, hkeys, List.map_cons]
      · intro all ws hall hencode
        have hslot : all.get? f.name = some .unset := hall _ _ (List.mem_cons_self ..)
        have hrest := hstore (fun name slot hmem => hall name slot (List.mem_cons_of_mem _ hmem))
          hencode
        rw [storeValues, hslot, hrest]
        rfl
    | some w =>
      rw [hget] at h
      obtain ⟨v, hv, hvs⟩ := bind_eq_ok.mp h
      obtain ⟨vs', hvs', heq⟩ := bind_eq_ok.mp hvs
      obtain rfl := pure_eq_ok.mp heq
      obtain ⟨values, hread, hkeys, hstore⟩ := ih htail hvs'
      refine ⟨(f.name, .set v) :: values, ?_, ?_, ?_⟩
      · simp only [readValues, hget, hv, hread]
        rfl
      · rw [Dict.keys_cons, hkeys, List.map_cons]
      · intro all ws hall hencode
        obtain ⟨w', hw', hws⟩ := bind_eq_ok.mp hencode
        obtain ⟨ws', hws', heq⟩ := bind_eq_ok.mp hws
        obtain rfl := pure_eq_ok.mp heq
        have hslot : all.get? f.name = some (.set v) := hall _ _ (List.mem_cons_self ..)
        have hrest := hstore (fun name slot hmem => hall name slot (List.mem_cons_of_mem _ hmem))
          hws'
        have hstored : storedValue f (.set v) = .ok (some w') := by
          rw [storedValue, hw', hhead]
          exact Encoding.encode_native w'
        rw [storeValues, hslot, Option.getD_some, hstored, hrest]
        rfl

/-- **Reading a record and writing it back.**  Every item whose declared attributes the store can
hold is read, and what was read is written back: the declared attributes, every number as it is
kept.  Only as which number a rounded integer comes back is left open.  The item is the same if
every number is kept, and only if every number is kept that is no rounded integer.  Numbers of
few digits are kept. -/
theorem toItem_ofItem {draft : SchemaDraft} {s : Schema} (hs : draft.build = .ok s)
    (hnative : ∀ f ∈ s.fields, f.encoding = .native) {item : Item} (hitem : Dict.Distinct item)
    (hstored : ∀ e ∈ s.declared item, e.2.Storable) :
    ∃ r item', ofItem s item = .ok r ∧ r.toItem = .ok item' ∧ Dict.Distinct item' ∧
      item'.SameBy Number.KeptAs (s.declared item) ∧
      ((∀ t ∈ (s.declared item).numbers, Number.Kept t) →
        item'.SameBy Number.Same (s.declared item)) ∧
      (item'.SameBy Number.Same (s.declared item) →
        ∀ t ∈ (s.declared item).numbers, Number.Kept t ∨ Number.RoundedInteger t) ∧
      ((∀ t ∈ (s.declared item).numbers, Number.FewDigits t) →
        item'.SameBy Number.Same (s.declared item)) := by
  have hapart := SchemaDraft.apart_of_build hs
  have hperm : (item.inOrder s.fields).Perm (s.declared item) := Item.inOrder_perm hitem hapart
  have hdistinct : Dict.Distinct (s.declared item) := Item.distinct_restrict hitem _
  generalize s.declared item = declared at *
  have hstorable : Wire.StorableEntries declared := Wire.storableEntries_iff.mpr hstored
  have hstorable' : Wire.StorableEntries (item.inOrder s.fields) := by
    rw [Wire.storableEntries_iff]
    exact fun e he => hstored e (hperm.mem_iff.mp he)
  obtain ⟨vs, ws, hdecode, hencode, hkeys, hback⟩ :=
    Wire.exists_entries_written_back hstorable'
  obtain ⟨values, hread, hnames, hstore⟩ := readValues_inOrder hnative hdecode
  have hvalues : Dict.Distinct values := by
    rw [Dict.Distinct, hnames]
    exact hapart.names
  have hitem' : (⟨s, values⟩ : Record).toItem = .ok ws :=
    hstore (fun name slot hmem => Dict.get?_of_mem hvalues hmem) hencode
  obtain ⟨hkept, hsame⟩ := hback declared fun k w hmem =>
    Dict.get?_of_mem hdistinct (hperm.mem_iff.mp hmem)
  have hlength : ws.length = declared.length :=
    (Dict.length_eq_of_keys_eq hkeys).trans hperm.length_eq
  have hnumbers : ∀ t, t ∈ Wire.numbersOfEntries (item.inOrder s.fields) ↔
      t ∈ Wire.numbersOfEntries declared := by
    intro t
    simp only [Wire.mem_numbersOfEntries, hperm.mem_iff]
  have hsame' : Item.SameBy Number.Same ws declared ↔ ∀ t ∈ declared.numbers, Number.Kept t := by
    rw [Item.SameBy, Wire.SameBy, hsame]
    simp only [hlength, true_and, hnumbers]
    rfl
  refine ⟨⟨s, values⟩, ws, ?_, hitem', ?_, ⟨hlength, hkept⟩, hsame'.mpr, ?_, ?_⟩
  · rw [ofItem, hread]
    rfl
  · rw [Dict.Distinct, hkeys]
    exact Item.distinct_inOrder hapart
  · intro heq t ht
    exact .inl (hsame'.mp heq t ht)
  · intro hfew
    rw [hsame']
    exact fun t ht => Number.kept_of_fewDigits (Wire.storable_of_mem_entries hstorable t ht)
      (hfew t ht)

/-- A key, and an attribute that is not stored under the name of its field. -/
def sampleDraft : SchemaDraft :=
  ((SchemaDraft.new "t").declareKey "id" .unnamed).declarePlain "x" (.named "X")

/-- The schema of these declarations. -/
def sampleSchema : Schema :=
  ⟨"t", none, [⟨"id", "id", ⟨none, some "id", []⟩, true, .native⟩,
    ⟨"X", "x", ⟨some "X", some "x", []⟩, false, .native⟩]⟩

theorem build_sampleDraft : sampleDraft.build = .ok sampleSchema := rfl

/-- A list of the number 0.10 and of a set of two numbers comes back, without the attribute that
is not declared. -/
theorem toItem_ofItem_list :
    ∃ r item', ofItem sampleSchema [("extra", .bool true), ("id", .string "a"),
          ("X", .list [.number "0.10", .numberSet ["7", "2.50"]])] = .ok r ∧
      r.toItem = .ok item' ∧
      item'.SameBy Number.KeptAs
        [("id", .string "a"), ("X", .list [.number "0.10", .numberSet ["7", "2.50"]])] ∧
      item'.SameBy Number.Same
        [("id", .string "a"), ("X", .list [.number "0.10", .numberSet ["7", "2.50"]])] := by
  have htenth : textValue? "0.10" = some (10 * 10 ^ (-2 : Int)) :=
    textValue?_eq_some_iff.mpr ⟨⟨false, 10, -2⟩, by decide +kernel, rfl⟩
  have hseven : textValue? "7" = some (7 * 10 ^ (0 : Int)) :=
    textValue?_eq_some_iff.mpr ⟨⟨false, 7, 0⟩, by decide +kernel, rfl⟩
  have hhalf : textValue? "2.50" = some (250 * 10 ^ (-2 : Int)) :=
    textValue?_eq_some_iff.mpr ⟨⟨false, 250, -2⟩, by decide +kernel, rfl⟩
  have hstored : Wire.Storable (.list [.number "0.10", .numberSet ["7", "2.50"]]) := by
    refine ⟨⟨_, htenth, .inr (by norm_num)⟩, ⟨by decide, ?_, ?_⟩, trivial⟩
    · simp only [List.forall_mem_cons, List.not_mem_nil, false_implies, implies_true, and_true]
      exact ⟨⟨_, hseven, .inr (by norm_num)⟩, ⟨_, hhalf, .inr (by norm_num)⟩⟩
    · simp only [List.map_cons, List.map_nil, hseven, hhalf]
      norm_num
  have hdistinct : Dict.Distinct [("extra", Wire.bool true), ("id", .string "a"),
      ("X", .list [.number "0.10", .numberSet ["7", "2.50"]])] := by
    simp [Dict.Distinct]
  have hdeclared : sampleSchema.declared [("extra", .bool true), ("id", .string "a"),
        ("X", .list [.number "0.10", .numberSet ["7", "2.50"]])] =
      [("id", .string "a"), ("X", .list [.number "0.10", .numberSet ["7", "2.50"]])] := by
    simp [Schema.declared, Item.restrict, sampleSchema]
  obtain ⟨r, item', hread, hwritten, -, hkept, -, -, hfew⟩ :=
    toItem_ofItem build_sampleDraft (by decide) hdistinct (by
      rw [hdeclared, List.forall_mem_cons, List.forall_mem_singleton]
      exact ⟨trivial, hstored⟩)
  rw [hdeclared] at hkept hfew
  refine ⟨r, item', hread, hwritten, hkept, hfew ?_⟩
  intro t ht
  have htexts : t = "0.10" ∨ t = "7" ∨ t = "2.50" := by
    simpa [Item.numbers, Wire.numbersOfEntries, Wire.numbers, Wire.numbersOfItems] using ht
  rcases htexts with rfl | rfl | rfl
  · exact .inr ⟨_, htenth, by norm_num, 10, -2, by norm_num, by norm_num⟩
  · exact .inr ⟨_, hseven, by norm_num, 7, 0, by norm_num, by norm_num⟩
  · exact .inr ⟨_, hhalf, by norm_num, 250, -2, by norm_num, by norm_num⟩

theorem sample_written_back {text text' : String} {n : Number}
    (hdecode : Value.decodeNumber text = .ok n) (hencode : Value.encodeNumber n = .ok text') :
    ∃ r, ofItem sampleSchema [("id", .string "a"), ("X", .number text)] = .ok r ∧
      r.toItem = .ok [("id", .string "a"), ("X", .number text')] := by
  have hx : Value.decode (.number text) = .ok (.number n) := by
    rw [Value.decode, hdecode]
    rfl
  have hx' : Value.encode (.number n) = .ok (.number text') := by
    rw [Value.encode, hencode]
    rfl
  refine ⟨⟨sampleSchema, [("id", .set (.string "a")), ("x", .set (.number n))]⟩, ?_, ?_⟩
  · simp only [ofItem, sampleSchema, readValues, Dict.get?_cons, if_true, String.reduceEq, if_false,
      hx]
    rfl
  · simp only [toItem, sampleSchema, storeValues, storedValue, Dict.get?_cons, if_true,
      String.reduceEq, if_false, Option.getD_some, hx']
    rfl

/-- A number of twenty digits comes back with seventeen. -/
theorem toItem_ofItem_ne :
    Wire.Storable (.number "0.12345678901234567891") ∧
      ∃ r item', ofItem sampleSchema
          [("id", .string "a"), ("X", .number "0.12345678901234567891")] = .ok r ∧
        r.toItem = .ok item' ∧
        item' = [("id", .string "a"), ("X", .number "0.12345678901234568")] ∧
        ¬item'.SameBy Number.Same
          [("id", .string "a"), ("X", .number "0.12345678901234567891")] := by
  have hvalue : textValue? "0.12345678901234567891" =
      some (12345678901234567891 * 10 ^ (-20 : Int)) :=
    textValue?_eq_some_iff.mpr ⟨⟨false, 12345678901234567891, -20⟩, by decide +kernel, rfl⟩
  have hvalue' : textValue? "0.12345678901234568" = some (12345678901234568 * 10 ^ (-17 : Int)) :=
    textValue?_eq_some_iff.mpr ⟨⟨false, 12345678901234568, -17⟩, by decide +kernel, rfl⟩
  have hread : Number.ofText? "0.12345678901234567891" =
      some (.float (.ofCode false 0x3fbf9add3746f65f)) := by
    decide +kernel
  have hwrite : (Number.float (.ofCode false 0x3fbf9add3746f65f)).text? =
      some "0.12345678901234568" := by
    decide +kernel
  obtain ⟨r, hr, hitem⟩ := sample_written_back (Value.decodeNumber_eq_ok.mpr hread)
    (Value.encodeNumber_eq_ok.mpr hwrite)
  refine ⟨⟨_, hvalue, .inr (by norm_num)⟩, r, _, hr, hitem, rfl, ?_⟩
  rintro ⟨-, -, hx, -⟩
  have hsame := Number.same_singleton.mp hx
  rw [hvalue, hvalue', Option.some.injEq] at hsame
  norm_num at hsame

end Record

end ItemStore
