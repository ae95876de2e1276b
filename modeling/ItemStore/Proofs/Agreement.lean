import ItemStore.Data
import ItemStore.Proofs.Storage

/-!
# Data that is stored directly or through a record

Data can be stored as it is serialized, or through a record, whose values are read from the
serialized data and serialized once more.  A value that is read from serialized data is
serialized to the same data again, unless it holds a number that is read as another kind of
number.  So both ways store the same under each attribute, fail together, and give the same
item.

## Main definitions

* `Data.Plain` — data whose numbers are integers of 64 bits, or doubles that are no integers.
* `Wire.Reproduced` — a wire value that is read and written back unchanged.
* `Record.storeData` — storing data through a record.

## Main results

* `BinaryFloat.writtenInt?_eq_none` — what is no integer is not written as one.
* `Data.reproduced_of_plain` — serialized data is read and written back unchanged.
* `Record.setAll_eq_ok` — the record of some fields.
* `Schema.perm_storeData` — both ways to store data agree.
-/

namespace ItemStore

/-! ### Numbers that are no integers -/

namespace FloatFormat

variable (F : FloatFormat)

/-- From the length of the fraction on, all magnitudes are whole. -/
theorem one_dvd_units {code : Nat} (h : 2 ^ (F.fractionBits + 1) * F.one ≤ F.units code) :
    F.one ∣ F.units code := by
  have hone : F.one = 2 ^ F.unitExponent := rfl
  have hbinade := F.binade_eq
  have hpow : 2 ^ (F.fractionBits + 1) = 2 * F.binade := by rw [hbinade, pow_succ, Nat.mul_comm]
  by_cases hcode : code < F.binade
  · rw [F.units_of_lt_binade hcode, hpow] at h
    have hpos := F.one_pos
    have hle : 2 * F.binade * 1 ≤ 2 * F.binade * F.one := Nat.mul_le_mul_left _ hpos
    omega
  · have hmod : code % F.binade < F.binade := Nat.mod_lt _ F.binade_pos
    rw [F.units_of_binade_le (Nat.not_lt.mp hcode)] at h ⊢
    generalize code / F.binade - 1 = e at h
    refine dvd_mul_of_dvd_right ?_ _
    rw [hone] at h ⊢
    refine pow_dvd_pow 2 ?_
    by_contra hlt
    have hle : 2 ^ e ≤ 2 ^ F.unitExponent := Nat.pow_le_pow_right (by decide) (by omega)
    have hbelow : (F.binade + code % F.binade) * 2 ^ e < 2 * F.binade * 2 ^ F.unitExponent :=
      Nat.mul_lt_mul_of_lt_of_le (by omega) hle (Nat.two_pow_pos _)
    rw [hpow] at h
    omega

end FloatFormat

namespace BinaryFloat

variable {x : Double} (hx : x.isFinite) (h : x.toInt? = none)
include hx h

theorem scaled_ne_of_toInt?_eq_none (i : Int) : x.scaled ≠ i * (FloatFormat.double.one : Int) := by
  intro hi
  have hint := toInt?_eq_some_iff.mpr ⟨hx, hi⟩
  rw [h] at hint
  cases hint

/-- What is no integer has at most 53 binary digits before the point. -/
theorem natAbs_scaled_lt : x.scaled.natAbs < 2 ^ 53 * FloatFormat.double.one := by
  by_contra hge
  rw [x.scaled_eq_signedInt, natAbs_signedInt] at hge
  obtain ⟨n, hn⟩ : FloatFormat.double.one ∣ FloatFormat.double.units x.code := by
    refine FloatFormat.double.one_dvd_units ?_
    rw [show FloatFormat.double.fractionBits + 1 = 53 from rfl]
    exact Nat.not_lt.mp hge
  refine scaled_ne_of_toInt?_eq_none hx h (signedInt x.negative n) ?_
  rw [x.scaled_eq_signedInt, hn, Nat.mul_comm, signedInt_mul]

/-- What is no integer is not written as one. -/
theorem writtenInt?_eq_none : x.writtenInt? .int64 = none := by
  -- The number is so small that its text would denote the number itself.
  have hexact := Number.exact_of_lt hx (natAbs_scaled_lt hx h)
  cases hwritten : x.writtenInt? .int64 with
  | none => rfl
  | some i => exact absurd (hexact i hwritten).symm (scaled_ne_of_toInt?_eq_none hx h i)

end BinaryFloat

/-! ### Data that is read and written back -/

namespace Wire

/-- The wire value is read, and written back unchanged. -/
def Reproduced (w : Wire) : Prop := ∃ v, Value.decode w = .ok v ∧ v.encode = .ok w

theorem reproduced_list {items : List Wire} (h : ∀ w ∈ items, Reproduced w) :
    Reproduced (.list items) := by
  obtain ⟨vs, hdecode, hencode⟩ : ∃ vs, Value.decodeItems items = .ok vs ∧
      Value.encodeItems vs = .ok items := by
    induction items with
    | nil => exact ⟨[], rfl, rfl⟩
    | cons w items ih =>
      obtain ⟨⟨v, hv, hw⟩, htail⟩ := List.forall_mem_cons.mp h
      obtain ⟨vs, hvs, hws⟩ := ih htail
      refine ⟨v :: vs, ?_, ?_⟩
      · rw [Value.decodeItems, hv, hvs]
        rfl
      · rw [Value.encodeItems, hw, hws]
        rfl
  exact ⟨.list vs, map_eq_ok.mpr ⟨vs, hdecode, rfl⟩, map_eq_ok.mpr ⟨items, hencode, rfl⟩⟩

theorem reproduced_map {entries : List (String × Wire)} (h : ∀ e ∈ entries, Reproduced e.2) :
    Reproduced (.map entries) := by
  obtain ⟨vs, hdecode, hencode⟩ : ∃ vs, Value.decodeEntries entries = .ok vs ∧
      Value.encodeEntries vs = .ok entries := by
    induction entries with
    | nil => exact ⟨[], rfl, rfl⟩
    | cons e entries ih =>
      obtain ⟨⟨v, hv, hw⟩, htail⟩ := List.forall_mem_cons.mp h
      obtain ⟨vs, hvs, hws⟩ := ih htail
      refine ⟨(e.1, v) :: vs, ?_, ?_⟩
      · rw [Value.decodeEntries, hv, hvs]
        rfl
      · rw [Value.encodeEntries, hw, hws]
        rfl
  exact ⟨.map vs, map_eq_ok.mpr ⟨vs, hdecode, rfl⟩, map_eq_ok.mpr ⟨entries, hencode, rfl⟩⟩

theorem reproduced_integer (i : Int64) : Reproduced (.number (Data.intText i.toInt)) :=
  ⟨.number (.integer i), Value.decode_intText i, rfl⟩

theorem reproduced_double {x : Double} (hx : x.isFinite) (h : x.toInt? = none) :
    Reproduced (.number x.plainText) := by
  have htext : Number.text? (.float x) = some x.plainText := by
    rw [Number.text?, if_pos hx]
  have hback : Number.readBack (.float x) = .float x := by
    rw [Number.readBack, BinaryFloat.writtenInt?_eq_none hx h]
    simp only [Number.ofDouble, h]
  have hread := Number.ofText?_text? htext
  rw [hback] at hread
  refine ⟨.number (.float x), ?_, ?_⟩
  · exact map_eq_ok.mpr ⟨_, Value.decodeNumber_eq_ok.mpr hread, rfl⟩
  · exact map_eq_ok.mpr ⟨_, Value.encodeNumber_eq_ok.mpr htext, rfl⟩

end Wire

namespace Data

mutual

/-- The numbers in the data, at any depth, are integers of 64 bits with a sign, or finite
doubles that are no integers.  Integers of 128 bits are not looked at: no value of that kind is
serialized. -/
def Plain : Data → Prop
  | .uint64 n => n.toNat < 2 ^ 63
  | .double x => x.isFinite ∧ x.toInt? = none
  | .single _ => False
  | .present d => Plain d
  | .sequence items => PlainItems items
  | .mapping entries => PlainEntries entries
  | _ => True

/-- All items are plain. -/
def PlainItems : List Data → Prop
  | [] => True
  | d :: ds => Plain d ∧ PlainItems ds

/-- The values of all entries are plain. -/
def PlainEntries : List (Data × Data) → Prop
  | [] => True
  | (_, d) :: entries => Plain d ∧ PlainEntries entries

end

theorem reproduced_uint64 {n : UInt64} (h : n.toNat < 2 ^ 63) :
    Wire.Reproduced (.number (natText n.toNat)) := by
  have hint : (Int64.ofInt n.toNat).toInt = n.toNat := by
    refine Number.toInt_ofInt ?_
    rw [IntegerRange.contains_iff]
    show -9223372036854775808 ≤ (n.toNat : Int) ∧ (n.toNat : Int) ≤ 9223372036854775807
    omega
  have htext : natText n.toNat = intText (Int64.ofInt n.toNat).toInt := by
    rw [hint, intText, integerText, if_neg (by omega)]
    rfl
  rw [htext]
  exact Wire.reproduced_integer _

end Data

/-! ### Entries that are written one after the other -/

namespace Dict

variable {κ α β : Type} [DecidableEq κ]

/-- Dictionaries stay related under each key when related entries are written into them. -/
theorem get?_union_rel {P : Option α → Option β → Prop} {es : List (κ × α)} {fs : List (κ × β)}
    (h : List.Forall₂ (fun e f => e.1 = f.1 ∧ P (some e.2) (some f.2)) es fs) :
    ∀ {d : Dict κ α} {d' : Dict κ β}, (∀ k, P (get? d k) (get? d' k)) →
      ∀ k, P (get? (union d es) k) (get? (union d' fs) k) := by
  induction h with
  | nil => exact fun hd => hd
  | @cons e f es fs hef _ ih =>
    intro d d' hd
    refine ih fun k => ?_
    rw [get?_insert, get?_insert, hef.1]
    split
    · exact hef.2
    · exact hd k

end Dict

namespace Data

mutual

/-- **Serialized data is read and written back unchanged**, if its numbers are plain. -/
theorem reproduced_of_plain : ∀ {d : Data} {w : Wire}, d.Plain → d.serialize = .ok w →
    w.Reproduced
  | .bool b, w, _, h => by
    cases h
    exact ⟨.bool b, rfl, rfl⟩
  | .int64 i, w, _, h => by
    cases h
    exact Wire.reproduced_integer i
  | .uint64 n, w, hplain, h => by
    cases h
    exact reproduced_uint64 hplain
  | .int128 i, w, _, h => by cases h
  | .double x, w, hplain, h => by
    cases h
    exact Wire.reproduced_double hplain.1 hplain.2
  | .single x, w, hplain, _ => hplain.elim
  | .char c, w, _, h => by
    cases h
    exact ⟨.string _, rfl, rfl⟩
  | .text s, w, _, h => by
    cases h
    exact ⟨.string s, rfl, rfl⟩
  | .bytes b, w, _, h => by
    cases h
    exact ⟨.bytes b, rfl, rfl⟩
  | .absent, w, _, h => by
    cases h
    exact ⟨.null, rfl, rfl⟩
  | .present d, w, hplain, h => reproduced_of_plain (d := d) hplain h
  | .unit, w, _, h => by
    cases h
    exact ⟨.null, rfl, rfl⟩
  | .sequence items, w, hplain, h => by
    obtain ⟨ws, hws, rfl⟩ := map_eq_ok.mp h
    exact Wire.reproduced_list (reproduced_of_plainItems hplain hws)
  | .mapping entries, w, hplain, h => by
    obtain ⟨l, hl, rfl⟩ := map_eq_ok.mp h
    refine Wire.reproduced_map fun e he => ?_
    rcases Dict.mem_of_mem_union he with hmem | hmem
    · cases hmem
    · exact reproduced_of_plainEntries hplain hl e hmem

theorem reproduced_of_plainItems : ∀ {items : List Data} {ws : List Wire}, PlainItems items →
    serializeItems items = .ok ws → ∀ w ∈ ws, w.Reproduced
  | [], ws, _, h => by
    cases h
    simp
  | d :: items, ws, hplain, h => by
    obtain ⟨w, hw, h⟩ := bind_eq_ok.mp h
    obtain ⟨rest, hrest, h⟩ := bind_eq_ok.mp h
    obtain rfl := pure_eq_ok.mp h
    exact List.forall_mem_cons.mpr
      ⟨reproduced_of_plain hplain.1 hw, reproduced_of_plainItems hplain.2 hrest⟩

theorem reproduced_of_plainEntries : ∀ {entries : List (Data × Data)} {l : List (String × Wire)},
    PlainEntries entries → serializeEntries entries = .ok l → ∀ e ∈ l, e.2.Reproduced
  | [], l, _, h => by
    cases h
    simp
  | (k, d) :: entries, l, hplain, h => by
    obtain ⟨key, -, h⟩ := bind_eq_ok.mp h
    obtain ⟨w, hw, h⟩ := bind_eq_ok.mp h
    obtain ⟨rest, hrest, h⟩ := bind_eq_ok.mp h
    obtain rfl := pure_eq_ok.mp h
    exact List.forall_mem_cons.mpr
      ⟨reproduced_of_plain hplain.1 hw, reproduced_of_plainEntries hplain.2 hrest⟩

end

end Data

/-! ### The record of some fields -/

namespace Record

variable {s : Schema} {r r' : Record} {fields : List (String × Value)}

/-- Which fields can be written to. -/
theorem write_eq (r : Record) (field : String) (slot : Slot Value) :
    r.write field slot =
      if field ∈ Dict.keys r.values then .ok { r with values := r.values.insert field slot }
      else .error (.undeclaredField field r.schema.table) := by
  simp only [write, Dict.contains_iff]

/-- Fields can be set where all of them are declared, the last value of each counting. -/
theorem setAll_eq_ok :
    r.setAll fields = .ok r' ↔
      (∀ e ∈ fields, e.1 ∈ Dict.keys r.values) ∧
        r' = { r with values := r.values.union (fields.map fun e => (e.1, .set e.2)) } := by
  induction fields generalizing r with
  | nil => simp [setAll, eq_comm]
  | cons e fields ih =>
    rw [List.forall_mem_cons, List.map_cons, Dict.union_cons]
    by_cases hmem : e.1 ∈ Dict.keys r.values
    · have hset : r.set e.1 e.2 = .ok { r with values := r.values.insert e.1 (.set e.2) } := by
        rw [set, write_eq, if_pos hmem]
      have hkeys := Dict.keys_insert_of_mem hmem (Slot.set e.2)
      have hsteps : r.setAll (e :: fields) =
          setAll { r with values := r.values.insert e.1 (.set e.2) } fields := by
        rw [setAll, hset]
        rfl
      rw [hsteps, ih]
      simp only [hkeys, hmem, true_and]
    · have hset : ∀ q, r.set e.1 e.2 ≠ .ok q := by
        intro q
        rw [set, write_eq, if_neg hmem]
        simp
      constructor
      · intro h
        obtain ⟨q, hq, -⟩ := bind_eq_ok.mp h
        exact absurd hq (hset q)
      · rintro ⟨⟨hmem', -⟩, -⟩
        exact absurd hmem' hmem

theorem keys_empty (s : Schema) : Dict.keys (empty s).values = s.fields.map Field.name := by
  rw [empty, Dict.keys, List.map_map]
  rfl

theorem get?_empty (s : Schema) (k : String) : ((empty s).values.get? k).getD .unset = .unset := by
  cases hget : (empty s).values.get? k with
  | none => rfl
  | some slot =>
    obtain ⟨f, -, heq⟩ := List.mem_map.mp (Dict.mem_of_get? hget)
    cases heq
    rfl

end Record

/-! ### Both ways to store data -/

/-- A field with the value of its datum. -/
def Data.toField (p : String × Data) : Except Error (String × Value) := do
  return (p.1, ← p.2.toValue)

/-- Store data through a record: each datum as a value, the values as a record, and the record
as an item. -/
def Record.storeData (s : Schema) (fields : List (String × Data)) : Except Error Item := do
  let values ← fields.mapM Data.toField
  let r ← Record.ofFields s values
  r.toItem

namespace Data

/-- Fields as data. -/
def ofFields (fields : List (String × Data)) : Data := .mapping (fields.map fun p => (.text p.1, p.2))

/-- A field and its datum, serialized. -/
def Serializes (p : String × Data) (e : String × Wire) : Prop :=
  p.1 = e.1 ∧ p.2.serialize = .ok e.2

/-- A field with a value that is serialized as the wire value. -/
def Carries (e : String × Wire) (f : String × Value) : Prop := e.1 = f.1 ∧ f.2.encode = .ok e.2

variable {fields : List (String × Data)} {l : List (String × Wire)} {values : List (String × Value)}

theorem serializeEntries_eq_ok :
    serializeEntries (fields.map fun p => (.text p.1, p.2)) = .ok l ↔
      List.Forall₂ Serializes fields l := by
  induction fields generalizing l with
  | nil =>
    constructor
    · intro h
      cases h
      exact .nil
    · intro h
      cases h
      rfl
  | cons p fields ih =>
    constructor
    · intro h
      obtain ⟨key, hkey, h⟩ := bind_eq_ok.mp h
      obtain ⟨w, hw, h⟩ := bind_eq_ok.mp h
      obtain ⟨rest, hrest, h⟩ := bind_eq_ok.mp h
      obtain rfl := pure_eq_ok.mp h
      cases hkey
      exact .cons ⟨rfl, hw⟩ (ih.mp hrest)
    · intro h
      cases h with
      | @cons _ e _ l he hrest =>
        obtain ⟨name, w⟩ := e
        obtain ⟨rfl, hw⟩ := he
        exact bind_eq_ok.mpr ⟨p.1, rfl, bind_eq_ok.mpr ⟨w, hw,
          bind_eq_ok.mpr ⟨l, ih.mpr hrest, rfl⟩⟩⟩

theorem toValue_eq_ok {d : Data} {v : Value} :
    d.toValue = .ok v ↔ ∃ w, d.serialize = .ok w ∧ Value.decode w = .ok v := by
  rw [toValue, bind_eq_ok]
  cases d.serialize with
  | error e => simp [Except.mapError]
  | ok w => simp [Except.mapError]

/-- Plain data that can be serialized has values, which are serialized to the same again. -/
theorem exists_values (hplain : ∀ p ∈ fields, p.2.Plain) (h : List.Forall₂ Serializes fields l) :
    ∃ values, fields.mapM toField = .ok values ∧ List.Forall₂ Carries l values := by
  induction h with
  | nil => exact ⟨[], rfl, .nil⟩
  | @cons p e fields l hpe _ ih =>
    obtain ⟨hhead, htail⟩ := List.forall_mem_cons.mp hplain
    obtain ⟨v, hdecode, hencode⟩ := reproduced_of_plain hhead hpe.2
    obtain ⟨values, hvalues, hcarries⟩ := ih htail
    have hv : toField p = .ok (p.1, v) :=
      bind_eq_ok.mpr ⟨v, toValue_eq_ok.mpr ⟨e.2, hpe.2, hdecode⟩, rfl⟩
    refine ⟨(p.1, v) :: values, ?_, .cons ⟨hpe.1.symm, hencode⟩ hcarries⟩
    rw [List.mapM_cons]
    exact bind_eq_ok.mpr ⟨_, hv, bind_eq_ok.mpr ⟨values, hvalues, rfl⟩⟩

/-- What has values can be serialized. -/
theorem exists_serializes (h : fields.mapM toField = .ok values) :
    ∃ l, List.Forall₂ Serializes fields l := by
  rw [mapM_eq_ok] at h
  induction h with
  | nil => exact ⟨[], .nil⟩
  | @cons p f fields values hp _ ih =>
    obtain ⟨l, hl⟩ := ih
    obtain ⟨v, hv, -⟩ := bind_eq_ok.mp hp
    obtain ⟨w, hw, -⟩ := toValue_eq_ok.mp hv
    exact ⟨(p.1, w) :: l, .cons ⟨rfl, hw⟩ hl⟩

/-- What is stored for a field is the same for serialized data and for values that carry it. -/
theorem stored_eq (s : Schema) (h : List.Forall₂ Carries l values) (f : Field) :
    f.stored (Dict.ofList l) =
      Record.stored ((Record.empty s).values.union (values.map fun e => (e.1, .set e.2))) f := by
  have helim : f.stored (Dict.ofList l) =
      ((Dict.ofList l).get? f.name).elim (.ok none) f.encoding.encode := by
    rw [Field.stored]
    cases (Dict.ofList l).get? f.name with
    | none => rfl
    | some w => rfl
  rw [helim]
  -- The relation holds of nothing and a field that is not set, and is kept by each entry.
  refine Dict.get?_union_rel (P := fun o slot =>
    o.elim (.ok none) f.encoding.encode = Record.storedValue f (slot.getD .unset)) ?_ ?_ f.name
  · rw [List.forall₂_map_right_iff]
    refine h.imp fun e v hv => ⟨hv.1, ?_⟩
    rw [Option.getD_some, Record.storedValue, hv.2]
    rfl
  · intro k
    rw [Record.get?_empty]
    rfl

end Data

theorem Schema.storeData_eq_ok {s : Schema} {fields : List (String × Data)} {item : Item} :
    s.storeData (.ofFields fields) = .ok item ↔
      ∃ l, List.Forall₂ Data.Serializes fields l ∧ s.storeFields (Dict.ofList l) = .ok item := by
  simp only [← Data.serializeEntries_eq_ok]
  rw [storeData, Data.ofFields, Data.fields, Data.serialize, bind_eq_ok]
  cases Data.serializeEntries (fields.map fun p => (.text p.1, p.2)) with
  | error e => simp [Except.map, Except.mapError, bind, Except.bind]
  | ok l => simp [Except.map, Except.mapError, bind, Except.bind]

theorem Record.storeData_eq_ok {s : Schema} {fields : List (String × Data)} {item : Item} :
    Record.storeData s fields = .ok item ↔
      ∃ values, fields.mapM Data.toField = .ok values ∧
        (∀ e ∈ values, e.1 ∈ s.fields.map Field.name) ∧
        storeValues ((empty s).values.union (values.map fun e => (e.1, .set e.2))) s.fields =
          .ok item := by
  rw [storeData, bind_eq_ok]
  refine exists_congr fun values => and_congr_right fun _ => ?_
  rw [bind_eq_ok]
  simp only [ofFields, setAll_eq_ok, keys_empty]
  constructor
  · rintro ⟨r, ⟨hdeclared, rfl⟩, hitem⟩
    exact ⟨hdeclared, hitem⟩
  · rintro ⟨hdeclared, hitem⟩
    exact ⟨_, ⟨hdeclared, rfl⟩, hitem⟩

/-- Serialized data can be stored where values that carry it can be set and stored. -/
theorem Data.exists_storeFields_iff {s : Schema} (h : Field.Apart s.fields)
    {l : List (String × Wire)} {values : List (String × Value)}
    (hcarries : List.Forall₂ Carries l values) :
    (∃ item, s.storeFields (Dict.ofList l) = .ok item) ↔
      (∀ e ∈ values, e.1 ∈ s.fields.map Field.name) ∧
        ∃ item, Record.storeValues
          ((Record.empty s).values.union (values.map fun e => (e.1, .set e.2))) s.fields =
            .ok item := by
  have hnames : l.map Prod.fst = values.map Prod.fst := by
    induction hcarries with
    | nil => rfl
    | cons he _ ih => rw [List.map_cons, List.map_cons, he.1, ih]
  have hkeys : (∀ k ∈ Dict.keys (Dict.ofList l), k ∈ s.fields.map Field.name) ↔
      ∀ e ∈ values, e.1 ∈ s.fields.map Field.name := by
    simp only [Dict.ofList, Dict.mem_keys_union, hnames, Dict.keys_nil, List.not_mem_nil, false_or]
    exact List.forall_mem_map
  rw [Schema.exists_storeFields_iff h (Dict.distinct_ofList l), Record.exists_storeValues_iff,
    hkeys]
  simp only [stored_eq s hcarries]

/-- **Both ways to store data agree.**

Fields with plain data can be stored directly if, and only if, they can be stored through a
record, whatever the encodings of the fields are.  The items are then the same. -/
theorem Schema.perm_storeData {draft : SchemaDraft} {s : Schema} (hs : draft.build = .ok s)
    {fields : List (String × Data)} (hplain : ∀ p ∈ fields, p.2.Plain) :
    ((∃ item, s.storeData (.ofFields fields) = .ok item) ↔
        ∃ item, Record.storeData s fields = .ok item) ∧
      ∀ item item', s.storeData (.ofFields fields) = .ok item →
        Record.storeData s fields = .ok item' →
        Dict.Distinct item ∧ Dict.Distinct item' ∧ item.Perm item' := by
  have hapart := SchemaDraft.apart_of_build hs
  -- Serialized data has one list of values, which carry it.
  have hcarries : ∀ l, List.Forall₂ Data.Serializes fields l → ∀ values,
      fields.mapM Data.toField = .ok values → List.Forall₂ Data.Carries l values := by
    intro l hl values hvalues
    obtain ⟨values', hvalues', hcarries⟩ := Data.exists_values hplain hl
    rw [hvalues] at hvalues'
    cases hvalues'
    exact hcarries
  simp only [storeData_eq_ok, Record.storeData_eq_ok]
  constructor
  · constructor
    · rintro ⟨item, l, hl, hitem⟩
      obtain ⟨values, hvalues, hrel⟩ := Data.exists_values hplain hl
      obtain ⟨hdeclared, item', hitem'⟩ :=
        (Data.exists_storeFields_iff hapart hrel).mp ⟨item, hitem⟩
      exact ⟨item', values, hvalues, hdeclared, hitem'⟩
    · rintro ⟨item', values, hvalues, hdeclared, hitem'⟩
      obtain ⟨l, hl⟩ := Data.exists_serializes hvalues
      obtain ⟨item, hitem⟩ := (Data.exists_storeFields_iff hapart (hcarries l hl values hvalues)).mpr
        ⟨hdeclared, item', hitem'⟩
      exact ⟨item, l, hl, hitem⟩
  · rintro item item' ⟨l, hl, hitem⟩ ⟨values, hvalues, -, hitem'⟩
    have hstores := stores_storeFields hapart (Dict.distinct_ofList l) hitem
    have hstores' := Record.stores_storeValues hapart hitem'
    refine ⟨hstores.distinct, hstores'.distinct, hstores.perm hstores' fun f _ => ?_⟩
    exact Data.stored_eq s (hcarries l hl values hvalues) f

/-- A set of texts, a byte string, and a map with a half in it; one field is given twice. -/
theorem Schema.perm_storeData_sets :
    let draft := ((((SchemaDraft.new "table").declareKey "id" .unnamed).declarePlain "a"
      (.named "A")).declarePlain "b" .unnamed).declarePlain "c" .unnamed
      |>.encode "a" .set |>.encode "b" .bytes
    let half : Double := .ofBits 0x3FE0000000000000
    let fields : List (String × Data) :=
      [("id", .text "x"), ("a", .text "y"), ("b", .sequence [.uint64 1, .int64 255]),
        ("c", .mapping [(.int64 0, .present (.double half))]),
        ("a", .sequence [.text "z", .char 'y', .text "z"])]
    ∃ s item item', draft.build = .ok s ∧ s.storeData (.ofFields fields) = .ok item ∧
      Record.storeData s fields = .ok item' ∧ item.Perm item' ∧
      item = [("id", .string "x"), ("A", .stringSet ["y", "z"]), ("b", .bytes [1, 255]),
        ("c", .map [("0", .number half.plainText)])] := by
  intro draft half fields
  obtain ⟨s, hs⟩ : ∃ s, draft.build = .ok s := ⟨_, rfl⟩
  have hhalf : half.isFinite ∧ half.toInt? = none := by decide +kernel
  have hplain : ∀ p ∈ fields, p.2.Plain := by
    intro p hp
    simp only [fields, List.mem_cons, List.not_mem_nil, or_false] at hp
    rcases hp with rfl | rfl | rfl | rfl | rfl
    · trivial
    · trivial
    · exact ⟨show (1 : UInt64).toNat < 2 ^ 63 by decide, trivial, trivial⟩
    · exact ⟨hhalf, trivial⟩
    · exact ⟨trivial, trivial, trivial, trivial⟩
  obtain ⟨hiff, hperm⟩ := Schema.perm_storeData hs hplain
  obtain ⟨item, hitem⟩ : ∃ item, s.storeData (.ofFields fields) = .ok item := by
    cases hs
    exact ⟨_, rfl⟩
  obtain ⟨item', hitem'⟩ := hiff.mp ⟨item, hitem⟩
  refine ⟨s, item, item', hs, hitem, hitem', (hperm item item' hitem hitem').2.2, ?_⟩
  cases hs
  cases hitem
  rfl

end ItemStore
