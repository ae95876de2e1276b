import ItemStore.Data.Model
import ItemStore.Proofs.Canonical
import ItemStore.Proofs.History
import ItemStore.Proofs.Pages

/-!
# What is not declared is not read

An item may have more attributes than its schema declares: those of a newer program, values of
a type that is not known here, numbers that cannot be read, or an attribute with the name of a
field that is stored under another name.  None of them has any influence on what is read.

This is about two runs.  Two items that have the same under every declared name are read as the
same record, or both fail with an error of one kind; the field maps that are made of them are
the same.  So whoever reads a field map as a map, in no particular order, cannot tell the items
apart, and reads of one item, of a partition and of a table have the same outcome if the store
answers with the one or the other.

Values are the same here if they differ in the order of the entries of maps only, since these
come back in any order.  That order decides which of several faults is found first, and so only
the kind of the error is the same.

## Main definitions

* `Alike` — outcomes that are both results or both errors, and related.
* `Schema.Agree` — items that have the same under every declared name.
* `Item.Rearranges`, `Record.Rearranges` — the same attributes, the same fields.
* `Schema.AgreeAnswers`, `Schema.AgreeResponses` — the store answers with such items.

## Main results

* `Value.alike_decode` — one value.
* `Record.alike_ofItem`, `Schema.rearranges_readFields` — one item.
* `Model.read_of_rearranges` — models are read from field maps as maps.
* `Paging.alike_run` — a read in pages.
* `Schema.reads_alike` — all of this, for every schema that is built.
-/

namespace ItemStore

/-! ### Outcomes that are alike -/

/-- Both outcomes are results that are related, or both are errors that are. -/
inductive Alike {ε α β : Type} (E : ε → ε → Prop) (R : α → β → Prop) :
    Except ε α → Except ε β → Prop
  | ok {a : α} {b : β} : R a b → Alike E R (.ok a) (.ok b)
  | error {e e' : ε} : E e e' → Alike E R (.error e) (.error e')

/-- Two errors are of one kind. -/
def Error.SameKind (e e' : Error) : Prop := e.kind = e'.kind

/-- Two exchanges fail alike: by errors of one kind, by one refusal, or since nothing came. -/
inductive Failure.Same : Failure → Failure → Prop
  | caller {e e' : Error} : e.SameKind e' → Failure.Same (.caller e) (.caller e')
  | refused {code : String} : Failure.Same (.refused code) (.refused code)
  | lost : Failure.Same .lost .lost

namespace Alike

variable {ε α β γ δ : Type} {E : ε → ε → Prop} {R : α → β → Prop} {S : γ → δ → Prop}
  {x : Except ε α} {y : Except ε β}

/-- One of two outcomes that are alike is a result if the other one is. -/
theorem exists_iff (h : Alike E R x y) : (∃ a, x = .ok a) ↔ ∃ b, y = .ok b := by
  cases h with
  | @ok a b _ => exact ⟨fun _ => ⟨b, rfl⟩, fun _ => ⟨a, rfl⟩⟩
  | error _ =>
    constructor
    · rintro ⟨a, ha⟩
      cases ha
    · rintro ⟨b, hb⟩
      cases hb

theorem bind {k : α → Except ε γ} {k' : β → Except ε δ} (h : Alike E R x y)
    (hk : ∀ a b, R a b → Alike E S (k a) (k' b)) : Alike E S (x >>= k) (y >>= k') := by
  cases h with
  | ok hr => exact hk _ _ hr
  | error he => exact .error he

theorem map {g : α → γ} {g' : β → δ} (h : Alike E R x y) (hg : ∀ a b, R a b → S (g a) (g' b)) :
    Alike E S (x.map g) (y.map g') := by
  cases h with
  | ok hr => exact .ok (hg _ _ hr)
  | error he => exact .error he

/-- Steps over lists: the first that fails is the same one. -/
theorem mapM {g : γ → Except ε α} {g' : δ → Except ε β} {l : List γ} {l' : List δ}
    (h : List.Forall₂ (fun c d => Alike E R (g c) (g' d)) l l') :
    Alike E (List.Forall₂ R) (l.mapM g) (l'.mapM g') := by
  induction h with
  | nil => exact .ok .nil
  | cons hhead _ ih =>
    rw [List.mapM_cons, List.mapM_cons]
    exact hhead.bind fun _ _ hr => ih.bind fun _ _ hrs => .ok (.cons hr hrs)

end Alike

theorem mapM_congr_forall₂ {ε α β γ : Type} {g : α → Except ε γ} {g' : β → Except ε γ}
    {l : List α} {l' : List β} (h : List.Forall₂ (fun a b => g a = g' b) l l') :
    l.mapM g = l'.mapM g' := by
  induction h with
  | nil => rfl
  | cons hhead _ ih => rw [List.mapM_cons, List.mapM_cons, hhead, ih]

/-! ### Wire values with the entries of maps in any order -/

namespace Wire

theorem rearrangesItems_iff : ∀ {ws ws' : List Wire},
    RearrangesItems ws ws' ↔ List.Forall₂ Rearranges ws ws'
  | [], [] => by simp [RearrangesItems]
  | [], _ :: _ => by simp [RearrangesItems]
  | _ :: _, [] => by simp [RearrangesItems]
  | w :: ws, w' :: ws' => by
    rw [RearrangesItems, List.forall₂_cons, rearrangesItems_iff]

theorem rearrangesEntries_iff : ∀ {es es' : List (String × Wire)},
    RearrangesEntries es es' ↔ List.Forall₂ (fun e e' => e.1 = e'.1 ∧ e.2.Rearranges e'.2) es es'
  | [], [] => by simp [RearrangesEntries]
  | [], _ :: _ => by simp [RearrangesEntries]
  | _ :: _, [] => by simp [RearrangesEntries]
  | (k, w) :: es, (k', w') :: es' => by
    rw [RearrangesEntries, List.forall₂_cons, rearrangesEntries_iff, and_assoc]

/-- A rearranged value is a list, a map, or the value itself. -/
theorem Rearranges.cases {w w' : Wire} (h : w.Rearranges w') :
    w = w' ∨
      (∃ items items', w = .list items ∧ w' = .list items' ∧
        List.Forall₂ Rearranges items items') ∨
      ∃ entries moved entries', w = .map entries ∧ w' = .map entries' ∧
        RearrangesEntries entries moved ∧ moved.Perm entries' := by
  cases w with
  | list items =>
    cases w' with
    | list items' => exact .inr (.inl ⟨items, items', rfl, rfl, rearrangesItems_iff.mp h⟩)
    | _ => cases h
  | map entries =>
    cases w' with
    | map entries' =>
      obtain ⟨moved, hmoved, hperm⟩ := h
      exact .inr (.inr ⟨entries, moved, entries', rfl, rfl, hmoved, hperm⟩)
    | _ => cases h
  | _ => exact .inl (by simpa only [Rearranges] using h)

mutual

theorem rearranges_self : ∀ w : Wire, w.Rearranges w
  | .list items => rearrangesItems_self items
  | .map entries => ⟨entries, rearrangesEntries_self entries, .rfl⟩
  | .string _ | .number _ | .bytes _ | .bool _ | .null _ | .stringSet _ | .numberSet _
  | .binarySet _ | .unknown => by simp only [Rearranges]

theorem rearrangesItems_self : ∀ ws : List Wire, RearrangesItems ws ws
  | [] => trivial
  | w :: ws => ⟨rearranges_self w, rearrangesItems_self ws⟩

theorem rearrangesEntries_self : ∀ es : List (String × Wire), RearrangesEntries es es
  | [] => trivial
  | (_, w) :: es => ⟨rfl, rearranges_self w, rearrangesEntries_self es⟩

end

mutual

theorem Rearranges.symm : ∀ {w w' : Wire}, w.Rearranges w' → w'.Rearranges w
  | .list items, w', h => by
    cases w' with
    | list items' => exact RearrangesItems.symm h
    | _ => cases h
  | .map entries, w', h => by
    cases w' with
    | map entries' =>
      obtain ⟨moved, hmoved, hperm⟩ := h
      -- The order of the second map is taken over to the first.
      obtain ⟨back, hback, hfirst⟩ :=
        List.perm_comp_forall₂ hperm.symm (rearrangesEntries_iff.mp (RearrangesEntries.symm hmoved))
      exact ⟨back, rearrangesEntries_iff.mpr hback, hfirst⟩
    | _ => cases h
  | .string _, w', h | .number _, w', h | .bytes _, w', h | .bool _, w', h | .null _, w', h
  | .stringSet _, w', h | .numberSet _, w', h | .binarySet _, w', h | .unknown, w', h => by
    obtain rfl : _ = w' := by simpa only [Rearranges] using h
    exact h

theorem RearrangesItems.symm : ∀ {ws ws' : List Wire},
    RearrangesItems ws ws' → RearrangesItems ws' ws
  | [], [], _ => trivial
  | _ :: _, _ :: _, ⟨hhead, htail⟩ => ⟨hhead.symm, RearrangesItems.symm htail⟩

theorem RearrangesEntries.symm : ∀ {es es' : List (String × Wire)},
    RearrangesEntries es es' → RearrangesEntries es' es
  | [], [], _ => trivial
  | (_, _) :: _, (_, _) :: _, ⟨hkey, hhead, htail⟩ =>
    ⟨hkey.symm, hhead.symm, RearrangesEntries.symm htail⟩

end

end Wire

/-! ### Values that are read -/

namespace Value

theorem kind_of_decodeNumber {text : String} {e : Error} (h : decodeNumber text = .error e) :
    e.kind = .unsupportedValue := by
  unfold decodeNumber at h
  cases hnumber : Number.ofText? text with
  | some n =>
    rw [hnumber] at h
    cases h
  | none =>
    rw [hnumber] at h
    cases h
    rfl

mutual

/-- Whatever is wrong with a wire value, it is a value that is not supported. -/
theorem kind_of_decode : ∀ {w : Wire} {e : Error}, decode w = .error e →
    e.kind = .unsupportedValue
  | .list _, _, h => kind_of_decodeItems (map_eq_error.mp h)
  | .map _, _, h => kind_of_decodeEntries (map_eq_error.mp h)
  | .number _, _, h => kind_of_decodeNumber (map_eq_error.mp h)
  | .numberSet texts, e, h => by
    rw [decode] at h
    rcases bind_eq_error.mp h with hnumbers | ⟨numbers, -, hset⟩
    · obtain ⟨_, text, _, _, -, -, htext⟩ := exists_of_mapM_eq_error hnumbers
      exact kind_of_decodeNumber htext
    · cases hset
  | .unknown, _, h => by
    cases h
    rfl
  | .null _, _, h | .bool _, _, h | .string _, _, h | .bytes _, _, h | .stringSet _, _, h
  | .binarySet _, _, h => by cases h

theorem kind_of_decodeItems : ∀ {ws : List Wire} {e : Error}, decodeItems ws = .error e →
    e.kind = .unsupportedValue
  | [], _, h => by cases h
  | w :: ws, e, h => by
    rw [decodeItems] at h
    rcases bind_eq_error.mp h with hhead | ⟨v, -, h⟩
    · exact kind_of_decode hhead
    · rcases bind_eq_error.mp h with htail | ⟨vs, -, h⟩
      · exact kind_of_decodeItems htail
      · cases h

theorem kind_of_decodeEntries : ∀ {es : List (String × Wire)} {e : Error},
    decodeEntries es = .error e → e.kind = .unsupportedValue
  | [], _, h => by cases h
  | (_, w) :: es, e, h => by
    rw [decodeEntries] at h
    rcases bind_eq_error.mp h with hhead | ⟨v, -, h⟩
    · exact kind_of_decode hhead
    · rcases bind_eq_error.mp h with htail | ⟨vs, -, h⟩
      · exact kind_of_decodeEntries htail
      · cases h

end

/-- **Wire values that differ in the order of entries are read alike.** -/
theorem alike_decode {w w' : Wire} (h : w.Rearranges w') :
    Alike Error.SameKind Rearranges (decode w) (decode w') := by
  cases hw : decode w with
  | ok v =>
    obtain ⟨v', hv', hmoved⟩ := exists_decode_of_rearranges h hw
    rw [hv']
    exact .ok hmoved
  | error e =>
    cases hw' : decode w' with
    | ok v' =>
      obtain ⟨v, hv, -⟩ := exists_decode_of_rearranges h.symm hw'
      rw [hv] at hw
      cases hw
    | error e' => exact .error ((kind_of_decode hw).trans (kind_of_decode hw').symm)

end Value

/-! ### Items that agree -/

/-- Two items have the same attributes, up to the order of entries. -/
structure Item.Rearranges (x y : Item) : Prop where
  left : Dict.Distinct x
  right : Dict.Distinct y
  same : ∀ k, Option.Rel Wire.Rearranges (x.get? k) (y.get? k)

/-- Two items have the same under every declared name, up to the order of entries. -/
structure Schema.Agree (s : Schema) (a b : Item) : Prop where
  left : Dict.Distinct a
  right : Dict.Distinct b
  declared : ∀ f ∈ s.fields,
    Option.Rel Wire.Rearranges (a.get? f.attributeName) (b.get? f.attributeName)

/-- Two fields hold the same, up to the order of entries, or both are not set. -/
def Slot.Rearranges : Slot Value → Slot Value → Prop
  | .unset, .unset => True
  | .set v, .set v' => v.Rearranges v'
  | _, _ => False

/-- Two records have the same fields, and these hold the same. -/
def Record.Rearranges (r r' : Record) : Prop :=
  r.schema = r'.schema ∧
    List.Forall₂ (fun e e' => e.1 = e'.1 ∧ e.2.Rearranges e'.2) r.values r'.values

namespace Record

variable {s : Schema} {a b : Item}

/-- What is read for a field depends on the attribute of the field only. -/
theorem alike_readSlot {f : Field}
    (h : Option.Rel Wire.Rearranges (a.get? f.attributeName) (b.get? f.attributeName)) :
    Alike Error.SameKind Slot.Rearranges (readSlot a f) (readSlot b f) := by
  unfold readSlot
  generalize a.get? f.attributeName = o, b.get? f.attributeName = o' at h
  cases h with
  | none => exact .ok trivial
  | some hw => exact (Value.alike_decode hw).map fun _ _ hv => hv

theorem alike_readValues {fields : List Field}
    (h : ∀ f ∈ fields,
      Option.Rel Wire.Rearranges (a.get? f.attributeName) (b.get? f.attributeName)) :
    Alike Error.SameKind (List.Forall₂ fun e e' => e.1 = e'.1 ∧ e.2.Rearranges e'.2)
      (readValues a fields) (readValues b fields) := by
  induction fields with
  | nil => exact .ok .nil
  | cons f fields ih =>
    obtain ⟨hhead, htail⟩ := List.forall_mem_cons.mp h
    rw [readValues_cons, readValues_cons]
    exact (alike_readSlot hhead).bind fun _ _ hslot =>
      (ih htail).bind fun _ _ hrest => .ok (.cons ⟨rfl, hslot⟩ hrest)

/-- **Items that agree are read as the same record**, or both cannot be read. -/
theorem alike_ofItem (h : s.Agree a b) :
    Alike Error.SameKind Rearranges (ofItem s a) (ofItem s b) :=
  (alike_readValues h.declared).bind fun _ _ hvalues => .ok ⟨rfl, hvalues⟩

/-- If they have the very same under every declared name, nothing at all differs. -/
theorem ofItem_congr (h : ∀ f ∈ s.fields, a.get? f.attributeName = b.get? f.attributeName) :
    ofItem s a = ofItem s b := by
  rw [ofItem, ofItem, readValues_congr h]

end Record

theorem Encoding.rearranges_decode (encoding : Encoding) {w w' : Wire} (h : w.Rearranges w') :
    (encoding.decode w).Rearranges (encoding.decode w') := by
  rcases h.cases with rfl | ⟨items, items', rfl, rfl, -⟩ | ⟨entries, moved, entries', rfl, rfl, -⟩
  · exact Wire.rearranges_self _
  · exact h
  · exact h

namespace Schema

variable {s : Schema} {a b : Item}

/-- Items with the very same under every declared name agree. -/
theorem Agree.of_eq (ha : Dict.Distinct a) (hb : Dict.Distinct b)
    (h : ∀ f ∈ s.fields, a.get? f.attributeName = b.get? f.attributeName) : s.Agree a b := by
  refine ⟨ha, hb, fun f hf => ?_⟩
  rw [h f hf]
  cases b.get? f.attributeName with
  | none => exact .none
  | some w => exact .some w.rearranges_self

/-- Field maps are compared field by field: what is not declared is in neither of them. -/
theorem forall_get?_readFields {P : Option Wire → Option Wire → Prop} (hs : Field.Apart s.fields)
    (ha : Dict.Distinct a) (hb : Dict.Distinct b) (hnone : P none none)
    (h : ∀ f ∈ s.fields, P ((a.get? f.attributeName).map f.encoding.decode)
      ((b.get? f.attributeName).map f.encoding.decode)) (k : String) :
    P ((s.readFields a).get? k) ((s.readFields b).get? k) := by
  by_cases hk : ∃ f ∈ s.fields, f.name = k
  · obtain ⟨f, hf, rfl⟩ := hk
    rw [get?_readFields hs ha hf, get?_readFields hs hb hf]
    exact h f hf
  · rw [Dict.get?_eq_none_iff.mpr fun hmem => hk (mem_keys_readFields hs hmem),
      Dict.get?_eq_none_iff.mpr fun hmem => hk (mem_keys_readFields hs hmem)]
    exact hnone

/-- **The field maps of items that agree are the same.** -/
theorem rearranges_readFields (hs : Field.Apart s.fields) (h : s.Agree a b) :
    (s.readFields a).Rearranges (s.readFields b) where
  left := distinct_readFields hs h.left
  right := distinct_readFields hs h.right
  same := by
    refine forall_get?_readFields hs h.left h.right .none fun f hf => ?_
    have hsame := h.declared f hf
    generalize a.get? f.attributeName = o, b.get? f.attributeName = o' at hsame
    cases hsame with
    | none => exact .none
    | some hw => exact .some (f.encoding.rearranges_decode hw)

/-- If they have the very same under every declared name, so have the field maps. -/
theorem perm_readFields (hs : Field.Apart s.fields) (ha : Dict.Distinct a) (hb : Dict.Distinct b)
    (h : ∀ f ∈ s.fields, a.get? f.attributeName = b.get? f.attributeName) :
    (s.readFields a).Perm (s.readFields b) := by
  refine Dict.perm_of_get? (distinct_readFields hs ha) (distinct_readFields hs hb) ?_
  exact forall_get?_readFields hs ha hb rfl fun f hf => by rw [h f hf]

end Schema

/-! ### Models -/

/-- What reads neither lists nor maps takes no notice of the order of entries. -/
theorem Wire.Rearranges.leaf {α : Type} (read : Wire → Except DataError α) (what : Expectation)
    (hlist : ∀ items, read (.list items) = .error (.expected what))
    (hmap : ∀ entries, read (.map entries) = .error (.expected what)) {w w' : Wire}
    (h : w.Rearranges w') : read w = read w' := by
  rcases h.cases with rfl | ⟨_, _, rfl, rfl, -⟩ | ⟨_, _, _, rfl, rfl, -⟩
  · rfl
  · rw [hlist, hlist]
  · rw [hmap, hmap]

namespace Shape

/-- A field of a model takes no notice of the order of entries: it is no map. -/
theorem read_of_rearranges (shape : Shape) {w w' : Wire} (h : w.Rearranges w') :
    shape.read w = shape.read w' := by
  induction shape generalizing w w' with
  | bool => exact h.leaf (read .bool) .bool (fun _ => rfl) fun _ => rfl
  | integer range => exact h.leaf (read (.integer range)) .num (fun _ => rfl) fun _ => rfl
  | double => exact h.leaf (read .double) .num (fun _ => rfl) fun _ => rfl
  | text => exact h.leaf (read .text) .string (fun _ => rfl) fun _ => rfl
  | optional shape ih =>
    rcases h.cases with rfl | ⟨_, _, rfl, rfl, -⟩ | ⟨_, _, _, rfl, rfl, -⟩
    · rfl
    · simp only [read, ih h]
    · simp only [read, ih h]
  | list shape ih =>
    rcases h.cases with rfl | ⟨_, _, rfl, rfl, hitems⟩ | ⟨_, _, _, rfl, rfl, -⟩
    · rfl
    · have hmap := mapM_congr_forall₂ (hitems.imp fun _ _ hw => ih hw)
      simp only [read, elementsFor, elements, Except.bind, bind, hmap]
    · rfl
  | integerSet =>
    rcases h.cases with rfl | ⟨_, _, rfl, rfl, hitems⟩ | ⟨_, _, _, rfl, rfl, -⟩
    · rfl
    · have hmap := mapM_congr_forall₂ (hitems.imp fun _ _ hw =>
        hw.leaf (readInteger .int64) .num (fun _ => rfl) fun _ => rfl)
      simp only [read, elements, Except.bind, bind, hmap]
    · rfl
  | textSet =>
    rcases h.cases with rfl | ⟨_, _, rfl, rfl, hitems⟩ | ⟨_, _, _, rfl, rfl, -⟩
    · rfl
    · have hmap := mapM_congr_forall₂ (hitems.imp fun _ _ hw =>
        hw.leaf readText .string (fun _ => rfl) fun _ => rfl)
      simp only [read, elements, Except.bind, bind, hmap]
    · rfl

end Shape

namespace Model

variable {x y : Item}

theorem readPresent_of_rearranges (h : x.Rearranges y) (fields : List ModelField) :
    readPresent x fields = readPresent y fields := by
  induction fields with
  | nil => rfl
  | cons f fields ih =>
    have hsame := h.same f.name
    rw [readPresent, readPresent]
    generalize x.get? f.name = o, y.get? f.name = o' at hsame
    cases hsame with
    | none => exact ih
    | some hw => simp only [f.shape.read_of_rearranges hw, ih]

/-- **A model is read from a field map as a map.** -/
theorem read_of_rearranges (m : Model) (h : x.Rearranges y) : m.read x = m.read y := by
  rw [read, read, readPresent_of_rearranges h]

end Model

/-! ### Reads -/

/-- An item is read as a map, in no particular order. -/
def Item.Unordered {α : Type} (R : α → α → Prop) (load : Item → Except Error α) : Prop :=
  ∀ x y : Item, x.Rearranges y → Alike Error.SameKind R (load x) (load y)

theorem Model.unordered_read (m : Model) :
    Item.Unordered Eq fun x => (m.read x).mapError Error.data := by
  intro x y h
  show Alike _ _ ((m.read x).mapError Error.data) ((m.read y).mapError Error.data)
  rw [m.read_of_rearranges h]
  cases m.read y with
  | ok d => exact .ok rfl
  | error e => exact .error rfl

theorem Alike.caller {α β : Type} {R : α → β → Prop} {x : Except Error α} {y : Except Error β}
    (h : Alike Error.SameKind R x y) :
    Alike Failure.Same R (x.mapError Failure.caller) (y.mapError Failure.caller) := by
  cases h with
  | ok hr => exact .ok hr
  | error he => exact .error (.caller he)

/-- The store answers with items that agree, or in the same way not at all. -/
inductive Schema.AgreeResponses (s : Schema) : Response → Response → Prop
  | answer {a b : Answer} : Option.Rel s.Agree a.item b.item →
    List.Forall₂ s.Agree (a.items.getD []) (b.items.getD []) → a.lastKey = b.lastKey →
      AgreeResponses s (.answer a) (.answer b)
  | refusal {code : String} : AgreeResponses s (.refusal code) (.refusal code)
  | lost : AgreeResponses s .lost .lost

/-- Two exchanges send the same requests, and their results are alike. -/
def Exchange.Same {α β : Type} (R : α → β → Prop) (x : Exchange α) (y : Exchange β) : Prop :=
  x.requests = y.requests ∧ Alike Failure.Same R x.result y.result

section Reads

variable {s : Schema} {α : Type} {R : α → α → Prop} {read : Item → Except Error α}
  (hread : ∀ a b, s.Agree a b → Alike Error.SameKind R (read a) (read b))
include hread

/-- **A read in pages**: page by page, until one cannot be read or none is left. -/
theorem Paging.alike_run (r : Request) {responses responses' : List Response}
    (h : List.Forall₂ s.AgreeResponses responses responses') (start : Option Item) :
    ((Paging.ofItems r read).run start responses).Same (List.Forall₂ R)
      ((Paging.ofItems r read).run start responses') := by
  induction h generalizing start with
  | nil => exact ⟨rfl, .ok .nil⟩
  | @cons response response' responses responses' hresponse _ ih =>
    cases hresponse with
    | refusal => exact ⟨rfl, .error .refused⟩
    | lost => exact ⟨rfl, .error .lost⟩
    | @answer a b _ hitems hkey =>
      have honward :
          (Paging.ofItems r read).onward start b = (Paging.ofItems r read).onward start a := by
        simp only [onward, ofItems, hkey]
      have hpage : Alike Failure.Same (List.Forall₂ R)
          (Exchange.readAnswer (Paging.ofItems r read).results (.answer a))
          (Exchange.readAnswer (Paging.ofItems r read).results (.answer b)) :=
        (Alike.mapM (hitems.imp hread)).caller
      generalize hx : Exchange.readAnswer (Paging.ofItems r read).results (.answer a) = x,
        hy : Exchange.readAnswer (Paging.ofItems r read).results (.answer b) = y at hpage
      cases hpage with
      | error he =>
        rw [run_of_error hx, run_of_error hy]
        exact ⟨rfl, .error he⟩
      | ok hxs =>
        cases hnext : (Paging.ofItems r read).onward start a with
        | none =>
          rw [run_of_onward_eq_none hx hnext, run_of_onward_eq_none hy (honward.trans hnext)]
          exact ⟨rfl, .ok hxs⟩
        | some token =>
          rw [run_of_onward_eq_some hx hnext, run_of_onward_eq_some hy (honward.trans hnext)]
          obtain ⟨hrequests, hresult⟩ := ih (some token)
          refine ⟨congrArg (List.cons _) hrequests, hresult.map fun _ _ hrest => ?_⟩
          exact List.rel_append hxs hrest

/-- Reads of pages, unless the request could not be built. -/
theorem Exchange.same_allItems (request : Except Error Request)
    {responses responses' : List Response}
    (h : List.Forall₂ s.AgreeResponses responses responses') :
    (Exchange.allItems request read responses).Same (List.Forall₂ R)
      (Exchange.allItems request read responses') := by
  cases request with
  | error e => exact ⟨rfl, .error (.caller rfl)⟩
  | ok r => exact Paging.alike_run hread r h none

/-- A read of one item. -/
theorem GetItem.same_send (g : GetItem) {responses responses' : List Response}
    (h : List.Forall₂ s.AgreeResponses responses responses') :
    (g.send s read responses).Same (Option.Rel R) (g.send s read responses') := by
  unfold send Exchange.single
  cases g.request s with
  | error e => exact ⟨rfl, .error (.caller rfl)⟩
  | ok r =>
    refine ⟨rfl, ?_⟩
    show Alike _ _ (Exchange.readAnswer _ (Exchange.firstResponse responses))
      (Exchange.readAnswer _ (Exchange.firstResponse responses'))
    cases h with
    | nil => exact .ok .none
    | @cons response response' _ _ hresponse _ =>
      cases hresponse with
      | refusal => exact .error .refused
      | lost => exact .error .lost
      | @answer a b hitem _ _ =>
        show Alike _ _ ((a.item.mapM read).mapError Failure.caller)
          ((b.item.mapM read).mapError Failure.caller)
        refine Alike.caller ?_
        generalize a.item = o, b.item = o' at hitem
        cases hitem with
        | none => exact .ok .none
        | some hagree =>
          rw [Option.mapM_some, Option.mapM_some]
          exact (hread _ _ hagree).map fun _ _ => .some

end Reads

/-- Whatever items are read as, those that agree make no difference: a page can be read or not,
and reads of one item, of a partition and of a table send the same requests and have results
that are alike. -/
structure Schema.ReadsAlike {α : Type} (s : Schema) (R : α → α → Prop)
    (read : Item → Except Error α) : Prop where
  page : ∀ items items' : List Item, List.Forall₂ s.Agree items items' →
    Alike Error.SameKind (List.Forall₂ R) (items.mapM read) (items'.mapM read)
  item : ∀ (g : GetItem) (responses responses' : List Response),
    List.Forall₂ s.AgreeResponses responses responses' →
      (g.send s read responses).Same (Option.Rel R) (g.send s read responses')
  partition : ∀ (q : QueryPartition) (responses responses' : List Response),
    List.Forall₂ s.AgreeResponses responses responses' →
      (q.send s read responses).Same (List.Forall₂ R) (q.send s read responses')
  table : ∀ (q : ScanTable) (responses responses' : List Response),
    List.Forall₂ s.AgreeResponses responses responses' →
      (q.send s read responses).Same (List.Forall₂ R) (q.send s read responses')

theorem Schema.ReadsAlike.of_agree {s : Schema} {α : Type} {R : α → α → Prop}
    {read : Item → Except Error α}
    (hread : ∀ a b, s.Agree a b → Alike Error.SameKind R (read a) (read b)) :
    s.ReadsAlike R read where
  page _ _ h := Alike.mapM (h.imp hread)
  item g _ _ h := g.same_send hread h
  partition q _ _ h := Exchange.same_allItems hread (q.request s) h
  table q _ _ h := Exchange.same_allItems hread (q.request s) h

/-- **What is not declared is not read.**

Items that have the same under every declared name are read as the same record, or fail with
errors of one kind, and their field maps are the same.  So pages of such items and reads that
are answered with them are alike, for records as for everything that is read from field maps,
as long as these are read as maps. -/
theorem Schema.reads_alike {draft : SchemaDraft} {s : Schema} (hs : draft.build = .ok s) :
    (∀ a b : Item, s.Agree a b →
      Alike Error.SameKind Record.Rearranges (Record.ofItem s a) (Record.ofItem s b) ∧
        (s.readFields a).Rearranges (s.readFields b) ∧
        ((∀ f ∈ s.fields, a.get? f.attributeName = b.get? f.attributeName) →
          Record.ofItem s a = Record.ofItem s b ∧ (s.readFields a).Perm (s.readFields b))) ∧
      s.ReadsAlike Record.Rearranges (Record.ofItem s) ∧
      ∀ (α : Type) (R : α → α → Prop) (load : Item → Except Error α), Item.Unordered R load →
        s.ReadsAlike R fun item => load (s.readFields item) := by
  have hapart := SchemaDraft.apart_of_build hs
  refine ⟨fun a b h => ⟨Record.alike_ofItem h, rearranges_readFields hapart h, fun heq => ?_⟩,
    .of_agree fun _ _ h => Record.alike_ofItem h, fun α R load hload => ?_⟩
  · exact ⟨Record.ofItem_congr heq, perm_readFields hapart h.left h.right heq⟩
  · exact .of_agree fun _ _ h => hload _ _ (rearranges_readFields hapart h)

/-- Two fields are stored under each other's names.  One of the items has an attribute of an
unknown type and a text that is no number, the latter under the name of a field that is stored
under another name. -/
theorem Schema.reads_alike_swapped :
    let s : Schema := ⟨"table", none,
      [⟨"id", "id", ⟨none, some "id", []⟩, true, .native⟩,
        ⟨"b", "a", ⟨some "b", some "a", []⟩, false, .native⟩,
        ⟨"a", "b", ⟨some "a", some "b", []⟩, false, .native⟩,
        ⟨"X", "x", ⟨some "X", some "x", []⟩, false, .set⟩]⟩
    let m : Model := ⟨"model", .new "table",
      [⟨"id", .text, .refused, false⟩, ⟨"b", .optional .bool, .refused, false⟩,
        ⟨"x", .textSet, .unset, true⟩]⟩
    let known : Item := [("id", .string "1"), ("a", .bool true), ("b", .list [.null true])]
    let strange : Item := [("x", .number "one"), ("b", .list [.null true]), ("y", .unknown),
      ("a", .bool true), ("id", .string "1")]
    (∃ r, Record.ofItem s known = .ok r ∧ Record.ofItem s strange = .ok r) ∧
      ∃ ds, [strange].mapM (m.load s) = .ok ds := by
  intro s m known strange
  have hs : ((((((SchemaDraft.new "table").declareKey "id" .unnamed).declarePlain "a"
      (.named "b")).declarePlain "b" (.named "a")).declarePlain "x" (.named "X")).encode "x"
      .set).build = .ok s := rfl
  have hget : ∀ f ∈ s.fields, known.get? f.attributeName = strange.get? f.attributeName := by
    intro f hf
    simp only [s, List.mem_cons, List.not_mem_nil, or_false] at hf
    rcases hf with rfl | rfl | rfl | rfl <;> rfl
  have hagree : s.Agree known strange := .of_eq (by decide) (by decide) hget
  obtain ⟨hitems, -, hloads⟩ := reads_alike hs
  constructor
  · obtain ⟨r, hr⟩ : ∃ r, Record.ofItem s known = .ok r := ⟨_, rfl⟩
    exact ⟨r, hr, ((hitems _ _ hagree).2.2 hget).1 ▸ hr⟩
  · have hpage := (hloads _ Eq _ m.unordered_read).page [known] [strange] (.cons hagree .nil)
    exact hpage.exists_iff.mp ⟨_, rfl⟩

end ItemStore
