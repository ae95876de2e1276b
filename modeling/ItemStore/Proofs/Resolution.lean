import Mathlib.Data.List.Perm.Basic
import ItemStore.Proofs.Addressing

/-!
# Primary keys that are resolved

A primary key gives values for the attributes that name an item.  A shorthand gives them in the
order of the declared keys and so must give as many; an explicit key gives each with its name, and
must give just the names that are declared.  What fits is taken to the wire value by value, and what
comes out has the declared names.  On a schema that is read through an index the declared keys are
not those of the table, so a shorthand says nothing there, and an explicit key is not looked at.

The names of an explicit key are counted and looked for, but not compared in both directions: since
no name is given or declared twice, names that are as many as the declared ones and that all of
these are among are no others.

## Main definitions

* `PrimaryKey.given` — the values of a key under their names.
* `PrimaryKey.Fits` — a key has as many values as there are declared keys, or their names.
* `FailsAs` — failing with an error of some kind.

## Main results

* `Value.kind_of_encode` — what is wrong with a value that has no wire form.
* `PrimaryKey.namesFit_iff` — counting and looking for names compares them as sets.
* `PrimaryKey.entries_of_fits`, `PrimaryKey.entries_of_not_fits` — which keys are taken.
* `PrimaryKey.resolve_cases` — what a key is resolved to, and when it is not.
-/

namespace ItemStore

/-! ### Values without a wire form -/

namespace Value

theorem kind_of_encodeNumber {n : Number} {e : Error} (h : encodeNumber n = .error e) :
    e.kind = .unsupportedValue := by
  unfold encodeNumber at h
  cases htext : n.text? with
  | some text =>
    rw [htext] at h
    cases h
  | none =>
    rw [htext] at h
    cases h
    rfl

theorem kind_of_encodeElements {α : Type} [Ord α] {s : SortedSet α} {e : Error}
    (h : encodeElements s = .error e) : e.kind = .unsupportedValue := by
  unfold encodeElements at h
  split at h
  · cases h
    rfl
  · cases h

mutual

/-- Whatever is wrong with a value, it is a value that is not supported. -/
theorem kind_of_encode : ∀ {v : Value} {e : Error}, encode v = .error e →
    e.kind = .unsupportedValue
  | .number _, _, h => kind_of_encodeNumber (map_eq_error.mp h)
  | .list _, _, h => kind_of_encodeItems (map_eq_error.mp h)
  | .tuple _, _, h => kind_of_encodeItems (map_eq_error.mp h)
  | .map _, _, h => kind_of_encodeEntries (map_eq_error.mp h)
  | .stringSet _, _, h => kind_of_encodeElements (map_eq_error.mp h)
  | .binarySet _, _, h => kind_of_encodeElements (map_eq_error.mp h)
  | .numberSet s, e, h => by
    rw [encode] at h
    rcases bind_eq_error.mp h with helements | ⟨elements, -, h⟩
    · exact kind_of_encodeElements helements
    · rcases bind_eq_error.mp h with hnumbers | ⟨texts, -, h⟩
      · obtain ⟨_, n, _, _, -, -, hn⟩ := exists_of_mapM_eq_error hnumbers
        exact kind_of_encodeNumber hn
      · cases h
  | .null, _, h | .bool _, _, h | .string _, _, h | .bytes _, _, h => by cases h

theorem kind_of_encodeItems : ∀ {items : List Value} {e : Error}, encodeItems items = .error e →
    e.kind = .unsupportedValue
  | [], _, h => by cases h
  | v :: vs, e, h => by
    rw [encodeItems] at h
    rcases bind_eq_error.mp h with hhead | ⟨w, -, h⟩
    · exact kind_of_encode hhead
    · rcases bind_eq_error.mp h with htail | ⟨ws, -, h⟩
      · exact kind_of_encodeItems htail
      · cases h

theorem kind_of_encodeEntries : ∀ {entries : List (String × Value)} {e : Error},
    encodeEntries entries = .error e → e.kind = .unsupportedValue
  | [], _, h => by cases h
  | (_, v) :: entries, e, h => by
    rw [encodeEntries] at h
    rcases bind_eq_error.mp h with hhead | ⟨w, -, h⟩
    · exact kind_of_encode hhead
    · rcases bind_eq_error.mp h with htail | ⟨ws, -, h⟩
      · exact kind_of_encodeEntries htail
      · cases h

end

/-! ### Entries on the wire -/

/-- An entry on the wire, under its name. -/
def send (p : String × Value) : Except Error (String × Wire) := do return (p.1, ← p.2.encode)

theorem send_eq_ok {p : String × Value} {e : String × Wire} :
    send p = .ok e ↔ p.1 = e.1 ∧ p.2.encode = .ok e.2 := by
  obtain ⟨name, w⟩ := e
  rw [send, bind_eq_ok]
  simp [pure_eq_ok, and_comm]

/-- Entries go to the wire one by one. -/
theorem encodeEntries_eq_mapM (entries : List (String × Value)) :
    encodeEntries entries = entries.mapM send := by
  induction entries with
  | nil => rfl
  | cons p entries ih =>
    rw [encodeEntries, List.mapM_cons, ih, send, bind_assoc]
    exact bind_congr fun _ => rfl

/-- Entries go to the wire if each of their values does. -/
theorem exists_encodeEntries_iff {entries : List (String × Value)} :
    (∃ item, encodeEntries entries = .ok item) ↔ ∀ p ∈ entries, ∃ w, p.2.encode = .ok w := by
  rw [encodeEntries_eq_mapM, exists_mapM_eq_ok]
  simp [send_eq_ok]

/-- Entries do not go to the wire if one of their values does not. -/
theorem exists_encodeEntries_eq_error_iff {entries : List (String × Value)} :
    (∃ e, encodeEntries entries = .error e) ↔ ∃ p ∈ entries, ∃ e, p.2.encode = .error e := by
  constructor
  · rintro ⟨e, h⟩
    rw [encodeEntries_eq_mapM] at h
    obtain ⟨before, p, after, -, rfl, -, hp⟩ := exists_of_mapM_eq_error h
    refine ⟨p, List.mem_append_right _ (List.mem_cons_self ..), e, ?_⟩
    rcases bind_eq_error.mp hp with hencode | ⟨w, -, hpure⟩
    · exact hencode
    · cases hpure
  · rintro ⟨p, hp, e, he⟩
    cases h : encodeEntries entries with
    | error e' => exact ⟨e', rfl⟩
    | ok item =>
      obtain ⟨w, hw⟩ := exists_encodeEntries_iff.mp ⟨item, h⟩ p hp
      rw [he] at hw
      cases hw

/-- Entries on the wire have the same names. -/
theorem keys_of_encodeEntries {entries : Dict String Value} {item : Item}
    (h : encodeEntries entries = .ok item) : Dict.keys item = Dict.keys entries := by
  rw [encodeEntries_eq_mapM, mapM_eq_ok] at h
  induction h with
  | nil => rfl
  | cons he _ ih => rw [Dict.keys_cons, Dict.keys_cons, ih, (send_eq_ok.mp he).1]

/-- Each entry is found on the wire under its name. -/
theorem get?_of_encodeEntries {entries : Dict String Value} (hentries : Dict.Distinct entries)
    {item : Item} (h : encodeEntries entries = .ok item) :
    ∀ p ∈ entries, ∃ w, p.2.encode = .ok w ∧ item.get? p.1 = some w := by
  intro p hp
  have hitem : Dict.Distinct item := by
    rw [Dict.Distinct, keys_of_encodeEntries h]
    exact hentries
  obtain ⟨w, hw⟩ := exists_encodeEntries_iff.mp ⟨item, h⟩ p hp
  rw [encodeEntries_eq_mapM] at h
  refine ⟨w, hw, Dict.get?_of_mem hitem ?_⟩
  exact (mem_of_mapM h).mpr ⟨p, hp, send_eq_ok.mpr ⟨rfl, hw⟩⟩

/-- Entries in another order go to the wire in that order. -/
theorem exists_encodeEntries_of_perm {entries entries' : List (String × Value)} {item : Item}
    (hperm : entries'.Perm entries) (h : encodeEntries entries = .ok item) :
    ∃ item', encodeEntries entries' = .ok item' ∧ item'.Perm item := by
  rw [encodeEntries_eq_mapM, mapM_eq_ok] at h
  obtain ⟨item', hitem', hmoved⟩ := List.perm_comp_forall₂ hperm h
  refine ⟨item', ?_, hmoved⟩
  rw [encodeEntries_eq_mapM, mapM_eq_ok]
  exact hitem'

end Value

/-! ### Keys that fit a schema -/

/-- A step fails with an error of a kind. -/
def FailsAs {α : Type} (kind : Error.Kind) (step : Except Error α) : Prop :=
  ∃ e, step = .error e ∧ e.kind = kind

namespace PrimaryKey

/-- Whether the key has values without names. -/
def isShorthand : PrimaryKey → Bool
  | .partition _ => true
  | .composite _ _ => true
  | .explicit _ => false

/-- The values of a key under their names, those of a shorthand in the order of the declared
keys: first the partition key, then the sort key. -/
def given (s : Schema) : PrimaryKey → Dict String Value
  | .partition value => s.keyNames.zip [value]
  | .composite first second => s.keyNames.zip [first, second]
  | .explicit entries => entries

/-- A shorthand has as many values as there are declared keys, and an explicit key has the names of
the declared keys and no others. -/
def Fits (s : Schema) : PrimaryKey → Prop
  | .partition _ => s.keyNames.length = 1
  | .composite _ _ => s.keyNames.length = 2
  | .explicit entries => ∀ name, name ∈ Dict.keys entries ↔ name ∈ s.keyNames

/-- An explicit key gives no name twice. -/
def WellFormed : PrimaryKey → Prop
  | .explicit entries => Dict.Distinct entries
  | _ => True

section Names

variable {s : Schema} {entries : Dict String Value} (hnames : s.keyNames.Nodup)
  (hentries : Dict.Distinct entries)
include hnames hentries

theorem keys_perm_keyNames (h : ∀ name, name ∈ Dict.keys entries ↔ name ∈ s.keyNames) :
    (Dict.keys entries).Perm s.keyNames :=
  (List.perm_ext_iff_of_nodup hentries hnames).mpr h

/-- **Counting the names and looking for the declared ones compares them as sets.** -/
theorem namesFit_iff (hkeys : s.keyNames ≠ []) :
    namesFit s entries ↔ ∀ name, name ∈ Dict.keys entries ↔ name ∈ s.keyNames := by
  have hempty : s.keyNames.isEmpty = false := List.isEmpty_eq_false_iff.mpr hkeys
  have hlength : entries.length = (Dict.keys entries).length := (List.length_map ..).symm
  rw [namesFit, hempty, Bool.false_or, Bool.and_eq_true, beq_iff_eq, List.all_eq_true, hlength]
  simp only [Dict.contains_iff]
  constructor
  · rintro ⟨hcount, hfound⟩
    -- All declared names are found, and there is no room for another.
    have hperm : s.keyNames.Perm (Dict.keys entries) := by
      apply (List.subperm_of_subset hnames hfound).perm_of_length_le
      rw [hcount]
    intro name
    exact hperm.symm.mem_iff
  · intro h
    have hperm := keys_perm_keyNames hnames hentries h
    refine ⟨hperm.length_eq, ?_⟩
    intro name hname
    exact (h name).mpr hname

end Names

variable {s : Schema}

/-- A shorthand is taken if it has as many values as there are declared keys. -/
theorem nameShorthand_of_length_ne (hindex : s.index = none) {values : List Value}
    (h : s.keyNames.length ≠ values.length) : FailsAs .invalidKey (nameShorthand s values) := by
  refine ⟨.shorthandMismatch values.length s.table s.keyNames, ?_, rfl⟩
  simp only [nameShorthand, hindex, if_neg h]

theorem nameShorthand_of_index {index : String} (hindex : s.index = some index)
    (values : List Value) :
    nameShorthand s values = .error (.shorthandOnIndex s.table index) := by
  simp only [nameShorthand, hindex]

section NoIndex

variable (hindex : s.index = none) (hnames : s.keyNames.Nodup) (hkeys : s.keyNames ≠ [])
  {key : PrimaryKey} (hkey : key.WellFormed)
include hindex hnames hkeys hkey

/-- **A key that fits is taken with its names.** -/
theorem entries_of_fits (h : key.Fits s) : key.entries s = .ok (key.given s) := by
  cases key with
  | partition value => exact nameShorthand_eq hindex h
  | composite first second => exact nameShorthand_eq hindex h
  | explicit entries =>
    have hfit : namesFit s entries := (namesFit_iff hnames hkey hkeys).mpr h
    rw [PrimaryKey.entries, hfit, Bool.or_true, if_pos rfl]
    rfl

/-- **A key that does not fit is refused.** -/
theorem entries_of_not_fits (h : ¬ key.Fits s) : FailsAs .invalidKey (key.entries s) := by
  cases key with
  | partition value => exact nameShorthand_of_length_ne hindex h
  | composite first second => exact nameShorthand_of_length_ne hindex h
  | explicit entries =>
    have hfit : ¬ namesFit s entries := fun hfit => h ((namesFit_iff hnames hkey hkeys).mp hfit)
    refine ⟨.keyMismatch s.keyNames s.table (Dict.keys entries), ?_, rfl⟩
    rw [PrimaryKey.entries, hindex]
    exact if_neg (by simpa using hfit)

omit hindex hkeys in
/-- A key that fits gives each declared name one value. -/
theorem keys_given_perm (h : key.Fits s) : (Dict.keys (key.given s)).Perm s.keyNames := by
  have hzip : ∀ values : List Value, s.keyNames.length = values.length →
      Dict.keys (s.keyNames.zip values) = s.keyNames := fun values hlength =>
    List.map_fst_zip hlength.le
  cases key with
  | partition value => exact .of_eq (hzip [value] h)
  | composite first second => exact .of_eq (hzip [first, second] h)
  | explicit entries => exact keys_perm_keyNames hnames hkey h

/-- A key that fits is taken to the wire value by value. -/
theorem resolve_of_fits (h : key.Fits s) :
    key.resolve s = Value.encodeEntries (key.given s) := by
  rw [resolve, entries_of_fits hindex hnames hkeys hkey h]
  rfl

/-- A key fails as one that does not fit just when it does not fit. -/
theorem failsAs_invalidKey_iff : FailsAs .invalidKey (key.resolve s) ↔ ¬ key.Fits s := by
  constructor
  · rintro ⟨e, he, hkind⟩ hfits
    rw [resolve_of_fits hindex hnames hkeys hkey hfits] at he
    rw [Value.kind_of_encodeEntries he] at hkind
    cases hkind
  · intro h
    obtain ⟨e, he, hkind⟩ := entries_of_not_fits hindex hnames hkeys hkey h
    exact ⟨e, bind_eq_error.mpr (.inl he), hkind⟩

/-- What a key is resolved to has the declared names, and under each the value that was given. -/
theorem declared_of_resolve {item : Item} (h : key.resolve s = .ok item) :
    Dict.Distinct item ∧ (Dict.keys item).Perm s.keyNames ∧
      ∀ p ∈ key.given s, ∃ w, p.2.encode = .ok w ∧ item.get? p.1 = some w := by
  have hfits : key.Fits s := by
    by_contra hnot
    obtain ⟨e, he, -⟩ := (failsAs_invalidKey_iff hindex hnames hkeys hkey).mpr hnot
    rw [h] at he
    cases he
  rw [resolve_of_fits hindex hnames hkeys hkey hfits] at h
  have hgiven := keys_given_perm hnames hkey hfits
  have hdistinct : Dict.Distinct (key.given s) := hgiven.nodup_iff.mpr hnames
  have hitem := Value.keys_of_encodeEntries h
  refine ⟨?_, ?_, Value.get?_of_encodeEntries hdistinct h⟩
  · rw [Dict.Distinct, hitem]
    exact hdistinct
  · rw [hitem]
    exact hgiven

/-- The names may be spelled out in any order. -/
theorem resolve_explicit_of_perm (hfits : key.Fits s) {entries : Dict String Value}
    (hperm : entries.Perm (key.given s)) :
    (∀ item, key.resolve s = .ok item →
        ∃ item', (explicit entries).resolve s = .ok item' ∧ item'.Perm item) ∧
      ∀ e, key.resolve s = .error e →
        ∃ e', (explicit entries).resolve s = .error e' ∧ e'.kind = e.kind := by
  have hgiven := keys_given_perm hnames hkey hfits
  have hmoved : (Dict.keys entries).Perm s.keyNames := (hperm.map Prod.fst).trans hgiven
  have hentries : (explicit entries).WellFormed := hmoved.nodup_iff.mpr hnames
  have hexplicit : (explicit entries).Fits s := fun name => hmoved.mem_iff
  rw [resolve_of_fits hindex hnames hkeys hkey hfits,
    resolve_of_fits hindex hnames hkeys hentries hexplicit]
  constructor
  · intro item hitem
    exact Value.exists_encodeEntries_of_perm hperm hitem
  · intro e he
    obtain ⟨p, hp, hvalue⟩ := Value.exists_encodeEntries_eq_error_iff.mp ⟨e, he⟩
    obtain ⟨e', he'⟩ :=
      Value.exists_encodeEntries_eq_error_iff.mpr ⟨p, hperm.mem_iff.mpr hp, hvalue⟩
    refine ⟨e', he', ?_⟩
    exact (Value.kind_of_encodeEntries he').trans (Value.kind_of_encodeEntries he).symm

end NoIndex

/-- **What a key is resolved to, and when it is not.**

On a schema that is read through an index a shorthand is refused, and an explicit key is taken to
the wire as it is.  On any other schema that declares keys:
* a key is refused as one that does not fit just when a shorthand has another number of values than
  there are declared keys, or an explicit key other names;
* a key that fits fails just when one of its values has no wire form;
* what a key is resolved to has the declared names and no others, and under each the wire form of
  the value that was given for it, a shorthand's in the order of the declared keys;
* a shorthand may be spelled out with the declared names in any order: the explicit key is resolved
  to the same attributes, and fails alike if the shorthand fails. -/
theorem resolve_cases {draft : SchemaDraft} (hs : draft.build = .ok s) {key : PrimaryKey}
    (hkey : key.WellFormed) :
    (∀ index, s.index = some index →
      (key.isShorthand → FailsAs .invalidKey (key.resolve s)) ∧
      ∀ entries, key = .explicit entries → key.resolve s = Value.encodeEntries entries) ∧
    (s.index = none → s.keyNames ≠ [] →
      (FailsAs .invalidKey (key.resolve s) ↔ ¬ key.Fits s) ∧
      (key.Fits s → ((∃ e, key.resolve s = .error e) ↔
        ∃ p ∈ key.given s, ∃ e, p.2.encode = .error e)) ∧
      (∀ item, key.resolve s = .ok item → Dict.Distinct item ∧ (Dict.keys item).Perm s.keyNames ∧
        ∀ p ∈ key.given s, ∃ w, p.2.encode = .ok w ∧ item.get? p.1 = some w) ∧
      (key.isShorthand → key.Fits s → ∀ entries : Dict String Value, entries.Perm (key.given s) →
        (∀ item, key.resolve s = .ok item →
          ∃ item', (explicit entries).resolve s = .ok item' ∧ item'.Perm item) ∧
        ∀ e, key.resolve s = .error e →
          ∃ e', (explicit entries).resolve s = .error e' ∧ e'.kind = e.kind)) := by
  have hnames : s.keyNames.Nodup :=
    (SchemaDraft.apart_of_build hs).attributes.sublist (List.filter_sublist.map _)
  constructor
  · intro index hindex
    constructor
    · intro hshort
      refine ⟨.shorthandOnIndex s.table index, ?_, rfl⟩
      cases key with
      | partition value => exact bind_eq_error.mpr (.inl (nameShorthand_of_index hindex _))
      | composite first second => exact bind_eq_error.mpr (.inl (nameShorthand_of_index hindex _))
      | explicit entries => cases hshort
    · rintro entries rfl
      rw [resolve, PrimaryKey.entries, hindex]
      rfl
  · intro hindex hkeys
    refine ⟨failsAs_invalidKey_iff hindex hnames hkeys hkey, ?_, ?_, ?_⟩
    · intro hfits
      rw [resolve_of_fits hindex hnames hkeys hkey hfits]
      exact Value.exists_encodeEntries_eq_error_iff
    · intro item hitem
      exact declared_of_resolve hindex hnames hkeys hkey hitem
    · intro _ hfits entries hperm
      exact resolve_explicit_of_perm hindex hnames hkeys hkey hfits hperm

/-- A partition and a sort key, one of them renamed; the key is spelled out with the sort key
first, and a partition key alone is refused. -/
theorem resolve_cases_composite :
    let draft := ((SchemaDraft.new "t").declareKey "id" (.named "pk")).declareKey "at" .unnamed
    let first : Value := .string "a"
    let second : Value := .number (.integer 7)
    ∃ s item item', draft.build = .ok s ∧ (composite first second).resolve s = .ok item ∧
      item.get? "pk" = some (.string "a") ∧ item.get? "at" = some (.number "7") ∧
      (explicit [("at", second), ("pk", first)]).resolve s = .ok item' ∧ item'.Perm item ∧
      FailsAs .invalidKey ((partition first).resolve s) := by
  intro draft first second
  let s : Schema := ⟨"t", none,
    [⟨"pk", "id", ⟨some "pk", some "id", []⟩, true, .native⟩,
      ⟨"at", "at", ⟨none, some "at", []⟩, true, .native⟩]⟩
  have hs : draft.build = .ok s := rfl
  have hnames : s.keyNames ≠ [] := List.cons_ne_nil "pk" ["at"]
  have hboth : (composite first second).WellFormed := trivial
  have hone : (partition first).WellFormed := trivial
  obtain ⟨-, hcomposite⟩ := resolve_cases hs hboth
  obtain ⟨-, hfails, hresolved, hperm⟩ := hcomposite rfl hnames
  obtain ⟨-, hpartition⟩ := resolve_cases hs hone
  have hfits : (composite first second).Fits s := rfl
  have hgiven : (composite first second).given s = [("pk", first), ("at", second)] := rfl
  have hsecond : second.encode = .ok (.number "7") := rfl
  -- Both values have a wire form.
  obtain ⟨item, hitem⟩ : ∃ item, (composite first second).resolve s = .ok item := by
    cases h : (composite first second).resolve s with
    | ok item => exact ⟨item, rfl⟩
    | error e =>
      obtain ⟨p, hp, e', he'⟩ := (hfails hfits).mp ⟨e, h⟩
      rw [hgiven] at hp
      rcases List.mem_cons.mp hp with rfl | hp
      · cases he'
      · obtain rfl := List.mem_singleton.mp hp
        rw [hsecond] at he'
        cases he'
  obtain ⟨-, -, hvalues⟩ := hresolved item hitem
  rw [hgiven] at hvalues
  obtain ⟨⟨w, hw, hpk⟩, hat⟩ := List.forall_mem_cons.mp hvalues
  obtain ⟨w', hw', hat⟩ := List.forall_mem_singleton.mp hat
  cases hw
  rw [hsecond] at hw'
  cases hw'
  obtain ⟨hexplicit, -⟩ := hperm rfl hfits [("at", second), ("pk", first)] (.swap ..)
  obtain ⟨item', hitem', hmoved⟩ := hexplicit item hitem
  refine ⟨s, item, item', hs, hitem, hpk, hat, hitem', hmoved, ?_⟩
  obtain ⟨hmismatch, -⟩ := hpartition rfl hnames
  apply hmismatch.mpr
  intro hlength
  cases hlength

end PrimaryKey

end ItemStore
