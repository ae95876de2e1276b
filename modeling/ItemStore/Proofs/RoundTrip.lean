import Mathlib.Data.List.Forall2
import Mathlib.Data.List.Nodup
import Mathlib.Data.List.Perm.Basic
import ItemStore.Value.Codec
import ItemStore.Proofs.ReadBack

/-!
# The round trip of a value

A value that can be sent comes back.  What comes back is the value as it is read, with its
tuples turned into lists, unless one of its numbers is written as another integer; then it
is a different value, no matter how deep in the value that number stands.

For the items of a list this is so item by item.  The numbers of a set may come back as
fewer numbers, or in another order, so there the two sets of places are compared: if they
are the same, no number of the set can have moved to the place of another.

## Main definitions

* `Value.readBack` — the value with every number as it is read back.
* `Value.Exact` — no number in the value is written as another integer.

## Main results

* `Number.same_readBack` — when a set of numbers comes back.
* `Value.decode_encode` — a value that can be sent is read back.
* `Value.same_readBack` — when what is read back is equal to the value.
* `Value.round_trip` — the round trip of a value.
-/

namespace ItemStore

open Std

/-! ### Sets -/

namespace SortedSet

variable {α : Type} [Ord α]

theorem same_iff {s t : SortedSet α} :
    s.same t ↔ List.Forall₂ (fun a b => compare a b = .eq) s.elements t.elements := by
  simp only [same, Bool.and_eq_true, beq_iff_eq, List.all_eq_true, List.forall₂_iff_zip]
  constructor
  · rintro ⟨hlength, hall⟩
    exact ⟨hlength, fun hmem => hall _ hmem⟩
  · rintro ⟨hlength, hall⟩
    exact ⟨hlength, fun p hp => hall hp⟩

variable [TransOrd α]

theorem same_self (s : SortedSet α) : s.same s :=
  same_iff.mpr (List.forall₂_same.mpr fun _ _ => ReflCmp.compare_self)

/-- Elements that are replaced by equal ones stay in order. -/
theorem same_ofList_map {f : α → α} {s : SortedSet α}
    (h : ∀ a ∈ s.elements, compare (f a) a = .eq) : (ofList (s.elements.map f)).same s := by
  have hascending : (s.elements.map f).Pairwise fun a b => compare a b = .lt := by
    rw [List.pairwise_map]
    refine s.ascending.imp_of_mem fun {a b} ha hb hab => ?_
    -- Equal elements may stand for each other on both sides of the comparison.
    have hfa : compare (f a) b = .lt := TransCmp.lt_of_eq_of_lt (h a ha) hab
    exact TransCmp.lt_of_lt_of_eq hfa (OrientedCmp.eq_symm (h b hb))
  rw [same_iff, elements_ofList hascending, List.forall₂_map_left_iff, List.forall₂_same]
  exact h

end SortedSet

namespace Number

theorem compare_eq_iff {a b : Number} : compare a b = .eq ↔ a.rank = b.rank := by
  rw [compare_def, LawfulEqOrd.compare_eq_iff_eq]

theorem nodup_map_rank (s : SortedSet Number) : (s.elements.map rank).Nodup := by
  rw [List.Nodup, List.pairwise_map]
  refine s.ascending.imp fun {a b} hab heq => ?_
  rw [compare_eq_iff.mpr heq] at hab
  cases hab

/-- If a set is equal to its image, the numbers are moved to each other's places. -/
theorem perm_of_same {f : Number → Number} {s : SortedSet Number}
    (h : (SortedSet.ofList (s.elements.map f)).same s) :
    (s.elements.map rank).Perm ((s.elements.map f).map rank) := by
  have hranks : (SortedSet.ofList (s.elements.map f)).elements.map rank = s.elements.map rank := by
    have hforall := SortedSet.same_iff.mp h
    simp only [compare_eq_iff] at hforall
    rwa [← List.forall₂_eq_eq_eq, List.forall₂_map_left_iff, List.forall₂_map_right_iff]
  -- Distinct places that are all taken by the image, and are as many, are its places.
  have hsubset : s.elements.map rank ⊆ (s.elements.map f).map rank := by
    rw [← hranks]
    exact List.map_subset _ fun _ hx => SortedSet.mem_of_mem_ofList hx
  refine (List.subperm_of_subset (nodup_map_rank s) hsubset).perm_of_length_le ?_
  simp only [List.length_map, Nat.le_refl]

/-- **When a set of numbers comes back.** -/
theorem same_readBack {s : SortedSet Number} (hs : ∀ n ∈ s.elements, ∃ text, n.text? = some text) :
    (SortedSet.ofList (s.elements.map readBack)).same s ↔ ∀ n ∈ s.elements, n.Exact := by
  constructor
  · intro h n hn
    have hperm := perm_of_same h
    have hnodup : ((s.elements.map readBack).map rank).Nodup :=
      hperm.nodup_iff.mp (nodup_map_rank s)
    rw [List.map_map] at hperm hnodup
    cases n with
    | integer j => trivial
    | float x =>
      intro i hi
      have hmoved : (readBack (.float x)).rank = i * (FloatFormat.double.one : Int) :=
        rank_readBack_of_writtenInt? hi
      -- Some number of the set stands where the integer that is read back stands.
      obtain ⟨z, hz, hrank⟩ : ∃ z ∈ s.elements, z.rank = i * (FloatFormat.double.one : Int) := by
        have hmem : rank (readBack (.float x)) ∈ s.elements.map rank :=
          hperm.mem_iff.mpr (List.mem_map.mpr ⟨.float x, hn, rfl⟩)
        rw [hmoved] at hmem
        exact List.mem_map.mp hmem
      cases z with
      | integer j =>
        -- An integer comes back to its own place, which no other number comes back to.
        have hback : (readBack (.integer j)).rank = (readBack (.float x)).rank := by
          rw [hmoved, ← hrank]
          rfl
        cases List.inj_on_of_nodup_map hnodup hz hn hback
      | float z =>
        have hxfinite := isFinite_of_text? (hs _ hn)
        have hzfinite := isFinite_of_text? (hs _ hz)
        exact (BinaryFloat.scaled_eq_of_writtenInt? (by decide) hxfinite hzfinite hi hrank).symm
  · intro h
    exact SortedSet.same_ofList_map fun n hn => compare_eq_iff.mpr ((rank_readBack n).mpr (h n hn))

end Number

/-! ### What is read back -/

namespace Value

mutual

/-- The value that the wire form of a value is read as. -/
def readBack : Value → Value
  | .number n => .number n.readBack
  | .list items => .list (readBackItems items)
  | .tuple items => .list (readBackItems items)
  | .numberSet s => .numberSet (.ofList (s.elements.map Number.readBack))
  | .map entries => .map (readBackEntries entries)
  | v => v

/-- `readBack` on every item. -/
def readBackItems : List Value → List Value
  | [] => []
  | v :: vs => readBack v :: readBackItems vs

/-- `readBack` on the value of every entry. -/
def readBackEntries : List (String × Value) → List (String × Value)
  | [] => []
  | (k, v) :: entries => (k, readBack v) :: readBackEntries entries

end

mutual

/-- No number in the value is written as another integer. -/
def Exact : Value → Prop
  | .number n => n.Exact
  | .list items => ExactItems items
  | .tuple items => ExactItems items
  | .numberSet s => ∀ n ∈ s.elements, n.Exact
  | .map entries => ExactEntries entries
  | _ => True

/-- Every item is exact. -/
def ExactItems : List Value → Prop
  | [] => True
  | v :: vs => Exact v ∧ ExactItems vs

/-- The value of every entry is exact. -/
def ExactEntries : List (String × Value) → Prop
  | [] => True
  | (_, v) :: entries => Exact v ∧ ExactEntries entries

end

/-! ### Numbers on the wire -/

theorem encodeNumber_eq_ok {n : Number} {text : String} :
    encodeNumber n = .ok text ↔ n.text? = some text := by
  unfold encodeNumber
  cases n.text? with
  | none => simp
  | some t => simp

theorem decodeNumber_eq_ok {text : String} {n : Number} :
    decodeNumber text = .ok n ↔ Number.ofText? text = some n := by
  unfold decodeNumber
  cases Number.ofText? text with
  | none => simp
  | some m => simp

theorem decodeNumber_of_encodeNumber {n : Number} {text : String} (h : encodeNumber n = .ok text) :
    decodeNumber text = .ok n.readBack :=
  decodeNumber_eq_ok.mpr (Number.ofText?_text? (encodeNumber_eq_ok.mp h))

theorem exists_text_of_mapM {l : List Number} {texts : List String}
    (h : l.mapM encodeNumber = .ok texts) : ∀ n ∈ l, ∃ text, n.text? = some text := by
  induction l generalizing texts with
  | nil => simp
  | cons n l ih =>
    rw [List.mapM_cons] at h
    obtain ⟨text, htext, htail⟩ := bind_eq_ok.mp h
    obtain ⟨rest, hrest, -⟩ := bind_eq_ok.mp htail
    intro m hm
    rcases List.mem_cons.mp hm with rfl | hm
    · exact ⟨text, encodeNumber_eq_ok.mp htext⟩
    · exact ih hrest m hm

theorem mapM_decodeNumber {l : List Number} {texts : List String}
    (h : l.mapM encodeNumber = .ok texts) :
    texts.mapM decodeNumber = .ok (l.map Number.readBack) := by
  induction l generalizing texts with
  | nil =>
    cases h
    rfl
  | cons n l ih =>
    rw [List.mapM_cons] at h
    obtain ⟨text, htext, htail⟩ := bind_eq_ok.mp h
    obtain ⟨rest, hrest, htexts⟩ := bind_eq_ok.mp htail
    obtain rfl := pure_eq_ok.mp htexts
    rw [List.mapM_cons, decodeNumber_of_encodeNumber htext, ih hrest]
    rfl

theorem encodeElements_eq_ok {α : Type} [Ord α] {s : SortedSet α} {l : List α}
    (h : encodeElements s = .ok l) : l = s.elements := by
  unfold encodeElements at h
  split at h
  · cases h
  · cases h
    rfl

/-! ### Values on the wire -/

mutual

/-- **A value that can be sent is read back.** -/
theorem decode_encode : ∀ {v : Value} {w : Wire}, encode v = .ok w → decode w = .ok (readBack v)
  | .null, w, h => by
    cases h
    rfl
  | .bool b, w, h => by
    cases h
    rfl
  | .number n, w, h => by
    obtain ⟨text, htext, rfl⟩ := map_eq_ok.mp h
    rw [decode, decodeNumber_of_encodeNumber htext]
    rfl
  | .string s, w, h => by
    cases h
    rfl
  | .bytes b, w, h => by
    cases h
    rfl
  | .list items, w, h => by
    obtain ⟨ws, hws, rfl⟩ := map_eq_ok.mp h
    rw [decode, decodeItems_encodeItems hws]
    rfl
  | .tuple items, w, h => by
    obtain ⟨ws, hws, rfl⟩ := map_eq_ok.mp h
    rw [decode, decodeItems_encodeItems hws]
    rfl
  | .stringSet s, w, h => by
    obtain ⟨l, hl, rfl⟩ := map_eq_ok.mp h
    obtain rfl := encodeElements_eq_ok hl
    rw [decode, SortedSet.ofList_elements]
    rfl
  | .numberSet s, w, h => by
    rw [encode] at h
    obtain ⟨l, hl, hset⟩ := bind_eq_ok.mp h
    obtain rfl := encodeElements_eq_ok hl
    obtain ⟨texts, htexts, hw⟩ := bind_eq_ok.mp hset
    obtain rfl := pure_eq_ok.mp hw
    rw [decode, mapM_decodeNumber htexts]
    rfl
  | .binarySet s, w, h => by
    obtain ⟨l, hl, rfl⟩ := map_eq_ok.mp h
    obtain rfl := encodeElements_eq_ok hl
    rw [decode, SortedSet.ofList_elements]
    rfl
  | .map entries, w, h => by
    obtain ⟨ws, hws, rfl⟩ := map_eq_ok.mp h
    rw [decode, decodeEntries_encodeEntries hws]
    rfl

theorem decodeItems_encodeItems : ∀ {items : List Value} {ws : List Wire},
    encodeItems items = .ok ws → decodeItems ws = .ok (readBackItems items)
  | [], ws, h => by
    cases h
    rfl
  | v :: vs, ws, h => by
    rw [encodeItems] at h
    obtain ⟨w, hw, htail⟩ := bind_eq_ok.mp h
    obtain ⟨rest, hrest, hws⟩ := bind_eq_ok.mp htail
    obtain rfl := pure_eq_ok.mp hws
    rw [decodeItems, decode_encode hw, decodeItems_encodeItems hrest]
    rfl

theorem decodeEntries_encodeEntries : ∀ {entries : List (String × Value)}
    {ws : List (String × Wire)},
    encodeEntries entries = .ok ws → decodeEntries ws = .ok (readBackEntries entries)
  | [], ws, h => by
    cases h
    rfl
  | (k, v) :: entries, ws, h => by
    rw [encodeEntries] at h
    obtain ⟨w, hw, htail⟩ := bind_eq_ok.mp h
    obtain ⟨rest, hrest, hws⟩ := bind_eq_ok.mp htail
    obtain rfl := pure_eq_ok.mp hws
    rw [decodeEntries, decode_encode hw, decodeEntries_encodeEntries hrest]
    rfl

end

/-! ### Equality with the value -/

theorem asRead_number (n : Number) : asRead (.number n) = .number n := rfl

theorem asRead_numberSet (s : SortedSet Number) : asRead (.numberSet s) = .numberSet s := rfl

theorem get?_asReadEntries {entries : List (String × Value)} (hd : Dict.Distinct entries)
    {k : String} {v : Value} (h : (k, v) ∈ entries) :
    Dict.get? (asReadEntries entries) k = some (asRead v) := by
  induction entries with
  | nil => cases h
  | cons e entries ih =>
    obtain ⟨k', v'⟩ := e
    rw [Dict.Distinct, Dict.keys_cons, List.nodup_cons] at hd
    rw [asReadEntries, Dict.get?_cons]
    rcases List.mem_cons.mp h with heq | hmem
    · cases heq
      rw [if_pos rfl]
    · have hne : k' ≠ k := by
        rintro rfl
        exact hd.1 (List.mem_map.mpr ⟨(k', v), hmem, rfl⟩)
      rw [if_neg hne, ih hd.2 hmem]

theorem length_readBackEntries (entries : List (String × Value)) :
    (readBackEntries entries).length = (asReadEntries entries).length := by
  induction entries with
  | nil => rfl
  | cons e entries ih => exact congrArg (· + 1) ih

mutual

/-- **When what is read back is equal to the value.** -/
theorem same_readBack : ∀ {v : Value} {w : Wire}, WellFormed v → encode v = .ok w →
    (same (readBack v) (asRead v) ↔ Exact v)
  | .null, w, _, _ => by simp [readBack, asRead, same, Exact]
  | .bool b, w, _, _ => by simp [readBack, asRead, same, Exact]
  | .number n, w, _, _ => by
    rw [readBack, asRead_number, same, beq_iff_eq, Number.compare_eq_iff, Exact,
      Number.rank_readBack]
  | .string s, w, _, _ => by simp [readBack, asRead, same, Exact]
  | .bytes b, w, _, _ => by simp [readBack, asRead, same, Exact]
  | .list items, w, hv, h => by
    obtain ⟨ws, hws, -⟩ := map_eq_ok.mp h
    rw [readBack, asRead, same, Exact]
    exact sameItems_readBack hv hws
  | .tuple items, w, hv, h => by
    obtain ⟨ws, hws, -⟩ := map_eq_ok.mp h
    rw [readBack, asRead, same, Exact]
    exact sameItems_readBack hv hws
  | .stringSet s, w, _, _ => by simp [readBack, asRead, same, Exact, SortedSet.same_self]
  | .numberSet s, w, _, h => by
    rw [encode] at h
    obtain ⟨l, hl, hset⟩ := bind_eq_ok.mp h
    obtain rfl := encodeElements_eq_ok hl
    obtain ⟨texts, htexts, -⟩ := bind_eq_ok.mp hset
    rw [readBack, asRead_numberSet, same, Exact, Number.same_readBack (exists_text_of_mapM htexts)]
  | .binarySet s, w, _, _ => by simp [readBack, asRead, same, Exact, SortedSet.same_self]
  | .map entries, w, hv, h => by
    obtain ⟨ws, hws, -⟩ := map_eq_ok.mp h
    obtain ⟨hdistinct, hentries⟩ := hv
    rw [readBack, asRead, same, Exact, length_readBackEntries, beq_self_eq_true, Bool.true_and]
    exact sameEntries_readBack hentries hws fun k v hmem => get?_asReadEntries hdistinct hmem

theorem sameItems_readBack : ∀ {items : List Value} {ws : List Wire},
    WellFormedItems items → encodeItems items = .ok ws →
    (sameItems (readBackItems items) (asReadItems items) ↔ ExactItems items)
  | [], ws, _, _ => by simp [readBackItems, asReadItems, sameItems, ExactItems]
  | v :: vs, ws, hv, h => by
    obtain ⟨hhead, htail⟩ := hv
    rw [encodeItems] at h
    obtain ⟨w, hw, hrest⟩ := bind_eq_ok.mp h
    obtain ⟨rest, hrest, -⟩ := bind_eq_ok.mp hrest
    rw [readBackItems, asReadItems, sameItems, ExactItems, Bool.and_eq_true,
      same_readBack hhead hw, sameItems_readBack htail hrest]

theorem sameEntries_readBack : ∀ {entries other : List (String × Value)}
    {ws : List (String × Wire)}, WellFormedEntries entries → encodeEntries entries = .ok ws →
    (∀ k v, (k, v) ∈ entries → Dict.get? other k = some (asRead v)) →
    (sameEntries (readBackEntries entries) other ↔ ExactEntries entries)
  | [], other, ws, _, _, _ => by simp [readBackEntries, sameEntries, ExactEntries]
  | (k, v) :: entries, other, ws, hv, h, hother => by
    obtain ⟨hhead, htail⟩ := hv
    rw [encodeEntries] at h
    obtain ⟨w, hw, hrest⟩ := bind_eq_ok.mp h
    obtain ⟨rest, hrest, -⟩ := bind_eq_ok.mp hrest
    have hget : Dict.get? other k = some (asRead v) := hother k v (List.mem_cons_self ..)
    have hothers : ∀ k v, (k, v) ∈ entries → Dict.get? other k = some (asRead v) :=
      fun k v hmem => hother k v (List.mem_cons_of_mem _ hmem)
    rw [readBackEntries, sameEntries, ExactEntries, Bool.and_eq_true, hget]
    simp only [same_readBack hhead hw, sameEntries_readBack htail hrest hothers]

end

/-- **The round trip of a value.**  A value that can be sent is read back as some value, and
that is the value with its tuples turned into lists if, and only if, no number in it is
written as another integer. -/
theorem round_trip {v : Value} {w : Wire} (hv : v.WellFormed) (h : encode v = .ok w) :
    ∃ v', decode w = .ok v' ∧ (same v' (asRead v) ↔ v.Exact) :=
  ⟨readBack v, decode_encode h, same_readBack hv h⟩

/-- A pair of the integer 5 and of a map that holds the float 2.5 comes back as a list. -/
theorem round_trip_pair :
    ∃ v', decode (.list [.number "5", .map [("a", .number "2.5")]]) = .ok v' ∧
      same v' (.list [.number (.integer 5),
        .map [("a", .number (.float (.ofCode false 0x4004000000000000)))]]) := by
  have hinteger : (Number.integer 5).text? = some "5" := by decide +kernel
  have hfloat : (Number.float (.ofCode false 0x4004000000000000)).text? = some "2.5" := by
    decide +kernel
  have hexact : (Number.float (.ofCode false 0x4004000000000000)).Exact := by decide +kernel
  obtain ⟨v', hdecode, hsame⟩ := round_trip
    (v := .tuple [.number (.integer 5),
      .map [("a", .number (.float (.ofCode false 0x4004000000000000)))]])
    (w := .list [.number "5", .map [("a", .number "2.5")]])
    (by simp [WellFormed, WellFormedItems, WellFormedEntries, Dict.Distinct])
    (by
      simp only [encode, encodeItems, encodeEntries, encodeNumber_eq_ok.mpr hinteger,
        encodeNumber_eq_ok.mpr hfloat]
      rfl)
  exact ⟨v', hdecode, hsame.mpr ⟨trivial, ⟨hexact, trivial⟩, trivial⟩⟩

/-- The number `2 ^ 63 - 1024` is written with sixteen digits and three zeros, and these are
the digits of an integer of 64 bits that is larger by 216. -/
theorem round_trip_ne :
    encode (.number (.float (.ofCode false 0x43dfffffffffffff))) =
        .ok (.number "9223372036854775000") ∧
      decode (.number "9223372036854775000") = .ok (.number (.integer 9223372036854775000)) ∧
      same (.number (.integer 9223372036854775000))
        (asRead (.number (.float (.ofCode false 0x43dfffffffffffff)))) = false := by
  have htext : (Number.float (.ofCode false 0x43dfffffffffffff)).text? =
      some "9223372036854775000" := by
    decide +kernel
  have hread : Number.ofText? "9223372036854775000" = some (.integer 9223372036854775000) := by
    decide +kernel
  refine ⟨?_, ?_, ?_⟩
  · rw [encode, encodeNumber_eq_ok.mpr htext]
    rfl
  · rw [decode, decodeNumber, hread]
    rfl
  · rw [asRead_number, same, beq_eq_false_iff_ne]
    decide +kernel

end Value

end ItemStore
