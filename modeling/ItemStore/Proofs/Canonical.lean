import ItemStore.Proofs.Agreement

/-!
# Values that were read

A value that was read is in a normal form: its numbers are integers of 64 bits, or finite
doubles that are none, its sequences are lists, and its sets are in order.  Such a value is
written and read back unchanged, unless it holds a set without elements, which cannot be
written.

For numbers this rests on where the two kinds meet.  A double that is no integer is not written
as one.  A double from `2 ^ 63` on is an integer that is too long for 64 bits, and so is the
integer that its digits denote, even for `2 ^ 63` itself, whose shortest digits are rounded up;
below `- 2 ^ 63` it is the same, and `- 2 ^ 63` is an integer of 64 bits.

## Main definitions

* `Number.Canonical` — integers of 64 bits, and finite doubles that are none.
* `Value.numbers` — the numbers in a value, at any depth.
* `Value.Filled` — no set in the value is empty.
* `Wire.Rearranges`, `Value.Rearranges` — equality, the entries of maps in any order.

## Main results

* `Number.readBack_of_canonical` — canonical numbers are read back unchanged.
* `Value.canonical_of_decode` — all numbers that were read are canonical.
* `Value.exists_encode_of_decode` — a value that was read is written and read back unchanged.
-/

namespace ItemStore

/-! ### Long integers -/

/-- A whole number below a power of two is not rounded above it. -/
theorem FloatFormat.nearest_le (F : FloatFormat) {num e : Nat} (h : num < 2 ^ e)
    (he : F.fractionBits < e + F.unitExponent) :
    F.nearest num 1 ≤ (e + F.unitExponent - F.fractionBits) * F.binade + F.binade := by
  have hsteps : F.steps num 1 ≤ 2 * F.binade := F.steps_le Nat.one_pos
  have hscaled : num * F.one / 1 < 2 ^ (e + F.unitExponent) := by
    rw [Nat.div_one, pow_add]
    exact Nat.mul_lt_mul_of_pos_right h F.one_pos
  have hdoublings : F.doublings num 1 + 1 ≤ e + F.unitExponent - F.fractionBits := by
    unfold doublings
    by_cases hzero : num * F.one / 1 = 0
    · rw [hzero, show Nat.log2 0 - F.fractionBits = 0 by simp]
      omega
    · have hlog := (Nat.log2_lt hzero).mpr hscaled
      omega
  rw [F.nearest_eq]
  refine Nat.le_trans (Nat.min_le_right _ _) ?_
  calc F.doublings num 1 * F.binade + F.steps num 1
      ≤ F.doublings num 1 * F.binade + 2 * F.binade := Nat.add_le_add_left hsteps _
    _ = (F.doublings num 1 + 1) * F.binade + F.binade := by ring
    _ ≤ (e + F.unitExponent - F.fractionBits) * F.binade + F.binade :=
        Nat.add_le_add_right (Nat.mul_le_mul_right _ hdoublings) _

namespace Number

/-- Integers of 64 bits, and finite doubles that are none. -/
def Canonical : Number → Prop
  | .integer _ => True
  | .float x => x.isFinite ∧
    ∀ i, IntegerRange.int64.contains i → x.scaled ≠ i * (FloatFormat.double.one : Int)

theorem canonical_float_iff {x : Double} :
    (float x).Canonical ↔ x.isFinite ∧ ofDouble x = .float x := by
  refine and_congr_right fun hx => ⟨fun hapart => ?_, fun hfloat i hi heq => ?_⟩
  · rcases ofDouble_cases x with ⟨i, hi, heq, -⟩ | hfloat
    · exact absurd heq (hapart i hi)
    · exact hfloat
  · rw [ofDouble_eq_integer hx hi heq] at hfloat
    cases hfloat

/-- Numbers that were read are canonical. -/
theorem canonical_of_ofText? {text : String} {n : Number} (h : ofText? text = some n) :
    n.Canonical := by
  rcases eq_integer_or_float h with ⟨i, rfl⟩ | ⟨x, rfl, hx, hfloat⟩
  · trivial
  · exact canonical_float_iff.mpr ⟨hx, hfloat⟩

theorem exists_text_of_canonical {n : Number} (h : n.Canonical) : ∃ text, n.text? = some text := by
  cases n with
  | integer i => exact ⟨_, rfl⟩
  | float x => exact ⟨x.plainText, if_pos h.1⟩

/-- The code of `2 ^ 63`. -/
def longCode : Nat := 0x43e0000000000000

/-- An integer that is too long for 64 bits is written as such a one. -/
theorem writtenInt?_of_long {x : Double} (hx : (float x).Canonical) {m : Int}
    (hm : x.scaled = m * (FloatFormat.double.one : Int)) : x.writtenInt? .int64 = none := by
  obtain ⟨hfinite, hapart⟩ := hx
  have hcode := BinaryFloat.code_lt_infinity hfinite
  have hout : ¬ (IntegerRange.int64.least ≤ m ∧ m ≤ IntegerRange.int64.greatest) := fun h =>
    hapart m (IntegerRange.contains_iff.mpr h) hm
  have hlong : 2 ^ 63 ≤ m.natAbs := by
    change ¬ (-9223372036854775808 ≤ m ∧ m ≤ 9223372036854775807) at hout
    omega
  cases hwritten : x.writtenInt? .int64 with
  | none => rfl
  | some i =>
    obtain ⟨hnearest, -⟩ := BinaryFloat.nearest_of_writtenInt? (by decide) hfinite hwritten
    have hrange := IntegerRange.contains_iff.mp (x.contains_of_writtenInt? hwritten)
    change -9223372036854775808 ≤ i ∧ i ≤ 9223372036854775807 at hrange
    -- The least integer of 64 bits is a double, and a number that is written as it is that one.
    have hshort : i.natAbs < 2 ^ 63 := by
      by_contra hge
      obtain rfl : i = -9223372036854775808 := by omega
      have hscaled : (BinaryFloat.ofCode true longCode : Double).scaled =
          -9223372036854775808 * (FloatFormat.double.one : Int) := by decide +kernel
      exact hapart _ (by decide)
        (BinaryFloat.scaled_eq_of_writtenInt? (by decide) hfinite (by decide) hwritten hscaled)
    -- So the number lies between what is longer and what is shorter.
    have hge : longCode ≤ x.code := by
      have hself : FloatFormat.double.nearest m.natAbs 1 = x.code :=
        FloatFormat.double.nearest_eq_of_units Nat.one_pos hcode.le
          (by rw [Nat.mul_one, BinaryFloat.units_eq_natAbs_mul hm])
      have hle := FloatFormat.double.le_nearest hlong (by decide)
      rw [hself] at hle
      exact hle
    have hle : x.code ≤ longCode := by
      have hle := FloatFormat.double.nearest_le hshort (by decide)
      rw [hnearest] at hle
      exact hle
    have hself : x = .ofCode x.negative longCode := by
      rw [← x.ofCode_self, Nat.le_antisymm hle hge]
      rfl
    cases hnegative : x.negative with
    | true =>
      rw [hnegative] at hself
      subst hself
      exact absurd (by decide +kernel) (hapart (-9223372036854775808) (by decide))
    | false =>
      rw [hnegative] at hself
      subst hself
      have hnone : (BinaryFloat.ofCode false longCode : Double).writtenInt? .int64 = none := by
        decide +kernel
      rw [hnone] at hwritten
      cases hwritten

/-- **Canonical numbers are read back unchanged.** -/
theorem readBack_of_canonical {n : Number} (h : n.Canonical) : n.readBack = n := by
  cases n with
  | integer i => rfl
  | float x =>
    obtain ⟨hfinite, hfloat⟩ := canonical_float_iff.mp h
    have hwritten : x.writtenInt? .int64 = none := by
      cases hint : x.toInt? with
      | none => exact BinaryFloat.writtenInt?_eq_none hfinite hint
      | some m => exact writtenInt?_of_long h (BinaryFloat.toInt?_eq_some_iff.mp hint).2
    simp only [readBack, hwritten, hfloat]

end Number

/-! ### Numbers in a value -/

namespace Value

mutual

/-- The numbers in a value, at any depth. -/
def numbers : Value → List Number
  | .number n => [n]
  | .numberSet s => s.elements
  | .list items => numbersOfItems items
  | .tuple items => numbersOfItems items
  | .map entries => numbersOfEntries entries
  | _ => []

/-- The numbers of all items. -/
def numbersOfItems : List Value → List Number
  | [] => []
  | v :: vs => numbers v ++ numbersOfItems vs

/-- The numbers of the values of all entries. -/
def numbersOfEntries : List (String × Value) → List Number
  | [] => []
  | (_, v) :: entries => numbers v ++ numbersOfEntries entries

end

/-- A value whose numbers, at any depth, are canonical. -/
def Canonical (v : Value) : Prop := ∀ n ∈ v.numbers, n.Canonical

mutual

/-- No set in the value is empty. -/
def Filled : Value → Prop
  | .stringSet s => s.isEmpty = false
  | .numberSet s => s.isEmpty = false
  | .binarySet s => s.isEmpty = false
  | .list items => FilledItems items
  | .tuple items => FilledItems items
  | .map entries => FilledEntries entries
  | _ => True

/-- No set in the items is empty. -/
def FilledItems : List Value → Prop
  | [] => True
  | v :: vs => Filled v ∧ FilledItems vs

/-- No set in the values of the entries is empty. -/
def FilledEntries : List (String × Value) → Prop
  | [] => True
  | (_, v) :: entries => Filled v ∧ FilledEntries entries

end

theorem canonical_of_mapM {texts : List String} {numbers : List Number}
    (h : texts.mapM decodeNumber = .ok numbers) : ∀ n ∈ numbers, n.Canonical := by
  intro n hn
  obtain ⟨text, -, hread⟩ := (mem_of_mapM h).mp hn
  exact Number.canonical_of_ofText? (decodeNumber_eq_ok.mp hread)

mutual

/-- **All numbers that were read are canonical.** -/
theorem canonical_of_decode : ∀ {w : Wire} {v : Value}, decode w = .ok v → v.Canonical
  | .null _, v, h | .bool _, v, h | .string _, v, h | .bytes _, v, h | .stringSet _, v, h
  | .binarySet _, v, h => by
    cases h
    intro n hn
    cases hn
  | .number text, v, h => by
    obtain ⟨n, hn, rfl⟩ := map_eq_ok.mp h
    exact List.forall_mem_singleton.mpr (Number.canonical_of_ofText? (decodeNumber_eq_ok.mp hn))
  | .numberSet texts, v, h => by
    rw [decode] at h
    obtain ⟨numbers, hnumbers, hv⟩ := bind_eq_ok.mp h
    obtain rfl := pure_eq_ok.mp hv
    intro n hn
    exact canonical_of_mapM hnumbers n (SortedSet.mem_of_mem_ofList hn)
  | .list items, v, h => by
    obtain ⟨vs, hvs, rfl⟩ := map_eq_ok.mp h
    exact canonical_of_decodeItems hvs
  | .map entries, v, h => by
    obtain ⟨vs, hvs, rfl⟩ := map_eq_ok.mp h
    exact canonical_of_decodeEntries hvs

theorem canonical_of_decodeItems : ∀ {ws : List Wire} {vs : List Value},
    decodeItems ws = .ok vs → ∀ n ∈ numbersOfItems vs, n.Canonical
  | [], vs, h => by
    cases h
    intro n hn
    cases hn
  | w :: ws, vs, h => by
    rw [decodeItems] at h
    obtain ⟨v, hv, htail⟩ := bind_eq_ok.mp h
    obtain ⟨rest, hrest, hvs⟩ := bind_eq_ok.mp htail
    obtain rfl := pure_eq_ok.mp hvs
    exact List.forall_mem_append.mpr ⟨canonical_of_decode hv, canonical_of_decodeItems hrest⟩

theorem canonical_of_decodeEntries : ∀ {ws : List (String × Wire)} {vs : List (String × Value)},
    decodeEntries ws = .ok vs → ∀ n ∈ numbersOfEntries vs, n.Canonical
  | [], vs, h => by
    cases h
    intro n hn
    cases hn
  | (k, w) :: ws, vs, h => by
    rw [decodeEntries] at h
    obtain ⟨v, hv, htail⟩ := bind_eq_ok.mp h
    obtain ⟨rest, hrest, hvs⟩ := bind_eq_ok.mp htail
    obtain rfl := pure_eq_ok.mp hvs
    exact List.forall_mem_append.mpr ⟨canonical_of_decode hv, canonical_of_decodeEntries hrest⟩

end

mutual

/-- What was read has no tuples. -/
theorem asRead_of_decode : ∀ {w : Wire} {v : Value}, decode w = .ok v → asRead v = v
  | .null _, v, h | .bool _, v, h | .string _, v, h | .bytes _, v, h | .stringSet _, v, h
  | .binarySet _, v, h => by
    cases h
    rfl
  | .number text, v, h => by
    obtain ⟨n, -, rfl⟩ := map_eq_ok.mp h
    rfl
  | .numberSet texts, v, h => by
    rw [decode] at h
    obtain ⟨numbers, -, hv⟩ := bind_eq_ok.mp h
    obtain rfl := pure_eq_ok.mp hv
    rfl
  | .list items, v, h => by
    obtain ⟨vs, hvs, rfl⟩ := map_eq_ok.mp h
    rw [asRead, asReadItems_of_decodeItems hvs]
  | .map entries, v, h => by
    obtain ⟨vs, hvs, rfl⟩ := map_eq_ok.mp h
    rw [asRead, asReadEntries_of_decodeEntries hvs]

theorem asReadItems_of_decodeItems : ∀ {ws : List Wire} {vs : List Value},
    decodeItems ws = .ok vs → asReadItems vs = vs
  | [], vs, h => by
    cases h
    rfl
  | w :: ws, vs, h => by
    rw [decodeItems] at h
    obtain ⟨v, hv, htail⟩ := bind_eq_ok.mp h
    obtain ⟨rest, hrest, hvs⟩ := bind_eq_ok.mp htail
    obtain rfl := pure_eq_ok.mp hvs
    rw [asReadItems, asRead_of_decode hv, asReadItems_of_decodeItems hrest]

theorem asReadEntries_of_decodeEntries : ∀ {ws : List (String × Wire)}
    {vs : List (String × Value)}, decodeEntries ws = .ok vs → asReadEntries vs = vs
  | [], vs, h => by
    cases h
    rfl
  | (k, w) :: ws, vs, h => by
    rw [decodeEntries] at h
    obtain ⟨v, hv, htail⟩ := bind_eq_ok.mp h
    obtain ⟨rest, hrest, hvs⟩ := bind_eq_ok.mp htail
    obtain rfl := pure_eq_ok.mp hvs
    rw [asReadEntries, asRead_of_decode hv, asReadEntries_of_decodeEntries hrest]

end

/-! ### Reading back what can be read -/

/-- A set whose numbers are read back unchanged is so itself. -/
theorem readBack_numberSet {s : SortedSet Number} (h : ∀ n ∈ s.elements, n.readBack = n) :
    readBack (.numberSet s) = .numberSet s := by
  have hmap : s.elements.map Number.readBack = s.elements :=
    (List.map_congr_left h).trans (List.map_id _)
  rw [readBack, hmap, SortedSet.ofList_elements]

mutual

/-- Values with canonical numbers are read back unchanged, up to their tuples. -/
theorem readBack_of_canonical : ∀ {v : Value}, v.Canonical → readBack v = asRead v
  | .null, _ | .bool _, _ | .string _, _ | .bytes _, _ | .stringSet _, _ | .binarySet _, _ => rfl
  | .number _, h =>
    congrArg Value.number (Number.readBack_of_canonical (List.forall_mem_singleton.mp h))
  | .numberSet _, h => readBack_numberSet fun n hn => Number.readBack_of_canonical (h n hn)
  | .list _, h => congrArg Value.list (readBackItems_of_canonical h)
  | .tuple _, h => congrArg Value.list (readBackItems_of_canonical h)
  | .map _, h => congrArg Value.map (readBackEntries_of_canonical h)

theorem readBackItems_of_canonical : ∀ {items : List Value},
    (∀ n ∈ numbersOfItems items, n.Canonical) → readBackItems items = asReadItems items
  | [], _ => rfl
  | v :: vs, h => by
    obtain ⟨hv, hvs⟩ := List.forall_mem_append.mp h
    rw [readBackItems, readBack_of_canonical hv, readBackItems_of_canonical hvs, asReadItems]

theorem readBackEntries_of_canonical : ∀ {entries : List (String × Value)},
    (∀ n ∈ numbersOfEntries entries, n.Canonical) →
    readBackEntries entries = asReadEntries entries
  | [], _ => rfl
  | (k, v) :: entries, h => by
    obtain ⟨hv, hvs⟩ := List.forall_mem_append.mp h
    rw [readBackEntries, readBack_of_canonical hv, readBackEntries_of_canonical hvs,
      asReadEntries]

end

mutual

/-- Values without an empty set can be written if all their numbers have a text. -/
theorem exists_encode_of_texts : ∀ {v : Value}, (∀ n ∈ v.numbers, ∃ text, n.text? = some text) →
    v.Filled → ∃ w, encode v = .ok w
  | .null, _, _ | .bool _, _, _ | .string _, _, _ | .bytes _, _, _ => ⟨_, rfl⟩
  | .number n, h, _ => by
    obtain ⟨text, htext⟩ := List.forall_mem_singleton.mp h
    exact ⟨.number text, map_eq_ok.mpr ⟨text, encodeNumber_eq_ok.mpr htext, rfl⟩⟩
  | .stringSet s, _, hfilled =>
    ⟨.stringSet s.elements, map_eq_ok.mpr ⟨_, encodeElements_of_isEmpty hfilled, rfl⟩⟩
  | .binarySet s, _, hfilled =>
    ⟨.binarySet s.elements, map_eq_ok.mpr ⟨_, encodeElements_of_isEmpty hfilled, rfl⟩⟩
  | .numberSet s, h, hfilled => by
    obtain ⟨texts, htexts, -⟩ := exists_mapM_encodeNumber h
    exact ⟨.numberSet texts, bind_eq_ok.mpr
      ⟨_, encodeElements_of_isEmpty hfilled, bind_eq_ok.mpr ⟨texts, htexts, rfl⟩⟩⟩
  | .list items, h, hfilled => by
    obtain ⟨ws, hws⟩ := exists_encodeItems_of_texts h hfilled
    exact ⟨.list ws, map_eq_ok.mpr ⟨ws, hws, rfl⟩⟩
  | .tuple items, h, hfilled => by
    obtain ⟨ws, hws⟩ := exists_encodeItems_of_texts h hfilled
    exact ⟨.list ws, map_eq_ok.mpr ⟨ws, hws, rfl⟩⟩
  | .map entries, h, hfilled => by
    obtain ⟨ws, hws⟩ := exists_encodeEntries_of_texts h hfilled
    exact ⟨.map ws, map_eq_ok.mpr ⟨ws, hws, rfl⟩⟩

theorem exists_encodeItems_of_texts : ∀ {items : List Value},
    (∀ n ∈ numbersOfItems items, ∃ text, n.text? = some text) → FilledItems items →
    ∃ ws, encodeItems items = .ok ws
  | [], _, _ => ⟨[], rfl⟩
  | v :: vs, h, ⟨hfilled, hrest⟩ => by
    obtain ⟨hv, hvs⟩ := List.forall_mem_append.mp h
    obtain ⟨w, hw⟩ := exists_encode_of_texts hv hfilled
    obtain ⟨ws, hws⟩ := exists_encodeItems_of_texts hvs hrest
    exact ⟨w :: ws, bind_eq_ok.mpr ⟨w, hw, bind_eq_ok.mpr ⟨ws, hws, rfl⟩⟩⟩

theorem exists_encodeEntries_of_texts : ∀ {entries : List (String × Value)},
    (∀ n ∈ numbersOfEntries entries, ∃ text, n.text? = some text) → FilledEntries entries →
    ∃ ws, encodeEntries entries = .ok ws
  | [], _, _ => ⟨[], rfl⟩
  | (k, v) :: entries, h, ⟨hfilled, hrest⟩ => by
    obtain ⟨hv, hvs⟩ := List.forall_mem_append.mp h
    obtain ⟨w, hw⟩ := exists_encode_of_texts hv hfilled
    obtain ⟨ws, hws⟩ := exists_encodeEntries_of_texts hvs hrest
    exact ⟨(k, w) :: ws, bind_eq_ok.mpr ⟨w, hw, bind_eq_ok.mpr ⟨ws, hws, rfl⟩⟩⟩

end

/-- Values with canonical numbers and without an empty set can be written. -/
theorem exists_encode {v : Value} (h : v.Canonical) (hfilled : v.Filled) :
    ∃ w, encode v = .ok w :=
  exists_encode_of_texts (fun n hn => Number.exists_text_of_canonical (h n hn)) hfilled

end Value

/-! ### Maps in any order -/

namespace Wire

mutual

/-- The second wire value is the first, with the entries of its maps in any order. -/
def Rearranges : Wire → Wire → Prop
  | .list items, .list items' => RearrangesItems items items'
  | .map entries, .map entries' =>
    ∃ moved, RearrangesEntries entries moved ∧ moved.Perm entries'
  | w, w' => w = w'

/-- Item by item. -/
def RearrangesItems : List Wire → List Wire → Prop
  | [], [] => True
  | w :: ws, w' :: ws' => Rearranges w w' ∧ RearrangesItems ws ws'
  | _, _ => False

/-- Entry by entry. -/
def RearrangesEntries : List (String × Wire) → List (String × Wire) → Prop
  | [], [] => True
  | (k, w) :: entries, (k', w') :: entries' =>
    k = k' ∧ Rearranges w w' ∧ RearrangesEntries entries entries'
  | _, _ => False

end

end Wire

namespace Value

mutual

/-- The second value is the first, with the entries of its maps in any order. -/
def Rearranges : Value → Value → Prop
  | .list items, .list items' => RearrangesItems items items'
  | .tuple items, .tuple items' => RearrangesItems items items'
  | .map entries, .map entries' =>
    ∃ moved, RearrangesEntries entries moved ∧ moved.Perm entries'
  | v, v' => v = v'

/-- Item by item. -/
def RearrangesItems : List Value → List Value → Prop
  | [], [] => True
  | v :: vs, v' :: vs' => Rearranges v v' ∧ RearrangesItems vs vs'
  | _, _ => False

/-- Entry by entry. -/
def RearrangesEntries : List (String × Value) → List (String × Value) → Prop
  | [], [] => True
  | (k, v) :: entries, (k', v') :: entries' =>
    k = k' ∧ Rearranges v v' ∧ RearrangesEntries entries entries'
  | _, _ => False

end

/-- Entries in another order are read in that order. -/
theorem exists_decodeEntries_of_perm {ws ws' : List (String × Wire)} (h : ws.Perm ws') :
    ∀ {vs : List (String × Value)}, decodeEntries ws = .ok vs →
      ∃ vs', decodeEntries ws' = .ok vs' ∧ vs.Perm vs' := by
  induction h with
  | nil => exact fun hvs => ⟨_, hvs, .rfl⟩
  | @cons e ws ws' _ ih =>
    obtain ⟨k, w⟩ := e
    intro vs hvs
    rw [decodeEntries] at hvs
    obtain ⟨v, hv, htail⟩ := bind_eq_ok.mp hvs
    obtain ⟨rest, hrest, hvs⟩ := bind_eq_ok.mp htail
    obtain rfl := pure_eq_ok.mp hvs
    obtain ⟨rest', hrest', hperm⟩ := ih hrest
    exact ⟨(k, v) :: rest', bind_eq_ok.mpr ⟨v, hv, bind_eq_ok.mpr ⟨rest', hrest', rfl⟩⟩,
      hperm.cons _⟩
  | swap e e' ws =>
    obtain ⟨k, w⟩ := e
    obtain ⟨k', w'⟩ := e'
    intro vs hvs
    rw [decodeEntries] at hvs
    obtain ⟨v', hv', htail⟩ := bind_eq_ok.mp hvs
    obtain ⟨tail, htails, hvs⟩ := bind_eq_ok.mp htail
    obtain rfl := pure_eq_ok.mp hvs
    rw [decodeEntries] at htails
    obtain ⟨v, hv, hrests⟩ := bind_eq_ok.mp htails
    obtain ⟨rest, hrest, htails⟩ := bind_eq_ok.mp hrests
    obtain rfl := pure_eq_ok.mp htails
    refine ⟨(k, v) :: (k', v') :: rest, ?_, .swap ..⟩
    refine bind_eq_ok.mpr ⟨v, hv, bind_eq_ok.mpr ⟨(k', v') :: rest, ?_, rfl⟩⟩
    exact bind_eq_ok.mpr ⟨v', hv', bind_eq_ok.mpr ⟨rest, hrest, rfl⟩⟩
  | trans _ _ ih ih' =>
    intro vs hvs
    obtain ⟨vs', hvs', hperm⟩ := ih hvs
    obtain ⟨vs'', hvs'', hperm'⟩ := ih' hvs'
    exact ⟨vs'', hvs'', hperm.trans hperm'⟩

mutual

/-- A rearranged wire value is read as the rearranged value. -/
theorem exists_decode_of_rearranges : ∀ {w w' : Wire} {v : Value}, w.Rearranges w' →
    decode w = .ok v → ∃ v', decode w' = .ok v' ∧ v.Rearranges v'
  | .list items, w', v, h, hv => by
    obtain ⟨vs, hvs, rfl⟩ := map_eq_ok.mp hv
    cases w' with
    | list items' =>
      obtain ⟨vs', hvs', hrest⟩ := exists_decodeItems_of_rearranges h hvs
      exact ⟨.list vs', map_eq_ok.mpr ⟨vs', hvs', rfl⟩, hrest⟩
    | _ => cases h
  | .map entries, w', v, h, hv => by
    obtain ⟨vs, hvs, rfl⟩ := map_eq_ok.mp hv
    cases w' with
    | map entries' =>
      obtain ⟨moved, hmoved, hperm⟩ := h
      obtain ⟨us, hus, hrest⟩ := exists_decodeEntries_of_rearranges hmoved hvs
      obtain ⟨us', hus', hperm'⟩ := exists_decodeEntries_of_perm hperm hus
      exact ⟨.map us', map_eq_ok.mpr ⟨us', hus', rfl⟩, us, hrest, hperm'⟩
    | _ => cases h
  | .null _, w', v, h, hv | .bool _, w', v, h, hv | .string _, w', v, h, hv
  | .bytes _, w', v, h, hv | .stringSet _, w', v, h, hv | .binarySet _, w', v, h, hv => by
    obtain rfl : _ = w' := by simpa only [Wire.Rearranges] using h
    cases hv
    exact ⟨_, rfl, by simp only [Rearranges]⟩
  | .number _, w', v, h, hv => by
    obtain rfl : _ = w' := by simpa only [Wire.Rearranges] using h
    obtain ⟨n, -, rfl⟩ := map_eq_ok.mp hv
    exact ⟨_, hv, by simp only [Rearranges]⟩
  | .numberSet _, w', v, h, hv => by
    obtain rfl : _ = w' := by simpa only [Wire.Rearranges] using h
    refine ⟨v, hv, ?_⟩
    rw [decode] at hv
    obtain ⟨numbers, -, hv⟩ := bind_eq_ok.mp hv
    obtain rfl := pure_eq_ok.mp hv
    simp only [Rearranges]

theorem exists_decodeItems_of_rearranges : ∀ {ws ws' : List Wire} {vs : List Value},
    Wire.RearrangesItems ws ws' → decodeItems ws = .ok vs →
    ∃ vs', decodeItems ws' = .ok vs' ∧ RearrangesItems vs vs'
  | [], [], vs, _, hvs => by
    cases hvs
    exact ⟨[], rfl, trivial⟩
  | w :: ws, w' :: ws', vs, ⟨hhead, htail⟩, hvs => by
    rw [decodeItems] at hvs
    obtain ⟨v, hv, hrests⟩ := bind_eq_ok.mp hvs
    obtain ⟨rest, hrest, hvs⟩ := bind_eq_ok.mp hrests
    obtain rfl := pure_eq_ok.mp hvs
    obtain ⟨v', hv', hhead⟩ := exists_decode_of_rearranges hhead hv
    obtain ⟨rest', hrest', htail⟩ := exists_decodeItems_of_rearranges htail hrest
    exact ⟨v' :: rest', bind_eq_ok.mpr ⟨v', hv', bind_eq_ok.mpr ⟨rest', hrest', rfl⟩⟩,
      hhead, htail⟩

theorem exists_decodeEntries_of_rearranges : ∀ {ws ws' : List (String × Wire)}
    {vs : List (String × Value)}, Wire.RearrangesEntries ws ws' → decodeEntries ws = .ok vs →
    ∃ vs', decodeEntries ws' = .ok vs' ∧ RearrangesEntries vs vs'
  | [], [], vs, _, hvs => by
    cases hvs
    exact ⟨[], rfl, trivial⟩
  | (k, w) :: ws, (_, w') :: ws', vs, ⟨hkey, hhead, htail⟩, hvs => by
    subst hkey
    rw [decodeEntries] at hvs
    obtain ⟨v, hv, hrests⟩ := bind_eq_ok.mp hvs
    obtain ⟨rest, hrest, hvs⟩ := bind_eq_ok.mp hrests
    obtain rfl := pure_eq_ok.mp hvs
    obtain ⟨v', hv', hhead⟩ := exists_decode_of_rearranges hhead hv
    obtain ⟨rest', hrest', htail⟩ := exists_decodeEntries_of_rearranges htail hrest
    exact ⟨(k, v') :: rest', bind_eq_ok.mpr ⟨v', hv', bind_eq_ok.mpr ⟨rest', hrest', rfl⟩⟩,
      rfl, hhead, htail⟩

end

/-! ### Reading is canonical -/

/-- **A value that was read is written and read back unchanged**, if it has no empty set, and
in whatever order the entries of its maps come back.  All its numbers are canonical. -/
theorem exists_encode_of_decode {w : Wire} {v : Value} (h : decode w = .ok v) :
    v.Canonical ∧ (v.Filled → ∃ w', encode v = .ok w' ∧ decode w' = .ok v ∧
      ∀ w'', w'.Rearranges w'' → ∃ v'', decode w'' = .ok v'' ∧ v.Rearranges v'') := by
  have hcanonical := canonical_of_decode h
  refine ⟨hcanonical, fun hfilled => ?_⟩
  obtain ⟨w', hw'⟩ := exists_encode hcanonical hfilled
  have hback : decode w' = .ok v := by
    rw [decode_encode hw', readBack_of_canonical hcanonical, asRead_of_decode h]
  exact ⟨w', hw', hback, fun w'' hmoved => exists_decode_of_rearranges hmoved hback⟩

/-- A whole number in notation with an exponent is read as an integer, and the numbers of a set
without repetition and in order. -/
theorem exists_encode_of_decode_list :
    ∃ w', encode (.list [.number (.integer 100),
        .number (.float (.ofCode false 0x4004000000000000)),
        .numberSet (.ofList [.integer 1, .integer 3])]) = .ok w' ∧
      decode w' = decode (.list [.number "1e2", .number "2.50", .numberSet ["3", "1.0", "1"]]) := by
  have hread : decode (.list [.number "1e2", .number "2.50", .numberSet ["3", "1.0", "1"]]) =
      .ok (.list [.number (.integer 100), .number (.float (.ofCode false 0x4004000000000000)),
        .numberSet (.ofList [.integer 1, .integer 3])]) := by
    have hhundred : Number.ofText? "1e2" = some (.integer 100) := by decide +kernel
    have hfloat : Number.ofText? "2.50" = some (.float (.ofCode false 0x4004000000000000)) := by
      decide +kernel
    have hthree : Number.ofText? "3" = some (.integer 3) := by decide +kernel
    have hone : Number.ofText? "1" = some (.integer 1) := by decide +kernel
    have hpoint : Number.ofText? "1.0" = some (.integer 1) := by decide +kernel
    have hsorted : SortedSet.ofList [Number.integer 3, .integer 1, .integer 1] =
        .ofList [.integer 1, .integer 3] := by decide +kernel
    simp only [decode, decodeItems, List.mapM_cons, List.mapM_nil, decodeNumber, hhundred, hfloat,
      hthree, hone, hpoint]
    exact congrArg (fun s => Except.ok (Value.list [_, _, .numberSet s])) hsorted
  obtain ⟨-, hwritten⟩ := exists_encode_of_decode hread
  obtain ⟨w', hw', hback, -⟩ := hwritten
    ⟨trivial, trivial, by rw [Filled]; decide +kernel, trivial⟩
  exact ⟨w', hw', hback.trans hread.symm⟩

end Value

end ItemStore
