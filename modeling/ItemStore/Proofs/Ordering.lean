import ItemStore.Proofs.Canonical
import ItemStore.Proofs.Monotone

/-!
# The order of numbers and of their texts

The text of a number denotes a rational number, and numbers are compared by their values.  Two
doubles are in the order of their texts, and so are two integers.  A double that is no integer
lies between two integers that are doubles, and what is written for it does so too.  A double
that is too long for an integer of 64 bits is written beyond all of these.

What remains is a double that is an integer of 64 bits.  From `2 ^ 53` on its text may denote
another integer, above or below it.  Then it is misplaced against just those integers that lie
between the two, the ends included: they are on one side of the double, or equal to it, and on
another side of its text.

## Main definitions

* `Number.Finite` — the numbers that have a text.
* `Number.Crosses`, `Number.Misplaced` — an integer between a double and its text.

## Main results

* `Number.compare_written_iff` — two numbers are in the order of their texts if, and only if,
  neither is misplaced against the other.
* `Number.compare_texts` — the same for the texts themselves, and for the texts of a set.
-/

namespace ItemStore

namespace Number

/-- An integer, or a double that is neither infinite nor without a value. -/
def Finite : Number → Prop
  | .integer _ => True
  | .float x => x.isFinite

theorem Finite.exists_text {n : Number} (h : n.Finite) : ∃ text, n.text? = some text := by
  cases n with
  | integer i => exact ⟨_, rfl⟩
  | float x => exact ⟨x.plainText, if_pos h⟩

/-- The double is an integer of 64 bits, its text denotes another number, and the integer lies
between the two or is one of them. -/
def Crosses (i : Int64) (x : Double) : Prop :=
  ∃ k : Int64, x.scaled = k.toInt * (FloatFormat.double.one : Int) ∧
    (float x).written ≠ k.toInt ∧
    ((k.toInt : ℚ) ≤ i.toInt ∧ (i.toInt : ℚ) ≤ (float x).written ∨
      (float x).written ≤ i.toInt ∧ (i.toInt : ℚ) ≤ k.toInt)

/-- One of the numbers is an integer, and the other a double that is misplaced against it. -/
def Misplaced : Number → Number → Prop
  | .integer i, .float x => Crosses i x
  | .float x, .integer i => Crosses i x
  | _, _ => False

theorem Misplaced.symm : ∀ {a b : Number}, a.Misplaced b → b.Misplaced a
  | .integer _, .float _, h => h
  | .float _, .integer _, h => h

theorem not_misplaced_self : ∀ a : Number, ¬ a.Misplaced a
  | .integer _ => id
  | .float _ => id

/-! ### Comparing by values -/

/-- Numbers that lie alike are compared alike. -/
theorem compare_eq_compare {α β : Type} [LinearOrder α] [LinearOrder β] {a b : α} {c d : β}
    (hlt : a < b ↔ c < d) (hgt : b < a ↔ d < c) : compare a b = compare c d := by
  rcases lt_trichotomy a b with h | h | h
  · rw [compare_lt_iff_lt.mpr h, compare_lt_iff_lt.mpr (hlt.mp h)]
  · have hle : ¬ c < d := fun hcd => absurd (hlt.mpr hcd) h.not_lt
    have hge : ¬ d < c := fun hdc => absurd (hgt.mpr hdc) h.not_gt
    rw [compare_eq_iff_eq.mpr h, compare_eq_iff_eq.mpr (le_antisymm (not_lt.mp hge) (not_lt.mp hle))]
  · rw [compare_gt_iff_gt.mpr h, compare_gt_iff_gt.mpr (hgt.mp h)]

/-- A number compares alike with two others unless it lies between them. -/
theorem compare_eq_iff_not_between {α : Type} [LinearOrder α] {a b c : α} (hbc : b ≠ c) :
    compare a b = compare a c ↔ ¬ (b ≤ a ∧ a ≤ c ∨ c ≤ a ∧ a ≤ b) := by
  constructor
  · rintro h (⟨hba, hac⟩ | ⟨hca, hab⟩)
    · rcases eq_or_lt_of_le hba with rfl | hlt
      · rw [compare_eq_iff_eq.mpr rfl] at h
        exact hbc (compare_eq_iff_eq.mp h.symm)
      · rw [compare_gt_iff_gt.mpr hlt] at h
        exact absurd hac (not_le.mpr (compare_gt_iff_gt.mp h.symm))
    · rcases eq_or_lt_of_le hab with rfl | hlt
      · rw [compare_eq_iff_eq.mpr rfl] at h
        exact hbc (compare_eq_iff_eq.mp h.symm)
      · rw [compare_lt_iff_lt.mpr hlt] at h
        exact absurd hca (not_le.mpr (compare_lt_iff_lt.mp h.symm))
  · intro h
    rcases lt_or_ge a b with hab | hba
    · have hac : a < c := not_le.mp fun hca => h (.inr ⟨hca, hab.le⟩)
      rw [compare_lt_iff_lt.mpr hab, compare_lt_iff_lt.mpr hac]
    · have hca : c < a := not_le.mp fun hac => h (.inl ⟨hba, hac⟩)
      have hab : b < a := lt_of_le_of_ne hba fun heq => h (.inr ⟨hca.le, heq.ge⟩)
      rw [compare_gt_iff_gt.mpr hab, compare_gt_iff_gt.mpr hca]

/-! ### An integer and a double -/

/-- The multiple of an integer is in the order of the integers. -/
theorem mul_one_lt_iff {m n : Int} :
    m * (FloatFormat.double.one : Int) < n * (FloatFormat.double.one : Int) ↔ m < n :=
  Int.mul_lt_mul_right (Int.natCast_pos.mpr (FloatFormat.one_pos _))

section Integers

variable {i : Int64} {x : Double}

/-- An integer below both a double and its text. -/
theorem compare_written_of_lt (h : i.toInt * (FloatFormat.double.one : Int) < x.scaled)
    (hwritten : (i.toInt : ℚ) < (float x).written) :
    compare (integer i) (float x) = compare (i.toInt : ℚ) (float x).written ∧ ¬ Crosses i x := by
  constructor
  · rw [compare_def]
    exact (Int.compare_eq_lt.mpr h).trans (compare_lt_iff_lt.mpr hwritten).symm
  · rintro ⟨k, hscaled, -, ⟨hki, -⟩ | ⟨hwi, -⟩⟩
    · rw [hscaled, mul_one_lt_iff] at h
      exact absurd h (not_lt.mpr (by exact_mod_cast hki))
    · exact absurd hwritten (not_lt.mpr hwi)

/-- An integer above both a double and its text. -/
theorem compare_written_of_gt (h : x.scaled < i.toInt * (FloatFormat.double.one : Int))
    (hwritten : (float x).written < i.toInt) :
    compare (integer i) (float x) = compare (i.toInt : ℚ) (float x).written ∧ ¬ Crosses i x := by
  constructor
  · rw [compare_def]
    exact (Int.compare_eq_gt.mpr h).trans (compare_gt_iff_gt.mpr hwritten).symm
  · rintro ⟨k, hscaled, -, ⟨-, hiw⟩ | ⟨-, hik⟩⟩
    · exact absurd hwritten (not_lt.mpr hiw)
    · rw [hscaled, mul_one_lt_iff] at h
      exact absurd h (not_lt.mpr (by exact_mod_cast hik))

/-- An integer and a double that is an integer. -/
theorem compare_written_of_whole {k : Int64}
    (hk : x.scaled = k.toInt * (FloatFormat.double.one : Int)) :
    compare (integer i) (float x) = compare (i.toInt : ℚ) (float x).written ↔ ¬ Crosses i x := by
  have hcompare : compare (integer i) (float x) = compare (i.toInt : ℚ) (k.toInt : ℚ) := by
    rw [compare_def, show (float x).rank = x.scaled from rfl, hk]
    apply compare_eq_compare
    · exact mul_one_lt_iff.trans Int.cast_lt.symm
    · exact mul_one_lt_iff.trans Int.cast_lt.symm
  rw [hcompare]
  by_cases hwritten : (float x).written = k.toInt
  · rw [hwritten]
    refine iff_of_true rfl ?_
    rintro ⟨k', hk', hne, -⟩
    rw [hk] at hk'
    rw [Int.eq_of_mul_eq_mul_right FloatFormat.double.cast_one_ne_zero hk'] at hwritten
    exact hne hwritten
  · rw [compare_eq_iff_not_between (Ne.symm hwritten)]
    apply not_congr
    constructor
    · intro hbetween
      exact ⟨k, hk, hwritten, hbetween⟩
    · rintro ⟨k', hk', -, hbetween⟩
      rw [hk] at hk'
      rwa [Int.eq_of_mul_eq_mul_right FloatFormat.double.cast_one_ne_zero hk']

end Integers

/-! ### Where a double stands -/

/-- A double that is no integer lies between two integers that are doubles. -/
theorem exists_between {x : Double} (hx : x.isFinite) (h : x.toInt? = none) :
    ∃ n : Int, Representable n ∧ Representable (n + 1) ∧
      n * (FloatFormat.double.one : Int) < x.scaled ∧
      x.scaled < (n + 1) * (FloatFormat.double.one : Int) := by
  have hone : 0 < (FloatFormat.double.one : Int) := Int.natCast_pos.mpr (FloatFormat.one_pos _)
  have hsplit := Int.ediv_mul_add_emod x.scaled FloatFormat.double.one
  have hrest := Int.emod_lt_of_pos x.scaled hone
  have hnonneg := Int.emod_nonneg x.scaled FloatFormat.double.cast_one_ne_zero
  have hsmall := BinaryFloat.natAbs_scaled_lt hx h
  have hapart := BinaryFloat.scaled_ne_of_toInt?_eq_none hx h
    (x.scaled / (FloatFormat.double.one : Int))
  generalize x.scaled / (FloatFormat.double.one : Int) = n at hsplit hapart
  have hnext : (n + 1) * (FloatFormat.double.one : Int) =
      n * (FloatFormat.double.one : Int) + FloatFormat.double.one := by ring
  have hlow : -(2 ^ 53) < n + 1 := by
    apply mul_one_lt_iff.mp
    rw [neg_mul]
    omega
  have hhigh : n < 2 ^ 53 := by
    apply mul_one_lt_iff.mp
    omega
  refine ⟨n, representable_of_le (by omega), representable_of_le (by omega), ?_, ?_⟩
  · omega
  · omega

/-- The digits of `2 ^ 63` are rounded up. -/
theorem written_longCode :
    (float (.ofCode false longCode)).written = 9223372036854776000 := by
  have hshortest : FloatFormat.double.shortest (BinaryFloat.ofCode false longCode : Double).code =
      (9223372036854776, 3) := by decide +kernel
  rw [written, hshortest]
  norm_num [signedInt, BinaryFloat.ofCode]

theorem representable_integerBound : Representable integerBound :=
  ⟨longCode, by decide, by decide +kernel⟩

/-- What is written for a double from `2 ^ 63` on is above all integers of 64 bits. -/
theorem integerBound_le_written {x : Double} (hx : x.isFinite)
    (h : integerBound * (FloatFormat.double.one : Int) ≤ x.scaled) :
    (integerBound : ℚ) ≤ (float x).written := by
  rcases Int.lt_or_eq_of_le h with hlt | heq
  · exact (representable_integerBound.lt_written hx hlt).le
  · have hlong : (BinaryFloat.ofCode false longCode : Double).scaled =
        integerBound * (FloatFormat.double.one : Int) := by decide +kernel
    rw [written_eq_of_scaled_eq hx (by decide) (heq.symm.trans hlong.symm), written_longCode]
    norm_num [integerBound]

theorem representable_neg_integerBound : Representable (-integerBound) := by
  obtain ⟨code, hcode, hunits⟩ := representable_integerBound
  exact ⟨code, hcode, by rw [hunits, Int.natAbs_neg]⟩

section Sides

variable {x : Double} (hx : x.isFinite)
include hx

/-- Below an integer that is a double and lies below a double, everything lies below its text. -/
theorem Representable.lt_of_le {m i : Int} (hm : Representable m) (hi : i ≤ m)
    (h : m * (FloatFormat.double.one : Int) < x.scaled) :
    i * (FloatFormat.double.one : Int) < x.scaled ∧ (i : ℚ) < (float x).written := by
  have hcast : (i : ℚ) ≤ m := Int.cast_le.mpr hi
  refine ⟨Int.lt_of_le_of_lt ?_ h, hcast.trans_lt (hm.lt_written hx h)⟩
  exact Int.mul_le_mul_of_nonneg_right hi (Int.natCast_nonneg _)

/-- Above an integer that is a double and lies above a double, everything lies above its text. -/
theorem Representable.gt_of_le {m i : Int} (hm : Representable m) (hi : m ≤ i)
    (h : x.scaled < m * (FloatFormat.double.one : Int)) :
    x.scaled < i * (FloatFormat.double.one : Int) ∧ (float x).written < i := by
  have hcast : (m : ℚ) ≤ i := Int.cast_le.mpr hi
  refine ⟨Int.lt_of_lt_of_le h ?_, (hm.written_lt hx h).trans_le hcast⟩
  exact Int.mul_le_mul_of_nonneg_right hi (Int.natCast_nonneg _)

/-- An integer is on one side of a double and its text, or the double is itself an integer of 64
bits. -/
theorem side_of_integer (i : Int64) :
    (i.toInt * (FloatFormat.double.one : Int) < x.scaled ∧ (i.toInt : ℚ) < (float x).written) ∨
      (x.scaled < i.toInt * (FloatFormat.double.one : Int) ∧ (float x).written < i.toInt) ∨
      ∃ k : Int64, x.scaled = k.toInt * (FloatFormat.double.one : Int) := by
  have hleast : -integerBound ≤ i.toInt := i.le_toInt
  have hgreatest : i.toInt < integerBound := i.toInt_lt
  cases hint : x.toInt? with
  | none =>
    obtain ⟨n, hn, hnext, hbelow, habove⟩ := exists_between hx hint
    rcases le_or_gt i.toInt n with hle | hlt
    · exact .inl (hn.lt_of_le hx hle hbelow)
    · exact .inr (.inl (hnext.gt_of_le hx hlt habove))
  | some m =>
    have hm := (BinaryFloat.toInt?_eq_some_iff.mp hint).2
    by_cases hlong : integerBound ≤ m
    · have hmul : integerBound * (FloatFormat.double.one : Int) ≤ x.scaled := by
        rw [hm]
        exact Int.mul_le_mul_of_nonneg_right hlong (Int.natCast_nonneg _)
      have hcast : (i.toInt : ℚ) < integerBound := Int.cast_lt.mpr hgreatest
      exact .inl ⟨Int.lt_of_lt_of_le (mul_one_lt_iff.mpr hgreatest) hmul,
        hcast.trans_le (integerBound_le_written hx hmul)⟩
    · by_cases hshort : m < -integerBound
      · refine .inr (.inl (representable_neg_integerBound.gt_of_le hx hleast ?_))
        rw [hm]
        exact mul_one_lt_iff.mpr hshort
      · have hcontains : IntegerRange.int64.contains m := by
          rw [IntegerRange.contains_iff]
          exact ⟨Int.not_lt.mp hshort, Int.lt_add_one_iff.mp (Int.not_le.mp hlong)⟩
        exact .inr (.inr ⟨.ofInt m, by rw [toInt_ofInt hcontains, hm]⟩)

/-- An integer and a double are in the order of their texts unless the double is misplaced. -/
theorem compare_integer_float (i : Int64) :
    compare (integer i) (float x) = compare (i.toInt : ℚ) (float x).written ↔ ¬ Crosses i x := by
  rcases side_of_integer hx i with ⟨h, hwritten⟩ | ⟨h, hwritten⟩ | ⟨k, hk⟩
  · obtain ⟨hsame, hcross⟩ := compare_written_of_lt h hwritten
    exact iff_of_true hsame hcross
  · obtain ⟨hsame, hcross⟩ := compare_written_of_gt h hwritten
    exact iff_of_true hsame hcross
  · exact compare_written_of_whole hk

end Sides

/-! ### Numbers and their texts -/

/-- **Numbers are in the order of what is written for them** if, and only if, neither is
misplaced against the other. -/
theorem compare_written_iff {a b : Number} (ha : a.Finite) (hb : b.Finite) :
    compare a b = compare a.written b.written ↔ ¬ a.Misplaced b := by
  cases a with
  | integer i =>
    cases b with
    | integer j =>
      refine iff_of_true ?_ id
      rw [compare_def]
      apply compare_eq_compare
      · exact mul_one_lt_iff.trans Int.cast_lt.symm
      · exact mul_one_lt_iff.trans Int.cast_lt.symm
    | float y => exact compare_integer_float hb i
  | float x =>
    cases b with
    | integer j =>
      have hnumbers : compare (float x) (integer j) = (compare (integer j) (float x)).swap :=
        Std.OrientedOrd.eq_swap
      have hvalues : compare (float x).written (integer j).written =
          (compare (integer j).written (float x).written).swap := Std.OrientedOrd.eq_swap
      rw [hnumbers, hvalues]
      exact Ordering.swap_inj.trans (compare_integer_float ha j)
    | float y =>
      refine iff_of_true ?_ id
      rw [compare_def]
      apply compare_eq_compare
      · exact scaled_lt_iff ha hb
      · exact scaled_lt_iff hb ha

/-- The numbers of a set are written in ascending order if, and only if, none of them is misplaced
against another. -/
theorem pairwise_written_iff {s : SortedSet Number} (hs : ∀ n ∈ s.elements, n.Finite) :
    (s.elements.map written).Pairwise (· < ·) ↔
      ∀ a ∈ s.elements, ∀ b ∈ s.elements, ¬ a.Misplaced b := by
  rw [List.pairwise_map]
  constructor
  · intro hascending
    have hapart : s.elements.Pairwise fun a b => ¬ a.Misplaced b := by
      apply (s.ascending.and hascending).imp_of_mem
      rintro a b ha hb ⟨hab, hwritten⟩
      apply (compare_written_iff (hs a ha) (hs b hb)).mp
      rw [hab, compare_lt_iff_lt.mpr hwritten]
    have hsymm : Std.Symm fun a b : Number => ¬ a.Misplaced b :=
      ⟨fun _ _ hab hba => hab hba.symm⟩
    intro a ha b hb
    exact hapart.forall_of_forall (fun n _ => not_misplaced_self n) ha hb
  · intro hapart
    refine s.ascending.imp_of_mem ?_
    intro a b ha hb hab
    have hsame := (compare_written_iff (hs a ha) (hs b hb)).mpr (hapart a ha b hb)
    exact compare_lt_iff_lt.mp (hsame.symm.trans hab)

/-- **The order of numbers and of their texts.**

Finite numbers have texts that denote rational numbers.  Two numbers are compared as these are
if, and only if, neither is misplaced against the other; then they are equal just when their
texts denote the same number.  A set of finite numbers is written as texts, and these are in
ascending order, without repetition, if, and only if, no element is misplaced against another. -/
theorem compare_texts {a b : Number} (ha : a.Finite) (hb : b.Finite) {numbers : SortedSet Number}
    (hne : numbers.isEmpty = false) (hnumbers : ∀ n ∈ numbers.elements, n.Finite) :
    (∃ s t p q, a.text? = some s ∧ b.text? = some t ∧
      textValue? s = some p ∧ textValue? t = some q ∧
      (compare a b = compare p q ↔ ¬ a.Misplaced b) ∧
      (¬ a.Misplaced b → (compare a b = .eq ↔ p = q))) ∧
    ∃ (texts : List String) (qs : List ℚ),
      Value.encode (.numberSet numbers) = .ok (.numberSet texts) ∧
      texts.map textValue? = qs.map some ∧
      (qs.Pairwise (· < ·) ↔
        ∀ n ∈ numbers.elements, ∀ m ∈ numbers.elements, ¬ n.Misplaced m) := by
  constructor
  · obtain ⟨s, hs⟩ := ha.exists_text
    obtain ⟨t, ht⟩ := hb.exists_text
    have hiff := compare_written_iff ha hb
    refine ⟨s, t, a.written, b.written, hs, ht, textValue?_of_text? hs, textValue?_of_text? ht,
      hiff, ?_⟩
    intro hplaced
    rw [hiff.mpr hplaced]
    exact compare_eq_iff_eq
  · obtain ⟨texts, htexts, hvalues⟩ :=
      Value.exists_mapM_encodeNumber fun n hn => (hnumbers n hn).exists_text
    refine ⟨texts, numbers.elements.map written, ?_, ?_, pairwise_written_iff hnumbers⟩
    · exact bind_eq_ok.mpr ⟨numbers.elements, Value.encodeElements_of_isEmpty hne,
        bind_eq_ok.mpr ⟨texts, htexts, rfl⟩⟩
    · rw [hvalues, List.map_map]
      rfl

/-- The double `2 ^ 53` and the integer after it, which is no double. -/
theorem compare_texts_adjacent :
    let x : Double := .ofCode false 0x4340000000000000
    (∃ s t p q, (float x).text? = some s ∧ (integer 9007199254740993).text? = some t ∧
      textValue? s = some p ∧ textValue? t = some q ∧
      compare (float x) (integer 9007199254740993) = compare p q) ∧
    ∃ (texts : List String) (qs : List ℚ),
      Value.encode (.numberSet (.ofList [integer 9007199254740993, float x])) =
        .ok (.numberSet texts) ∧ texts.map textValue? = qs.map some ∧ qs.Pairwise (· < ·) := by
  intro x
  let numbers := SortedSet.ofList [integer 9007199254740993, float x]
  have hfinite : (float x).Finite := show x.isFinite by decide
  have hshortest : FloatFormat.double.shortest x.code = (9007199254740992, 0) := by decide +kernel
  have hwritten : (float x).written = 9007199254740992 := by
    rw [written, hshortest]
    norm_num [signedInt, x, BinaryFloat.ofCode]
  have hscaled : x.scaled = 9007199254740992 * (FloatFormat.double.one : Int) := by decide +kernel
  have hplaced : ∀ i, ¬ Crosses i x := by
    rintro i ⟨k, hk, hne, -⟩
    rw [hscaled] at hk
    have hint := Int.eq_of_mul_eq_mul_right FloatFormat.double.cast_one_ne_zero hk
    rw [← hint] at hne
    exact hne hwritten
  have hnonempty : numbers.isEmpty = false := by decide +kernel
  have helements : numbers.elements = [float x, integer 9007199254740993] := by decide +kernel
  have hnumbers : ∀ n ∈ numbers.elements, n.Finite := by
    rw [helements]
    exact List.forall_mem_cons.mpr ⟨hfinite, List.forall_mem_singleton.mpr trivial⟩
  have hinteger : (integer 9007199254740993).Finite := trivial
  obtain ⟨⟨s, t, p, q, hs, ht, hp, hq, hpair, -⟩, texts, qs, hencode, hvalues, hset⟩ :=
    compare_texts hfinite hinteger hnonempty hnumbers
  refine ⟨⟨s, t, p, q, hs, ht, hp, hq, hpair.mpr (hplaced _)⟩, texts, qs, hencode, hvalues, ?_⟩
  rw [hset, helements]
  -- Of the four pairs only two are of an integer and a double.
  refine List.forall_mem_cons.mpr ⟨?_, List.forall_mem_singleton.mpr ?_⟩
  · exact List.forall_mem_cons.mpr ⟨id, List.forall_mem_singleton.mpr (hplaced _)⟩
  · exact List.forall_mem_cons.mpr ⟨hplaced _, List.forall_mem_singleton.mpr id⟩

/-- The number `2 ^ 63 - 1024` and an integer that is larger by 216 have the same text, which
stands twice in what is written for the set of the two. -/
theorem compare_texts_ne :
    let x : Double := .ofCode false 0x43dfffffffffffff
    compare (integer 9223372036854775000) (float x) = .gt ∧
      (integer 9223372036854775000).text? = some "9223372036854775000" ∧
      (float x).text? = some "9223372036854775000" ∧
      Value.encode (.numberSet (.ofList [integer 9223372036854775000, float x])) =
        .ok (.numberSet ["9223372036854775000", "9223372036854775000"]) := by
  intro x
  have htext : (float x).text? = some "9223372036854775000" := by decide +kernel
  have htext' : (integer 9223372036854775000).text? = some "9223372036854775000" := by
    decide +kernel
  have helements : (SortedSet.ofList [integer 9223372036854775000, float x]).elements =
      [float x, integer 9223372036854775000] := by decide +kernel
  refine ⟨by decide +kernel, htext', htext, ?_⟩
  refine bind_eq_ok.mpr ⟨_, Value.encodeElements_of_isEmpty (by decide +kernel), ?_⟩
  rw [helements]
  simp only [List.mapM_cons, List.mapM_nil, Value.encodeNumber, htext, htext']
  rfl

end Number

end ItemStore
