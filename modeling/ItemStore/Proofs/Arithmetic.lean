import Mathlib.Algebra.Order.Field.Rat
import Mathlib.Tactic.Ring
import ItemStore.Proofs.Meaning
import ItemStore.Proofs.Precision
import ItemStore.Proofs.Reading
import ItemStore.Proofs.RoundTrip

/-!
# What sums and differences are worth

The text of a sum or a difference is read like any other: `+` and `-` bind equally strongly and
from the left, parentheses come first, and a placeholder counts for the path or the number that
is sent for it.  Operands are written without parentheses, so in the text a term has the sign
that stands before it and no other, while in the tree it is also turned by every difference from
which its side is taken away.

The two agree if no difference takes away a sum or a difference, as in `a - b - c`, and not
otherwise: `a - (b - c)` is sent as `a - b - c`.

## Main definitions

* `Arithmetic.Reads` — the number that a row is read as; `Fragment.Evaluates` — that of a text.
* `Operand.amount` — the number of a tree.
* `Operand.written`, `Operand.terms` — the terms of a tree, with their signs in the text and in
  the tree.
* `Operand.FromLeft` — no difference takes away a sum or a difference.

## Main results

* `Arithmetic.Reads.unique` — a row without parentheses is read as one number at most.
* `Operand.evaluates_iff` — the text is worth its terms, with their signs in the text.
* `Operand.amount_eq_total` — the tree is worth its terms, with their signs in the tree.
* `Operand.written_eq_terms_iff` — when these are the same signs.
* `Operand.evaluates_amount` — when the text is worth what the tree is.
-/

namespace ItemStore

open Compile (runFrom)

/-! ### Arithmetic -/

namespace Arithmetic

/-- The sum or the difference of two numbers. -/
def apply : Arithmetic → ℚ → ℚ → ℚ
  | .plus, a, b => a + b
  | .minus, a, b => a - b

/-- The sign with which a number is added. -/
def factor : Arithmetic → ℚ
  | .plus => 1
  | .minus => -1

/-- The sign of a term inside what is added with a sign. -/
def within : Arithmetic → Arithmetic → Arithmetic
  | .plus, o => o
  | .minus, .plus => .minus
  | .minus, .minus => .plus

theorem apply_eq (o : Arithmetic) (a b : ℚ) : o.apply a b = a + o.factor * b := by
  cases o with
  | plus => simp [apply, factor]
  | minus => simp [apply, factor, sub_eq_add_neg]

theorem factor_within (s o : Arithmetic) : (s.within o).factor = s.factor * o.factor := by
  cases s <;> cases o <;> simp [within, factor]

theorem factor_injective : Function.Injective factor := by
  intro s t h
  cases s <;> cases t <;> first | rfl | (simp only [factor] at h; norm_num at h)

theorem within_ne (o : Arithmetic) : within .minus o ≠ o := by
  cases o <;> decide

/-! ### Reading rows -/

/-- The number of each path: of an attribute, and the steps into it. -/
abbrev Assignment := String → List PathStep → ℚ

/-- The steps of a path, read from a row. -/
inductive ReadsSteps : List PathStep → List Meaning → Prop
  | done : ReadsSteps [] []
  | field {name : String} {steps : List PathStep} {row : List Meaning} :
    ReadsSteps steps row → ReadsSteps (.field name :: steps) (.sign .dot :: .name name :: row)
  | index {position : Nat} {steps : List PathStep} {row : List Meaning} :
    ReadsSteps steps row → ReadsSteps (.index position :: steps) (.sign (.index position) :: row)

/-- What a row is read as: a single term, or terms with signs between them. -/
inductive Extent
  | term
  | sum

/-- The number that a row is read as. -/
inductive Reads (ρ : Assignment) : Extent → List Meaning → ℚ → Prop
  /-- A path counts for its number. -/
  | path {name : String} {steps : List PathStep} {row : List Meaning} :
    ReadsSteps steps row → Reads ρ .term (.name name :: row) (ρ name steps)
  | number {text : String} {q : ℚ} :
    textValue? text = some q → Reads ρ .term [.value (.number text)] q
  /-- What is between parentheses is one term. -/
  | group {row : List Meaning} {q : ℚ} :
    Reads ρ .sum row q → Reads ρ .term ([.sign .opening] ++ row ++ [.sign .closing]) q
  | single {row : List Meaning} {q : ℚ} : Reads ρ .term row q → Reads ρ .sum row q
  /-- The last sign of a row joins its last term to all that is before it. -/
  | join {o : Arithmetic} {left right : List Meaning} {p q : ℚ} :
    Reads ρ .sum left p → Reads ρ .term right q →
      Reads ρ .sum (left ++ .sign (.arithmetic o) :: right) (o.apply p q)

/-- A row has no parentheses. -/
def Plain (ms : List Meaning) : Prop := Meaning.sign .opening ∉ ms

theorem ReadsSteps.arithmetic_not_mem {steps : List PathStep} {row : List Meaning}
    (h : ReadsSteps steps row) (o : Arithmetic) : Meaning.sign (.arithmetic o) ∉ row := by
  induction h with
  | done => simp
  | field _ ih => simpa using ih
  | index _ ih => simpa using ih

theorem ReadsSteps.unique {steps steps' : List PathStep} {row : List Meaning}
    (h : ReadsSteps steps row) (h' : ReadsSteps steps' row) : steps = steps' := by
  induction h generalizing steps' with
  | done =>
    cases h'
    rfl
  | field _ ih =>
    cases h' with
    | field h' => rw [ih h']
  | index _ ih =>
    cases h' with
    | index h' => rw [ih h']

namespace Reads

variable {ρ : Assignment} {ms : List Meaning} {p q : ℚ}

/-- A single term has no sign outside parentheses. -/
theorem arithmetic_not_mem (h : Reads ρ .term ms q) (hms : Plain ms) (o : Arithmetic) :
    Meaning.sign (.arithmetic o) ∉ ms := by
  cases h with
  | path hsteps => simpa using hsteps.arithmetic_not_mem o
  | number _ => simp
  | group _ => exact absurd (by simp) hms

/-- A single term is read as one number at most. -/
theorem unique_term (h : Reads ρ .term ms p) (h' : Reads ρ .term ms q) (hms : Plain ms) : p = q := by
  cases h with
  | path hsteps =>
    cases h' with
    | path hsteps' => rw [hsteps.unique hsteps']
  | number htext =>
    cases h' with
    | number htext' => exact Option.some.inj (htext.symm.trans htext')
  | group _ => exact absurd (by simp) hms

end Reads

/-- A row is cut at its last sign in one way. -/
theorem cut_unique {α : Type} {P : α → Prop} {left left' right right' : List α} {a a' : α}
    (ha : P a) (ha' : P a') (hright : ∀ x ∈ right, ¬P x) (hright' : ∀ x ∈ right', ¬P x)
    (h : left ++ a :: right = left' ++ a' :: right') : left = left' ∧ a = a' ∧ right = right' := by
  rcases List.append_eq_append_iff.mp h with ⟨mid, hleft, hmid⟩ | ⟨mid, hleft, hmid⟩
  · cases mid with
    | nil =>
      cases hmid
      exact ⟨by simpa using hleft.symm, rfl, rfl⟩
    | cons x mid =>
      obtain ⟨-, hright''⟩ := List.cons_eq_cons.mp hmid
      exact absurd ha' (hright a' (by rw [hright'']; simp))
  · cases mid with
    | nil =>
      cases hmid
      exact ⟨by simpa using hleft, rfl, rfl⟩
    | cons x mid =>
      obtain ⟨-, hright''⟩ := List.cons_eq_cons.mp hmid
      exact absurd ha (hright' a (by rw [hright'']; simp))

namespace Reads

variable {ρ : Assignment} {k : Extent} {ms : List Meaning} {p q : ℚ}

theorem sum_cases (h : Reads ρ .sum ms q) :
    Reads ρ .term ms q ∨ ∃ o left right a b, ms = left ++ .sign (.arithmetic o) :: right ∧
      q = o.apply a b ∧ Reads ρ .sum left a ∧ Reads ρ .term right b := by
  cases h with
  | single hterm => exact .inl hterm
  | join hleft hright => exact .inr ⟨_, _, _, _, _, rfl, rfl, hleft, hright⟩

/-- **A row without parentheses is read as one number at most.** -/
theorem unique (h : Reads ρ k ms p) (h' : Reads ρ k ms q) (hms : Plain ms) : p = q := by
  -- On the first reading: in the second one the row is cut at the same sign.
  induction h generalizing q with
  | path hsteps => exact unique_term (.path hsteps) h' hms
  | number htext => exact unique_term (.number htext) h' hms
  | group _ _ => exact absurd (by simp) hms
  | single hterm ih =>
    rcases h'.sum_cases with hterm' | ⟨o, left, right, a, b, rfl, -, -, -⟩
    · exact ih hterm' hms
    · exact absurd (by simp) (hterm.arithmetic_not_mem hms o)
  | @join o left right a b _ hright ihleft ihright =>
    have hplain : Plain left ∧ Plain right := by
      simp only [Plain, List.mem_append, List.mem_cons, not_or] at hms
      exact ⟨hms.1, hms.2.2⟩
    rcases h'.sum_cases with hterm' | ⟨o', left', right', a', b', hrow, rfl, hleft', hright'⟩
    · exact absurd (by simp) (hterm'.arithmetic_not_mem hms o)
    · have hplain' : Plain right' := by
        rw [hrow] at hms
        simp only [Plain, List.mem_append, List.mem_cons, not_or] at hms
        exact hms.2.2
      obtain ⟨rfl, ho, rfl⟩ := cut_unique (P := fun x => ∃ o, x = Meaning.sign (.arithmetic o))
        ⟨o, rfl⟩ ⟨o', rfl⟩
        (by rintro _ hx ⟨o, rfl⟩; exact hright.arithmetic_not_mem hplain.2 o hx)
        (by rintro _ hx ⟨o, rfl⟩; exact hright'.arithmetic_not_mem hplain' o hx) hrow
      cases ho
      rw [ihleft hleft' hplain.1, ihright hright' hplain.2]

end Reads

end Arithmetic

open Arithmetic (Assignment Reads ReadsSteps Plain)

/-- The number of a text, its placeholders replaced by what is sent for them. -/
def Fragment.Evaluates (f : Fragment) (ρ : Assignment) (q : ℚ) : Prop :=
  ∃ row ms, Symbol.scan f.text = some row ∧
    row.mapM (Symbol.resolve (writtenNames f.names) (writtenValues f.values)) = some ms ∧
    Reads ρ .sum ms q

/-! ### Trees -/

/-- The effective name of a path, and its steps. -/
def Reference.location (r : Reference) : String × List PathStep := (r.name?.getD "", r.path)

namespace Operand

/-- Paths, numbers, and sums and differences of these. -/
def IsArithmetic : Operand → Prop
  | .path _ => True
  | .literal (.number _) => True
  | .arithmetic left _ right => left.IsArithmetic ∧ right.IsArithmetic
  | _ => False

/-- The number of a tree; a literal counts for the number that it is written as. -/
def amount (ρ : Assignment) : Operand → ℚ
  | .path reference => ρ reference.location.1 reference.location.2
  | .literal (.number n) => n.written
  | .arithmetic left o right => o.apply (left.amount ρ) (right.amount ρ)
  | _ => 0

/-- The terms of a tree after a sign, each with the sign that stands before it. -/
def writtenAfter (s : Arithmetic) : Operand → List (Arithmetic × Operand)
  | .arithmetic left o right => left.writtenAfter s ++ right.writtenAfter o
  | x => [(s, x)]

/-- The terms of a tree that counts with a sign, each with the sign with which it counts. -/
def termsWithin (s : Arithmetic) : Operand → List (Arithmetic × Operand)
  | .arithmetic left o right => left.termsWithin s ++ right.termsWithin (s.within o)
  | x => [(s, x)]

/-- The terms of a tree, with their signs in the text. -/
def written (o : Operand) : List (Arithmetic × Operand) := o.writtenAfter .plus

/-- The terms of a tree, with their signs in the tree. -/
def terms (o : Operand) : List (Arithmetic × Operand) := o.termsWithin .plus

/-- The sum of some terms. -/
def total (ρ : Assignment) (ts : List (Arithmetic × Operand)) : ℚ :=
  (ts.map fun t => t.1.factor * t.2.amount ρ).sum

/-- Neither a sum nor a difference. -/
def IsTerm : Operand → Prop
  | .arithmetic .. => False
  | _ => True

/-- No difference in the tree takes away a sum or a difference. -/
def FromLeft : Operand → Prop
  | .arithmetic left .plus right => left.FromLeft ∧ right.FromLeft
  | .arithmetic left .minus right => left.FromLeft ∧ right.IsTerm
  | _ => True

@[simp] theorem total_nil (ρ : Assignment) : total ρ [] = 0 := rfl

@[simp] theorem total_cons (ρ : Assignment) (s : Arithmetic) (x : Operand)
    (ts : List (Arithmetic × Operand)) :
    total ρ ((s, x) :: ts) = s.factor * x.amount ρ + total ρ ts := by
  simp [total]

@[simp] theorem total_append (ρ : Assignment) (ts us : List (Arithmetic × Operand)) :
    total ρ (ts ++ us) = total ρ ts + total ρ us := by
  simp [total]

/-- **A tree is worth its terms**, with their signs in the tree. -/
theorem total_termsWithin (ρ : Assignment) (o : Operand) (s : Arithmetic) :
    total ρ (o.termsWithin s) = s.factor * o.amount ρ := by
  induction o generalizing s with
  | arithmetic left o right ihl ihr =>
    rw [termsWithin, total_append, ihl, ihr, amount, Arithmetic.apply_eq, Arithmetic.factor_within]
    ring
  | _ => simp [termsWithin]

theorem amount_eq_total (ρ : Assignment) (o : Operand) : o.amount ρ = total ρ o.terms := by
  rw [terms, total_termsWithin, Arithmetic.factor, one_mul]

/-! ### The signs of terms -/

/-- The terms themselves are the same in the text and in the tree. -/
theorem map_snd_writtenAfter (o : Operand) (s s' : Arithmetic) :
    (o.writtenAfter s).map Prod.snd = (o.termsWithin s').map Prod.snd := by
  induction o generalizing s s' with
  | arithmetic left o right ihl ihr =>
    rw [writtenAfter, termsWithin, List.map_append, List.map_append, ihl s s',
      ihr o (s'.within o)]
  | _ => rfl

/-- The first term of an operand has the sign of the operand. -/
theorem exists_writtenAfter (o : Operand) :
    ∃ x, ∀ s, (o.writtenAfter s).head? = some (s, x) ∧ (o.termsWithin s).head? = some (s, x) := by
  induction o with
  | arithmetic left o right ihl ihr =>
    obtain ⟨x, hx⟩ := ihl
    refine ⟨x, fun s => ?_⟩
    rw [writtenAfter, termsWithin, List.head?_append, List.head?_append, (hx s).1, (hx s).2]
    exact ⟨rfl, rfl⟩
  | _ => exact ⟨_, fun s => ⟨rfl, rfl⟩⟩

theorem writtenAfter_eq_iff {left right : Operand} {s o : Arithmetic} :
    (arithmetic left o right).writtenAfter s = (arithmetic left o right).termsWithin s ↔
      left.writtenAfter s = left.termsWithin s ∧
        right.writtenAfter o = right.termsWithin (s.within o) := by
  rw [writtenAfter, termsWithin]
  constructor
  · intro h
    have hlength := congrArg List.length (left.map_snd_writtenAfter s s)
    rw [List.length_map, List.length_map] at hlength
    exact List.append_inj h hlength
  · rintro ⟨hleft, hright⟩
    rw [hleft, hright]

/-- What is taken away keeps its signs only if it is a single term. -/
theorem writtenAfter_minus_eq_iff (o : Operand) :
    o.writtenAfter .minus = o.termsWithin .minus ↔ o.IsTerm := by
  cases o with
  | arithmetic left o right =>
    simp only [IsTerm, iff_false]
    intro h
    obtain ⟨x, hx⟩ := right.exists_writtenAfter
    have hheads := congrArg List.head? (writtenAfter_eq_iff.mp h).2
    rw [(hx o).1, (hx _).2] at hheads
    simp only [Option.some.injEq, Prod.mk.injEq, and_true] at hheads
    exact Arithmetic.within_ne o hheads.symm
  | _ => exact iff_of_true rfl trivial

/-- **When the terms have the same signs in the text and in the tree.** -/
theorem written_eq_terms_iff (o : Operand) : o.written = o.terms ↔ o.FromLeft := by
  rw [written, terms]
  induction o with
  | arithmetic left o right ihl ihr =>
    rw [writtenAfter_eq_iff, ihl]
    cases o with
    | plus => exact and_congr_right fun _ => ihr
    | minus => exact and_congr_right fun _ => right.writtenAfter_minus_eq_iff
  | _ => exact iff_of_true rfl trivial

/-! ### What trees say -/

variable {ρ : Assignment} {ms : List Meaning}

/-- The steps of a path are read back from what they say. -/
theorem readsSteps_of_mapM {steps : List PathStep}
    (h : (steps.flatMap PathStep.pieces).mapM Piece.meaning = .ok ms) :
    ReadsSteps steps ms ∧ Plain ms := by
  induction steps generalizing ms with
  | nil =>
    cases h
    exact ⟨.done, by simp [Plain]⟩
  | cons step steps ih =>
    rw [List.flatMap_cons, List.mapM_append] at h
    obtain ⟨hs, hhead, h⟩ := bind_eq_ok.mp h
    obtain ⟨row, hrow, h⟩ := bind_eq_ok.mp h
    obtain rfl := pure_eq_ok.mp h
    obtain ⟨hsteps, hplain⟩ := ih hrow
    cases step with
    | field name =>
      cases hhead
      exact ⟨.field hsteps, by simpa [Plain] using hplain⟩
    | index position =>
      cases hhead
      exact ⟨.index hsteps, by simpa [Plain] using hplain⟩

/-- A row is read as the terms of a tree, alone and after what stands before it. -/
structure Says (o : Operand) (ms : List Meaning) : Prop where
  plain : Plain ms
  alone : ∀ ρ, Reads ρ .sum ms (total ρ o.written)
  after : ∀ ρ left a s, Reads ρ .sum left a →
    Reads ρ .sum (left ++ .sign (.arithmetic s) :: ms) (a + total ρ (o.writtenAfter s))

theorem says_of_reads {o : Operand} (hterm : ∀ s, o.writtenAfter s = [(s, o)]) (hplain : Plain ms)
    (h : ∀ ρ, Reads ρ .term ms (o.amount ρ)) : o.Says ms := by
  refine ⟨hplain, fun ρ => ?_, fun ρ left a s hleft => ?_⟩
  · have hsingle := Reads.single (h ρ)
    simpa [written, hterm, Arithmetic.factor] using hsingle
  · have hjoin := Reads.join (o := s) hleft (h ρ)
    rw [Arithmetic.apply_eq] at hjoin
    simpa [hterm] using hjoin

/-- A path is read as its number. -/
theorem says_path {r : Reference} (h : (path r).pieces.mapM Piece.meaning = .ok ms) :
    (path r).Says ms := by
  rw [pieces, Reference.pieces, List.mapM_cons] at h
  obtain ⟨x, hx, h⟩ := bind_eq_ok.mp h
  obtain ⟨row, hrow, h⟩ := bind_eq_ok.mp h
  obtain rfl := pure_eq_ok.mp h
  obtain ⟨hsteps, hplain⟩ := readsSteps_of_mapM hrow
  unfold Reference.head at hx
  cases hname : r.name? with
  | none =>
    rw [hname] at hx
    cases hx
  | some name =>
    rw [hname] at hx
    cases hx
    refine says_of_reads (fun _ => rfl) (by simpa [Plain] using hplain) fun ρ => ?_
    rw [amount, Reference.location, hname]
    exact .path hsteps

/-- A number is read as what it is written as. -/
theorem says_number {n : Number} (h : (literal (.number n)).pieces.mapM Piece.meaning = .ok ms) :
    (literal (.number n)).Says ms := by
  rw [pieces, List.mapM_cons] at h
  obtain ⟨x, hx, h⟩ := bind_eq_ok.mp h
  obtain ⟨w, hw, rfl⟩ := map_eq_ok.mp hx
  obtain rfl := pure_eq_ok.mp h
  obtain ⟨text, htext, rfl⟩ := map_eq_ok.mp hw
  have hvalue := Number.textValue?_of_text? (Value.encodeNumber_eq_ok.mp htext)
  exact says_of_reads (fun _ => rfl) (by simp [Plain]) fun _ => .number hvalue

/-- **A tree is read from the left**, as its terms with their signs in the text. -/
theorem says_of_mapM {o : Operand} (ho : o.IsArithmetic)
    (h : o.pieces.mapM Piece.meaning = .ok ms) : o.Says ms := by
  induction o generalizing ms with
  | path r => exact says_path h
  | literal v =>
    cases v with
    | number n => exact says_number h
    | _ => cases ho
  | arithmetic left o right ihl ihr =>
    rw [pieces, List.mapM_append, List.mapM_cons] at h
    obtain ⟨ls, hls, h⟩ := bind_eq_ok.mp h
    obtain ⟨os, hos, h⟩ := bind_eq_ok.mp h
    obtain rfl := pure_eq_ok.mp h
    obtain ⟨x, hx, hos⟩ := bind_eq_ok.mp hos
    obtain ⟨rs, hrs, hos⟩ := bind_eq_ok.mp hos
    obtain rfl := pure_eq_ok.mp hos
    cases hx
    have hleft := ihl ho.1 hls
    have hright := ihr ho.2 hrs
    refine ⟨?_, fun ρ => ?_, fun ρ before a s hbefore => ?_⟩
    · have hplainl := hleft.plain
      have hplainr := hright.plain
      simp only [Plain] at hplainl hplainr ⊢
      simp [hplainl, hplainr]
    · rw [written, writtenAfter, total_append]
      exact hright.after ρ ls _ o (hleft.alone ρ)
    · -- What stands before the right side is all that is before it, not its left side only.
      have hboth := hright.after ρ _ _ o (hleft.after ρ before a s hbefore)
      rw [writtenAfter, total_append, ← add_assoc]
      simpa using hboth
  | _ => cases ho

/-! ### Texts -/

variable {o : Operand} {n m : Nat} {f : Fragment}

/-- **The text of a tree is worth its terms**, with their signs in the text. -/
theorem evaluates_iff (ho : o.IsArithmetic) (h : runFrom o.compile n = (.ok f, m)) {q : ℚ} :
    f.Evaluates ρ q ↔ q = total ρ o.written := by
  have hcompiled := compiled_iff.mp h
  have hscan : Symbol.scan f.text = some f.symbols :=
    Fragment.scan_text hcompiled.spaced hcompiled.phrase.space_not_mem
  rw [compile_eq_assemble] at h
  have hsends := Piece.sends_of_drawn (Piece.numbered_of_assemble h).drawn
  obtain ⟨ms, hms, hrow⟩ := Piece.matches_of_assemble h hsends
  have hterms := says_of_mapM ho hms
  constructor
  · rintro ⟨row, ms', hrow', hms', hreads⟩
    rw [hscan] at hrow'
    cases hrow'
    rw [hrow] at hms'
    cases hms'
    exact hreads.unique (hterms.alone ρ) hterms.plain
  · rintro rfl
    exact ⟨f.symbols, ms, hscan, hrow, hterms.alone ρ⟩

/-- Terms of different paths are told apart by what they are worth. -/
theorem eq_of_total_eq {rs : List Reference} (hnodup : (rs.map Reference.location).Nodup)
    {ts us : List (Arithmetic × Operand)} (hts : ts.map Prod.snd = rs.map path)
    (hus : us.map Prod.snd = rs.map path) (h : ∀ ρ, total ρ ts = total ρ us) : ts = us := by
  induction rs generalizing ts us with
  | nil =>
    rw [List.map_nil, List.map_eq_nil_iff] at hts hus
    rw [hts, hus]
  | cons r rs ih =>
    obtain ⟨hnew, hnodup⟩ := List.nodup_cons.mp hnodup
    obtain ⟨⟨s, _⟩, ts, rfl, rfl, hts'⟩ := List.map_eq_cons_iff.mp hts
    obtain ⟨⟨s', _⟩, us, rfl, rfl, hus'⟩ := List.map_eq_cons_iff.mp hus
    -- Only the first path is worth something.
    have hrest : ∀ vs : List (Arithmetic × Operand), vs.map Prod.snd = rs.map path →
        total (fun name steps => if (name, steps) = r.location then 1 else 0) vs = 0 := by
      intro vs hvs
      refine List.sum_eq_zero fun x hx => ?_
      obtain ⟨t, ht, rfl⟩ := List.mem_map.mp hx
      obtain ⟨r', hr', hpath⟩ := List.mem_map.mp (hvs ▸ List.mem_map_of_mem ht)
      have hne : r'.location ≠ r.location := fun heq => hnew (heq ▸ List.mem_map_of_mem hr')
      simp [← hpath, amount, hne]
    have hfirst := h fun name steps => if (name, steps) = r.location then 1 else 0
    rw [total_cons, total_cons, hrest ts hts', hrest us hus'] at hfirst
    obtain rfl : s = s' := Arithmetic.factor_injective (by simpa [amount] using hfirst)
    rw [ih hnodup hts' hus' fun ρ => ?_]
    have hboth := h ρ
    rw [total_cons, total_cons] at hboth
    exact add_left_cancel hboth

/-- **When the text of a tree is worth what the tree is.**

The text of a compiled tree is read as one number, the sum of the terms of the tree with the
signs that stand before them.  This is the number of the tree, whatever the paths are worth, if
no difference in the tree takes away a sum or a difference.  Otherwise, if the terms are
different paths, it is another number for some worth of the paths. -/
theorem evaluates_amount (ho : o.IsArithmetic) (h : runFrom o.compile n = (.ok f, m)) :
    (∀ ρ q, f.Evaluates ρ q ↔ q = total ρ o.written) ∧
      (o.FromLeft → ∀ ρ q, f.Evaluates ρ q ↔ q = o.amount ρ) ∧
      ∀ rs : List Reference, o.terms.map Prod.snd = rs.map path →
        (rs.map Reference.location).Nodup → (∀ ρ, f.Evaluates ρ (o.amount ρ)) → o.FromLeft := by
  refine ⟨fun ρ q => evaluates_iff ho h, fun hleft ρ q => ?_, fun rs hrs hnodup hall => ?_⟩
  · rw [evaluates_iff ho h, (written_eq_terms_iff o).mpr hleft, amount_eq_total]
  · refine (written_eq_terms_iff o).mp (eq_of_total_eq hnodup ?_ hrs fun ρ => ?_)
    · rw [written, map_snd_writtenAfter, ← terms, hrs]
    · rw [← amount_eq_total, ← (evaluates_iff ho h).mp (hall ρ)]

/-- A difference of a path and a number, and another one added to it. -/
theorem evaluates_amount_added :
    let o : Operand := ((path (.named "a")).minus (.literal (.number (.integer 3)))).plus
      ((path ((Reference.named "b").step (.index 2))).minus (path (.named "c")))
    let f : Fragment :=
      ⟨[.name 0, .arithmetic .minus, .value 1, .arithmetic .plus, .name 2, .index 2,
          .arithmetic .minus, .name 3],
        [(0, "a"), (2, "b"), (3, "c")], [(1, .number "3")]⟩
    runFrom o.compile 0 = (.ok f, 4) ∧ f.text = "#n0 - :v1 + #n2[2] - #n3" ∧
      ∀ ρ q, f.Evaluates ρ q ↔ q = ρ "a" [] - 3 + (ρ "b" [.index 2] - ρ "c" []) := by
  intro o f
  have ho : o.IsArithmetic := ⟨⟨trivial, trivial⟩, trivial, trivial⟩
  have hleft : o.FromLeft := ⟨⟨trivial, trivial⟩, trivial, trivial⟩
  have hrun : runFrom o.compile 0 = (.ok f, 4) := rfl
  exact ⟨hrun, by decide, (evaluates_amount ho hrun).2.1 hleft⟩

/-- **A difference that is taken away** is worth something else in the text: with the third path
worth one and the others nothing, the tree is worth one and the text minus one. -/
theorem evaluates_amount_ne :
    let o : Operand :=
      (path (.named "a")).minus ((path (.named "b")).minus (path (.named "c")))
    let f : Fragment := ⟨[.name 0, .arithmetic .minus, .name 1, .arithmetic .minus, .name 2],
      [(0, "a"), (1, "b"), (2, "c")], []⟩
    let ρ : Assignment := fun name _ => if name = "c" then 1 else 0
    runFrom o.compile 0 = (.ok f, 3) ∧ f.text = "#n0 - #n1 - #n2" ∧ o.amount ρ = 1 ∧
      f.Evaluates ρ (-1) ∧ ¬f.Evaluates ρ (o.amount ρ) := by
  intro o f ρ
  have ho : o.IsArithmetic := ⟨trivial, trivial, trivial⟩
  have hrun : runFrom o.compile 0 = (.ok f, 3) := rfl
  have hamount : o.amount ρ = 1 := by
    show (0 : ℚ) - (0 - 1) = 1
    norm_num
  have htotal : total ρ o.written = -1 := by
    show 1 * 0 + (-1 * 0 + (-1 * 1 + 0)) = (-1 : ℚ)
    norm_num
  refine ⟨hrun, by decide, hamount, ?_, ?_⟩
  · rw [evaluates_iff ho hrun, htotal]
  · rw [evaluates_iff ho hrun, htotal, hamount]
    norm_num

end Operand

end ItemStore
